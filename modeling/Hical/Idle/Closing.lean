import Hical.Idle.Listed

namespace Hical.Idle
open Linked Loop

def Connection.Staged (conn : Connection) : Prop :=
  conn.upgradedGuard = true → conn.stage = .webSocket ∨ conn.stage = .sseOpening ∨ conn.stage = .sse

/-- What holds in every state of a loop. -/
structure Loop.Inv (s : Loop) : Prop where
  listed : s.Listed
  staged : ∀ conn ∈ s.connections, conn.Staged
  aimed : ∀ k c, (s.entries k).socket = some c → c = k.1

section Opened
variable {s : Loop} {c : Nat} {stage : Stage} {conn : Connection}

theorem opened_some (h : s.opened c stage = some conn) :
    s.connections[c]? = some conn ∧ conn.isOpen = true ∧ conn.stage = stage := by
  obtain ⟨hc, hp⟩ := Option.filter_eq_some_iff.1 h
  obtain ⟨ho, hs⟩ := Bool.and_eq_true_iff.1 hp
  exact ⟨hc, ho, of_decide_eq_true hs⟩

end Opened

namespace Loop.Inv
variable {s s' : Loop} {c : Nat} {conn conn' : Connection} {k : Key}

theorem entries_touch_setEntry (s : Loop) (k : Key) (e : Entry) :
    ((s.setEntry k e).touch k).entries = (s.setEntry k { e with lastActiveMs := s.clock }).entries := by
  change Function.update (Function.update s.entries k e) k
    { Function.update s.entries k e k with lastActiveMs := s.clock } = _
  rw [Function.update_idem, Function.update_self]
  rfl

theorem aimed_setEntry (h : s.Inv) {e : Entry} (he : ∀ c, e.socket = some c → c = k.1) (j : Key)
    (c : Nat) (hj : ((s.setEntry k e).entries j).socket = some c) : c = j.1 := by
  change (Function.update s.entries k e j).socket = some c at hj
  by_cases hjk : j = k
  · subst hjk
    rw [Function.update_self] at hj
    exact he c hj
  · rw [Function.update_of_ne hjk] at hj
    exact h.aimed j c hj

theorem touch (h : s.Inv) (k : Key) : (s.touch k).Inv :=
  ⟨h.listed.frame rfl rfl fun _ => .rfl, h.staged, h.aimed_setEntry (h.aimed k)⟩

theorem staged_set (h : s.Inv) (conn' : Connection) (hs : conn'.Staged) (c : Nat) :
    ∀ conn ∈ s.connections.set c conn', conn.Staged := by
  intro conn hmem
  rcases List.mem_or_eq_of_mem_set hmem with hmem | rfl
  · exact h.staged conn hmem
  · exact hs

theorem setConnection (h : s.Inv) (hc : s.connections[c]? = some conn) (conn' : Connection)
    (hg : ∀ role, conn'.guarded role = conn.guarded role) (hs : conn'.Staged) :
    (s.setConnection c conn').Inv :=
  ⟨h.listed.setConnection hc conn' hg, h.staged_set conn' hs c, h.aimed⟩

theorem transfer (h : s.Inv) (hc : s.connections[c]? = some conn) : (s.transfer c conn).Inv :=
  h.setConnection hc _ (fun role => by cases role <;> rfl) (h.staged conn (List.mem_of_getElem? hc))

theorem entries_dropGuard (role : Role) :
    (s.dropGuard c conn role conn').entries = s.entries := by
  rw [Loop.dropGuard]
  split <;> rfl

theorem accept (h : s.Inv) : s.accept.Inv := by
  refine ⟨h.listed.accept, ?_, ?_⟩
  · intro conn hmem
    have hmem : conn ∈ s.connections ++ [(⟨.http, s.running, false, true, none⟩ : Connection)] := by
      revert hmem
      rw [Loop.accept]
      dsimp only
      split <;> exact id
    rcases List.mem_append.1 hmem with hmem | hmem
    · exact h.staged conn hmem
    · rw [List.mem_singleton.1 hmem]
      exact fun hu => Bool.noConfusion hu
  · have hentries : s.accept.entries = ((s.setEntry (s.connections.length, .session)
        { socket := some s.connections.length }).touch (s.connections.length, .session)).entries := by
      rw [Loop.accept]
      dsimp only
      split <;> rfl
    rw [hentries, entries_touch_setEntry]
    exact h.aimed_setEntry fun c hc => (Option.some.inj hc).symm

theorem releaseGuard (h : s.Inv) (hc : s.connections[c]? = some conn) (hs : conn.stage = .http)
    (stage : Stage) : (s.releaseGuard c conn stage).Inv := by
  refine ⟨h.listed.releaseGuard hc stage, ?_, ?_⟩
  · rw [Loop.releaseGuard, Listed.connections_dropGuard]
    refine h.staged_set _ (fun hu => ?_) c
    have := h.staged conn (List.mem_of_getElem? hc) hu
    rw [hs] at this
    simp at this
  · rw [Loop.releaseGuard, entries_dropGuard]
    exact h.aimed

theorem guardUpgraded (h : s.Inv) (hc : s.connections[c]? = some conn') (conn : Connection)
    (hg : conn'.idleGuard = conn.idleGuard) (hn : conn'.upgradedGuard = false) {stage : Stage}
    (hs : stage = .webSocket ∨ stage = .sseOpening) (e : Entry) (he : e.socket = some c) :
    (s.guardUpgraded c conn stage e).Inv := by
  refine ⟨h.listed.guardUpgraded hc conn hg hn stage e, ?_, ?_⟩
  · have hconns : (s.guardUpgraded c conn stage e).connections =
        s.connections.set c { conn with stage := stage, upgradedGuard := s.running } := by
      rw [Loop.guardUpgraded]
      split <;> rfl
    rw [hconns]
    exact h.staged_set _ (fun _ => hs.imp_right .inl) c
  · have hentries : (s.guardUpgraded c conn stage e).entries =
        ((s.setEntry (c, .upgraded) e).touch (c, .upgraded)).entries := by
      rw [Loop.guardUpgraded]
      split <;> rfl
    rw [hentries]
    rw [entries_touch_setEntry]
    exact h.aimed_setEntry fun c' hc' => (Option.some.inj (he.symm.trans hc')).symm

theorem finish (h : s.Inv) (hc : s.connections[c]? = some conn) : (s.finish c conn).Inv := by
  refine ⟨h.listed.finish hc, ?_, ?_⟩
  · rw [Loop.finish, Listed.connections_dropGuard, Listed.connections_dropGuard, List.set_set]
    exact h.staged_set _ (fun hu => Bool.noConfusion hu) c
  · rw [Loop.finish, entries_dropGuard, entries_dropGuard]
    exact h.aimed

theorem close (h : s.Inv) (c : Nat) (timeout : Int) : (s.close c timeout).Inv := by
  refine ⟨h.listed.close c timeout, ?_, ?_⟩
  · rw [Loop.close]
    split
    · next conn hc =>
      exact h.staged_set { conn with isOpen := false }
        (h.staged conn (List.mem_of_getElem? hc)) c
    · exact h.staged
  · rw [Loop.close]
    split <;> exact h.aimed

theorem visit (h : s.Inv) (timeoutMs : Int) (k : Key) : (s.visit timeoutMs k).Inv := by
  rw [Loop.visit]
  split
  · split
    · exact h.close _ _
    · exact h
  · exact h

theorem round (h : s.Inv) (timeoutMs : Int) : (s.round timeoutMs).Inv := by
  rw [Loop.round]
  generalize s.listed = l
  induction l generalizing s with
  | nil => exact h
  | cons k l ih => exact ih (h.visit timeoutMs k)

theorem step (h : s.Inv) (hs : Idle.step timeoutMs s label = some s') : s'.Inv := by
  cases label with
  | start | stop | wait ms =>
    cases hs
    exact ⟨h.listed.frame rfl rfl fun _ => .rfl, h.staged, h.aimed⟩
  | accept =>
    cases hs
    exact h.accept
  | readHead c complete =>
    obtain ⟨conn, ho, rfl⟩ := Option.map_eq_some_iff.1 hs
    have ht := h.transfer (opened_some ho).1
    cases complete with
    | false => exact ht
    | true => exact ht.touch _
  | parsed c | responded c =>
    obtain ⟨conn, ho, rfl⟩ := Option.map_eq_some_iff.1 hs
    exact h.touch _
  | transfer c =>
    obtain ⟨conn, ho, rfl⟩ := Option.map_eq_some_iff.1 hs
    exact h.transfer (Option.filter_eq_some_iff.1 ho).1
  | upgradeWebSocket c =>
    obtain ⟨conn, ho, rfl⟩ := Option.map_eq_some_iff.1 hs
    exact h.releaseGuard (opened_some ho).1 (opened_some ho).2.2 _
  | webSocketOpened c =>
    obtain ⟨conn, ho, rfl⟩ := Option.map_eq_some_iff.1 hs
    obtain ⟨hc, -, hstage⟩ := opened_some ho
    refine h.guardUpgraded hc { conn with lastByte := some s.clock } rfl
      (Bool.eq_false_iff.2 fun hu => ?_) (.inl rfl) { socket := some c } rfl
    have := h.staged conn (List.mem_of_getElem? hc) hu
    rw [hstage] at this
    simp at this
  | upgradeSse c =>
    obtain ⟨conn, ho, rfl⟩ := Option.map_eq_some_iff.1 hs
    obtain ⟨hc, -, hstage⟩ := opened_some ho
    have hlt : c < s.connections.length := (List.getElem?_eq_some_iff.1 hc).1
    have hreleased : (s.releaseGuard c conn .sseOpening).connections[c]? =
        some { conn with stage := .sseOpening, idleGuard := false } := by
      rw [Loop.releaseGuard, Listed.connections_dropGuard, List.getElem?_set_self hlt]
    refine (h.releaseGuard hc hstage .sseOpening).guardUpgraded hreleased _ rfl
      (Bool.eq_false_iff.2 fun hu => ?_) (.inr rfl)
      { socket := some c, customTimeoutMs := sseTimeoutMs } rfl
    have := h.staged conn (List.mem_of_getElem? hc) hu
    rw [hstage] at this
    simp at this
  | sseHeadSent c =>
    obtain ⟨conn, ho, rfl⟩ := Option.map_eq_some_iff.1 hs
    have hc := (opened_some ho).1
    exact (h.setConnection hc _ (fun role => by cases role <;> rfl) fun _ => .inr (.inr rfl)).touch _
  | finish c =>
    obtain ⟨conn, ho, rfl⟩ := Option.map_eq_some_iff.1 hs
    exact h.finish (Option.filter_eq_some_iff.1 ho).1
  | round =>
    obtain ⟨-, rfl⟩ := Option.ite_some_none_eq_some.1 hs
    exact h.round timeoutMs

theorem start : (({} : Loop)).Inv := by
  refine ⟨⟨[], Links.holds_empty, rfl, fun k => ?_⟩, nofun, nofun⟩
  constructor
  · nofun
  · rintro ⟨conn, hc, -⟩
    cases hc

theorem reaches (h : Reaches timeoutMs C s) : s.Inv := by
  induction h with
  | start => exact start
  | step _ _ hs ih => exact ih.step hs

end Loop.Inv

/-- No byte was received or sent during the timeout. -/
def Closing.Quiet (x : Closing) : Prop := ∀ t, x.lastByte = some t → x.timeout ≤ x.now - t

/-- Every registered entry that has expired was touched with or behind the last byte on its
connection. -/
def Loop.Recorded (timeoutMs : Int) (s : Loop) : Prop :=
  ∀ k, s.Guards k → s.expired timeoutMs k = true → ∀ conn t, s.connections[k.1]? = some conn →
    conn.lastByte = some t → t ≤ (s.entries k).lastActiveMs

/-- The scanner comes round only where the activity is recorded. -/
def RoundsRecorded (timeoutMs : Int) (s : Loop) : Label → Prop
  | .round => s.Recorded timeoutMs
  | _ => True

section Rounds
variable {s t : Loop} {timeoutMs : Int} {k : Key}

/-- The same but for what is open and what was closed. -/
structure Loop.Alike (s t : Loop) : Prop where
  entries : t.entries = s.entries
  clock : t.clock = s.clock
  lastByte : ∀ c : Nat, t.connections[c]?.map Connection.lastByte =
    s.connections[c]?.map Connection.lastByte

theorem Loop.Alike.visit (h : s.Alike t) (k : Key) : s.Alike (t.visit timeoutMs k) := by
  rw [Loop.visit]
  split
  · split
    · rw [Loop.close]
      split
      · next c _ _ _ conn hc =>
        refine ⟨h.entries, h.clock, fun j => Eq.trans ?_ (h.lastByte j)⟩
        change (t.connections.set c { conn with isOpen := false })[j]?.map Connection.lastByte = _
        rw [List.getElem?_set]
        split
        · next hj =>
          subst hj
          rw [if_pos (List.getElem?_eq_some_iff.1 hc).1, hc]
          rfl
        · rfl
      · exact h
    · exact h
  · exact h

/-- What a visit of an entry closes was quiet, if the activity on it is recorded. -/
theorem closings_visit (hinv : s.Inv) (hrec : ∀ conn b, s.expired timeoutMs k = true →
      s.connections[k.1]? = some conn → conn.lastByte = some b → b ≤ (s.entries k).lastActiveMs)
    (h : s.Alike t) (ht : ∀ x ∈ t.closings, x.Quiet) :
    ∀ x ∈ (t.visit timeoutMs k).closings, x.Quiet := by
  rw [Loop.visit]
  split
  · next c hc =>
    have hck : c = k.1 := hinv.aimed k c (h.entries ▸ hc)
    subst hck
    split
    · next hexp =>
      rw [Loop.close]
      split
      · next conn hconn =>
        intro x hx
        rcases List.mem_append.1 hx with hx | hx
        · exact ht x hx
        · rw [List.mem_singleton.1 hx]
          intro b hb
          have hlast := h.lastByte k.1
          rw [hconn] at hlast
          obtain ⟨conn', hconn', hb'⟩ := Option.map_eq_some_iff.1 hlast.symm
          have hexp' : s.expired timeoutMs k = true := by
            rw [Loop.expired] at hexp ⊢
            rw [← h.entries, ← h.clock]
            exact hexp
          have hle := hrec conn' b hexp' hconn' (hb'.trans hb)
          have hge := of_decide_eq_true hexp'
          dsimp only
          rw [h.entries, h.clock]
          omega
      · exact ht
    · exact ht
  · exact ht

theorem Loop.Listed.mem_listed (h : s.Listed) : k ∈ s.listed ↔ s.Guards k := by
  obtain ⟨l, hlinks, hcount, hmem⟩ := h
  rw [Loop.listed, hcount, hlinks.walk, hmem]

theorem closings_round (hinv : s.Inv) (hrec : s.Recorded timeoutMs)
    (hs : ∀ x ∈ s.closings, x.Quiet) : ∀ x ∈ (s.round timeoutMs).closings, x.Quiet := by
  have hfold : ∀ (l : List Key) (t : Loop), (∀ k ∈ l, s.Guards k) → s.Alike t →
      (∀ x ∈ t.closings, x.Quiet) → ∀ x ∈ (l.foldl (Loop.visit timeoutMs) t).closings, x.Quiet := by
    intro l
    induction l with
    | nil => exact fun _ _ _ ht => ht
    | cons k l ih =>
      intro t hl h ht
      refine ih _ (fun j hj => hl j (List.mem_cons_of_mem _ hj)) (h.visit k) ?_
      exact closings_visit hinv (fun conn b he => hrec k (hl k List.mem_cons_self) he conn b) h ht
  exact hfold _ s (fun k hk => hinv.listed.mem_listed.1 hk) ⟨rfl, rfl, fun _ => rfl⟩ hs

theorem closings_step (hs : step timeoutMs s label = some t) (hl : label ≠ .round) :
    t.closings = s.closings := by
  have hguards : ∀ (s : Loop) c conn role conn',
      (s.dropGuard c conn role conn').closings = s.closings := by
    intro s c conn role conn'
    rw [Loop.dropGuard]
    split <;> rfl
  have hup : ∀ (s : Loop) c conn stage e,
      (s.guardUpgraded c conn stage e).closings = s.closings := by
    intro s c conn stage e
    rw [Loop.guardUpgraded]
    split <;> rfl
  cases label with
  | round => exact absurd rfl hl
  | start | stop | wait ms => cases hs; rfl
  | accept =>
    cases hs
    rw [Loop.accept]
    dsimp only
    split <;> rfl
  | readHead c complete =>
    obtain ⟨conn, ho, rfl⟩ := Option.map_eq_some_iff.1 hs
    cases complete <;> rfl
  | upgradeWebSocket c =>
    obtain ⟨conn, ho, rfl⟩ := Option.map_eq_some_iff.1 hs
    exact hguards ..
  | webSocketOpened c =>
    obtain ⟨conn, ho, rfl⟩ := Option.map_eq_some_iff.1 hs
    exact hup ..
  | upgradeSse c =>
    obtain ⟨conn, ho, rfl⟩ := Option.map_eq_some_iff.1 hs
    exact (hup ..).trans (hguards ..)
  | finish c =>
    obtain ⟨conn, ho, rfl⟩ := Option.map_eq_some_iff.1 hs
    exact (hguards ..).trans (hguards ..)
  | parsed c | transfer c | responded c | sseHeadSent c =>
    obtain ⟨conn, ho, rfl⟩ := Option.map_eq_some_iff.1 hs; rfl

theorem closings_quiet (h : Reaches timeoutMs (RoundsRecorded timeoutMs) s) :
    ∀ x ∈ s.closings, x.Quiet := by
  induction h with
  | start => nofun
  | @step s label s' hr hc hs ih =>
    by_cases hl : label = .round
    · subst hl
      obtain ⟨-, rfl⟩ := Option.ite_some_none_eq_some.1 hs
      exact closings_round (.reaches hr) hc ih
    · rw [closings_step hs hl]
      exact ih

end Rounds

/-- The list of the scanner is that of the live guards in every state, linked both ways, and while the
activity is recorded where the scanner comes round, only quiet connections are closed. -/
theorem idle_closing (timeoutMs : Int) :
    (∀ C s, Reaches timeoutMs C s → s.Listed ∧
      ∀ x y, s.links.next x = some y ↔ s.links.prev y = some x) ∧
    ∀ s, Reaches timeoutMs (RoundsRecorded timeoutMs) s → ∀ x ∈ s.closings, x.Quiet := by
  refine ⟨fun C s h => ?_, fun s h => closings_quiet h⟩
  have hlisted := (Inv.reaches h).listed
  obtain ⟨l, hlinks, -⟩ := hlisted
  exact ⟨(Inv.reaches h).listed, fun x y => hlinks.next_iff_prev⟩

section Examples

def run (timeoutMs : Int) : Loop → List Label → Option Loop
  | s, [] => some s
  | s, label :: labels => (step timeoutMs s label).bind fun s => run timeoutMs s labels

theorem reaches_run {s s' : Loop} {labels : List Label} (h : Reaches timeoutMs C s)
    (hc : ∀ label ∈ labels, ∀ s, C s label) (hr : run timeoutMs s labels = some s') :
    Reaches timeoutMs C s' := by
  induction labels generalizing s with
  | nil =>
    cases hr
    exact h
  | cons label labels ih =>
    obtain ⟨t, hs, hr⟩ := Option.bind_eq_some_iff.1 hr
    exact ih (.step h (hc _ List.mem_cons_self _) hs) (fun l hl => hc l (List.mem_cons_of_mem _ hl)) hr

/-- A WebSocket connection that receives a message a second before the scanner comes round. -/
def liveWebSocket : List Label :=
  [.start, .accept, .readHead 0 true, .upgradeWebSocket 0, .webSocketOpened 0, .wait 59000,
    .transfer 0, .wait 1000, .round]

theorem liveWebSocket_closed :
    ¬ ∀ s, Reaches 60000 (fun _ _ => True) s → ∀ x ∈ s.closings, x.Quiet := by
  intro h
  obtain ⟨s, hrun, hclosings⟩ := Option.map_eq_some_iff.1
    (show (run 60000 {} liveWebSocket).map Loop.closings = some [⟨0, 60000, 60000, some 59000⟩] from
      by decide +kernel)
  have hquiet := h s (reaches_run .start (fun _ _ _ => trivial) hrun) ⟨0, 60000, 60000, some 59000⟩
    (hclosings ▸ List.mem_singleton_self _)
  exact absurd (hquiet 59000 rfl) (by decide)

def silentRequest : List Label :=
  [.start, .accept, .readHead 0 true, .transfer 0, .responded 0, .wait 60000]

theorem idle_closing_silent : ∃ s, Reaches 60000 (RoundsRecorded 60000) s ∧
    s.closings = [⟨0, 60000, 60000, some 0⟩] ∧ ∀ x ∈ s.closings, x.Quiet := by
  obtain ⟨s, hrun, heq⟩ := Option.map_eq_some_iff.1
    (show (run 60000 {} silentRequest).map (fun s => (s.connections, s.entries (0, .session) |>.lastActiveMs,
      (step 60000 s .round).map Loop.closings)) = some ([⟨.http, true, false, true, some 0⟩], 0,
        some [⟨0, 60000, 60000, some 0⟩]) from by decide +kernel)
  obtain ⟨hconns, hrest⟩ := Prod.mk.inj heq
  obtain ⟨hlast, hround⟩ := Prod.mk.inj hrest
  obtain ⟨t, hstep, hclosings⟩ := Option.map_eq_some_iff.1 hround
  have hquiet : ∀ label ∈ silentRequest, ∀ s, RoundsRecorded 60000 s label := by
    simp [silentRequest, RoundsRecorded]
  have hs : Reaches 60000 (RoundsRecorded 60000) s :=
    reaches_run .start hquiet hrun
  have hrec : RoundsRecorded 60000 s .round := by
    rintro ⟨c, role⟩ ⟨conn, hc, hg⟩ - conn' b hc' hb
    rw [hconns] at hc hc'
    cases c with
    | zero =>
      cases hc
      cases hc'
      cases hb
      cases role with
      | session => exact Int.le_of_eq hlast.symm
      | upgraded => cases hg
    | succ c => cases hc
  have ht : Reaches 60000 (RoundsRecorded 60000) t := .step hs hrec hstep
  exact ⟨t, ht, hclosings, (idle_closing 60000).2 t ht⟩

end Examples

end Hical.Idle
