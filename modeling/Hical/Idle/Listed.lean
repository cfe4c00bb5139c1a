import Hical.Lib.Links

namespace Hical.Idle
open Linked

/-- Whose guard it is: that of `handleSession`, or that of the WebSocket or SSE session which took over
the socket. -/
inductive Role where
  | session
  | upgraded
  deriving DecidableEq, Repr

/-- An entry is named by its connection and its guard. -/
abbrev Key := Nat × Role

/-- `IdleScanner::Entry` without its links. A socket is named by its connection. -/
structure Entry where
  lastActiveMs : Int := 0
  socket : Option Nat := none
  customTimeoutMs : Int := 0

/-- Where the coroutine of a connection stands. -/
inductive Stage where
  | http
  /-- Behind the release of the guard, up to the end of the write of the 101 response. -/
  | webSocketOpening
  | webSocket
  /-- Up to the end of the write of the response head. -/
  | sseOpening
  | sse
  | finished
  deriving DecidableEq, Repr

structure Connection where
  stage : Stage := .http
  /-- The `scanner_` of the guard of `handleSession` is not null. -/
  idleGuard : Bool
  upgradedGuard : Bool := false
  isOpen : Bool := true
  /-- Not in the code: when a byte was received or sent last. -/
  lastByte : Option Int := none
  deriving DecidableEq

def Connection.guarded (conn : Connection) : Role → Bool
  | .session => conn.idleGuard
  | .upgraded => conn.upgradedGuard

/-- A socket closed by a round of the scanner, with the timeout that had passed and the time of the
last byte on the connection. -/
structure Closing where
  conn : Nat
  now : Int
  timeout : Int
  lastByte : Option Int
  deriving DecidableEq, Repr

structure Loop where
  links : Links Key := .empty
  /-- `count_`. -/
  count : Nat := 0
  entries : Key → Entry := fun _ => {}
  /-- Inside `run`, where `currentThreadIdleScanner` is not null. -/
  running : Bool := false
  /-- What `steady_clock::now` gives, in milliseconds. -/
  clock : Int := 0
  connections : List Connection := []
  /-- Not in the code: what the rounds closed. -/
  closings : List Closing := []

/-- `kSseTimeoutMs`. -/
def sseTimeoutMs : Int := 30 * 60 * 1000

namespace Loop

def registerEntry (s : Loop) (k : Key) : Loop :=
  { s with links := s.links.insert k, count := s.count + 1 }

def unregisterEntry (s : Loop) (k : Key) : Loop :=
  { s with links := s.links.remove k, count := s.count - 1 }

def setEntry (s : Loop) (k : Key) (e : Entry) : Loop :=
  { s with entries := Function.update s.entries k e }

def touch (s : Loop) (k : Key) : Loop :=
  s.setEntry k { s.entries k with lastActiveMs := s.clock }

def setConnection (s : Loop) (c : Nat) (conn : Connection) : Loop :=
  { s with connections := s.connections.set c conn }

/-- The beginning of `handleSession`. -/
def accept (s : Loop) : Loop :=
  let k := (s.connections.length, Role.session)
  let s := (s.setEntry k { socket := some s.connections.length }).touch k
  let conn : Connection := { idleGuard := s.running }
  let s := { s with connections := s.connections ++ [conn] }
  if s.running then s.registerEntry k else s

def transfer (s : Loop) (c : Nat) (conn : Connection) : Loop :=
  s.setConnection c { conn with lastByte := some s.clock }

/-- A guard goes, and the connection is like `conn'` behind it. -/
def dropGuard (s : Loop) (c : Nat) (conn : Connection) (role : Role) (conn' : Connection) : Loop :=
  if conn.guarded role then (s.setConnection c conn').unregisterEntry (c, role)
  else s.setConnection c conn'

/-- `idleGuard.release()`, where the socket goes over to the given stage. -/
def releaseGuard (s : Loop) (c : Nat) (conn : Connection) (stage : Stage) : Loop :=
  s.dropGuard c conn .session { conn with stage := stage, idleGuard := false }

def guardUpgraded (s : Loop) (c : Nat) (conn : Connection) (stage : Stage) (e : Entry) : Loop :=
  let s := (s.setEntry (c, .upgraded) e).touch (c, .upgraded)
  let t := s.setConnection c { conn with stage := stage, upgradedGuard := s.running }
  if s.running then t.registerEntry (c, .upgraded) else t

/-- The guards are destroyed, then the socket is closed. -/
def finish (s : Loop) (c : Nat) (conn : Connection) : Loop :=
  let inner := { conn with upgradedGuard := false }
  (s.dropGuard c conn .upgraded inner).dropGuard c inner .session
    { inner with stage := .finished, idleGuard := false, isOpen := false }

/-- How long the entry may be inactive. -/
def timeoutOf (timeoutMs : Int) (e : Entry) : Int :=
  if e.customTimeoutMs > 0 then e.customTimeoutMs else timeoutMs

def expired (timeoutMs : Int) (s : Loop) (k : Key) : Bool :=
  decide (s.clock - (s.entries k).lastActiveMs ≥ timeoutOf timeoutMs (s.entries k))

def close (s : Loop) (c : Nat) (timeout : Int) : Loop :=
  match s.connections[c]? with
  | some conn =>
    { s.setConnection c { conn with isOpen := false } with
      closings := s.closings ++ [⟨c, s.clock, timeout, conn.lastByte⟩] }
  | none => s

/-- What the loop of `run` does with one entry. -/
def visit (timeoutMs : Int) (s : Loop) (k : Key) : Loop :=
  match (s.entries k).socket with
  | some c =>
    if s.expired timeoutMs k then s.close c (timeoutOf timeoutMs (s.entries k)) else s
  | none => s

/-- The entries that the loop of `run` comes to. -/
def listed (s : Loop) : List Key := s.links.walk (s.count + 1) (s.links.next .sentinel)

def round (timeoutMs : Int) (s : Loop) : Loop := s.listed.foldl (visit timeoutMs) s

end Loop

inductive Label where
  | start
  | stop
  | wait (ms : Nat)
  | accept
  /-- A read of a request head, which is complete now or not. -/
  | readHead (c : Nat) (complete : Bool)
  /-- A request head that was in the buffer already. -/
  | parsed (c : Nat)
  /-- Any other byte on the connection: of a handshake, a body, a response, a message. -/
  | transfer (c : Nat)
  /-- Behind the write of a response. -/
  | responded (c : Nat)
  | upgradeWebSocket (c : Nat)
  /-- The 101 response is written. -/
  | webSocketOpened (c : Nat)
  | upgradeSse (c : Nat)
  | sseHeadSent (c : Nat)
  | finish (c : Nat)
  | round

def Loop.opened (s : Loop) (c : Nat) (stage : Stage) : Option Connection :=
  s.connections[c]?.filter fun conn => conn.isOpen && decide (conn.stage = stage)

def step (timeoutMs : Int) (s : Loop) : Label → Option Loop
  | .start => some { s with running := true }
  | .stop => some { s with running := false }
  | .wait ms => some { s with clock := s.clock + ms }
  | .accept => some s.accept
  | .readHead c complete =>
    (s.opened c .http).map fun conn =>
      if complete then (s.transfer c conn).touch (c, .session) else s.transfer c conn
  | .parsed c => (s.opened c .http).map fun _ => s.touch (c, .session)
  | .transfer c =>
    (s.connections[c]?.filter Connection.isOpen).map fun conn => s.transfer c conn
  | .responded c => (s.opened c .http).map fun _ => s.touch (c, .session)
  | .upgradeWebSocket c =>
    (s.opened c .http).map fun conn => s.releaseGuard c conn .webSocketOpening
  | .webSocketOpened c =>
    (s.opened c .webSocketOpening).map fun conn =>
      s.guardUpgraded c { conn with lastByte := some s.clock } .webSocket { socket := some c }
  | .upgradeSse c =>
    (s.opened c .http).map fun conn =>
      (s.releaseGuard c conn .sseOpening).guardUpgraded c { conn with idleGuard := false }
        .sseOpening { socket := some c, customTimeoutMs := sseTimeoutMs }
  | .sseHeadSent c =>
    (s.opened c .sseOpening).map fun conn =>
      (s.setConnection c { conn with stage := .sse, lastByte := some s.clock }).touch (c, .upgraded)
  | .finish c =>
    (s.connections[c]?.filter fun conn => decide (conn.stage ≠ .finished)).map fun conn =>
      s.finish c conn
  | .round => if s.running then some (s.round timeoutMs) else none

/-- The states that a loop comes to. -/
inductive Reaches (timeoutMs : Int) (C : Loop → Label → Prop) : Loop → Prop where
  | start : Reaches timeoutMs C {}
  | step (h : Reaches timeoutMs C s) (hc : C s label) (hs : step timeoutMs s label = some s') :
      Reaches timeoutMs C s'

namespace Loop

/-- The entry stands in a guard that is alive and registered. -/
def Guards (s : Loop) (k : Key) : Prop :=
  ∃ conn, s.connections[k.1]? = some conn ∧ conn.guarded k.2 = true

/-- The list of the scanner consists of the entries of the live guards. -/
def Listed (s : Loop) : Prop :=
  ∃ l, s.links.Holds l ∧ s.count = l.length ∧ ∀ k, k ∈ l ↔ s.Guards k

end Loop

variable {s s' : Loop} {c : Nat} {conn conn' : Connection} {k : Key}
open Loop

theorem guards_of_some (hc : s.connections[c]? = some conn) (role : Role) :
    s.Guards (c, role) ↔ conn.guarded role = true := by
  constructor
  · rintro ⟨conn', hc', hg⟩
    cases hc.symm.trans hc'
    exact hg
  · exact fun hg => ⟨conn, hc, hg⟩

theorem guards_setConnection (hc : s.connections[c]? = some conn) (j : Key) :
    (s.setConnection c conn').Guards j ↔
      if j.1 = c then conn'.guarded j.2 = true else s.Guards j := by
  have hlt : c < s.connections.length := (List.getElem?_eq_some_iff.1 hc).1
  obtain ⟨c', role⟩ := j
  by_cases hj : c' = c
  · subst hj
    rw [if_pos rfl]
    exact guards_of_some (s := s.setConnection c' conn') (List.getElem?_set_self hlt) role
  · rw [if_neg hj, Guards, setConnection, List.getElem?_set_ne (Ne.symm hj)]
    rfl

namespace Loop.Listed

theorem frame (h : s.Listed) (hl : s'.links = s.links) (hn : s'.count = s.count)
    (hg : ∀ k, s'.Guards k ↔ s.Guards k) : s'.Listed := by
  obtain ⟨l, hlinks, hcount, hmem⟩ := h
  exact ⟨l, hl ▸ hlinks, hn.trans hcount, fun k => (hmem k).trans (hg k).symm⟩

theorem register (h : s.Listed) (hk : ¬ s.Guards k) (hl : s'.links = s.links.insert k)
    (hn : s'.count = s.count + 1) (hg : ∀ j, s'.Guards j ↔ j = k ∨ s.Guards j) : s'.Listed := by
  obtain ⟨l, hlinks, hcount, hmem⟩ := h
  have hnot : k ∉ l := fun hin => hk ((hmem k).1 hin)
  refine ⟨k :: l, hl ▸ hlinks.insert hnot, ?_, fun j => ?_⟩
  · rw [hn, hcount, List.length_cons]
  · rw [List.mem_cons, hmem, hg]

theorem unregister (h : s.Listed) (hk : s.Guards k) (hl : s'.links = s.links.remove k)
    (hn : s'.count = s.count - 1) (hg : ∀ j, s'.Guards j ↔ j ≠ k ∧ s.Guards j) : s'.Listed := by
  obtain ⟨l, hlinks, hcount, hmem⟩ := h
  obtain ⟨before, after, rfl⟩ := List.append_of_mem ((hmem k).2 hk)
  refine ⟨before ++ after, hl ▸ hlinks.remove, ?_, fun j => ?_⟩
  · rw [hn, hcount, List.length_append, List.length_append, List.length_cons]
    omega
  · rw [hg, ← hmem]
    have hnodup := List.nodup_middle.1 hlinks.nodup
    constructor
    · intro hj
      refine ⟨?_, ?_⟩
      · rintro rfl
        exact (List.nodup_cons.1 hnodup).1 hj
      · rw [List.mem_append, List.mem_cons]
        exact (List.mem_append.1 hj).imp_right .inr
    · rintro ⟨hne, hj⟩
      rw [List.mem_append, List.mem_cons] at hj
      exact List.mem_append.2 (hj.imp_right fun h => h.resolve_left hne)

theorem setConnection (h : s.Listed) (hc : s.connections[c]? = some conn) (conn' : Connection)
    (hg : ∀ role, conn'.guarded role = conn.guarded role) : (s.setConnection c conn').Listed := by
  refine h.frame rfl rfl ?_
  rintro ⟨c', role⟩
  rw [guards_setConnection hc]
  by_cases hj : c' = c
  · subst hj
    rw [if_pos rfl, guards_of_some hc, hg]
  · rw [if_neg hj]

theorem guards_accept (s : Loop) (j : Key) : s.accept.Guards j ↔
    (j = (s.connections.length, .session) ∧ s.running = true) ∨ s.Guards j := by
  have hconns : s.accept.connections =
      s.connections ++ [(⟨.http, s.running, false, true, none⟩ : Connection)] := by
    rw [Loop.accept]
    dsimp only
    split <;> rfl
  obtain ⟨c', role⟩ := j
  rw [Guards, hconns]
  rcases Nat.lt_trichotomy c' s.connections.length with hlt | rfl | hgt
  · rw [List.getElem?_append_left hlt]
    constructor
    · exact .inr
    · rintro (⟨he, -⟩ | hg)
      · cases he
        exact absurd hlt (Nat.lt_irrefl _)
      · exact hg
  · have hnot : ¬ s.Guards (s.connections.length, role) := by
      rintro ⟨conn, hc, -⟩
      rw [List.getElem?_eq_none (Nat.le_refl _)] at hc
      cases hc
    rw [List.getElem?_append_right (Nat.le_refl _), Nat.sub_self]
    constructor
    · rintro ⟨conn, hc, hg⟩
      cases hc
      cases role with
      | session => exact .inl ⟨rfl, hg⟩
      | upgraded => cases hg
    · rintro (⟨he, hr⟩ | hg)
      · cases he
        exact ⟨_, rfl, hr⟩
      · exact absurd hg hnot
  · constructor
    · rintro ⟨conn, hc, -⟩
      rw [List.getElem?_eq_none (by rw [List.length_append]; exact hgt)] at hc
      cases hc
    · rintro (⟨he, -⟩ | ⟨conn, hc, -⟩)
      · cases he
        exact absurd hgt (Nat.lt_irrefl _)
      · rw [List.getElem?_eq_none (Nat.le_of_lt hgt)] at hc
        cases hc

theorem accept (h : s.Listed) : s.accept.Listed := by
  have hg := guards_accept s
  revert hg
  rw [Loop.accept]
  dsimp only
  split
  · next hr =>
    intro hg
    have hrun : s.running = true := hr
    refine h.register ?_ rfl rfl fun j => (hg j).trans (by rw [hrun, and_iff_left rfl])
    rintro ⟨conn, hc, -⟩
    rw [List.getElem?_eq_none (Nat.le_refl _)] at hc
    cases hc
  · next hr =>
    intro hg
    have hrun : s.running = false := Bool.eq_false_iff.2 hr
    exact h.frame rfl rfl fun j => (hg j).trans (by simp [hrun])

theorem drop (h : s.Listed) (hc : s.connections[c]? = some conn) (role : Role)
    (conn' : Connection) (hother : ∀ r, r ≠ role → conn'.guarded r = conn.guarded r) (hgone : conn'.guarded role = false) :
    (s.dropGuard c conn role conn').Listed := by
  rw [Loop.dropGuard]
  cases hr : conn.guarded role with
  | false =>
    rw [if_neg Bool.false_ne_true]
    apply h.setConnection hc conn'
    intro r
    by_cases hne : r = role
    · rw [hne, hgone, hr]
    · exact hother r hne
  | true =>
    rw [if_pos rfl]
    refine h.unregister ((guards_of_some hc role).2 hr) rfl rfl fun j => ?_
    refine (guards_setConnection hc j).trans ?_
    obtain ⟨c', r⟩ := j
    by_cases hj : c' = c
    · subst hj
      rw [if_pos rfl, guards_of_some hc]
      by_cases hne : r = role
      · subst hne
        simp [hgone]
      · rw [hother r hne]
        simp [hne]
    · rw [if_neg hj]
      simp [hj]

theorem releaseGuard (h : s.Listed) (hc : s.connections[c]? = some conn) (stage : Stage) :
    (s.releaseGuard c conn stage).Listed :=
  h.drop hc .session _ (fun r hr => by cases r with | session => exact absurd rfl hr | upgraded => rfl)
    rfl

theorem guardUpgraded (h : s.Listed) (hc : s.connections[c]? = some conn') (conn : Connection)
    (hg : conn'.idleGuard = conn.idleGuard) (hn : conn'.upgradedGuard = false) (stage : Stage)
    (e : Entry) : (s.guardUpgraded c conn stage e).Listed := by
  rw [Loop.guardUpgraded]
  have hguards : ∀ (t : Loop) b, t.connections = s.connections →
      ∀ j, (t.setConnection c { conn with stage := stage, upgradedGuard := b }).Guards j ↔
        if j = (c, .upgraded) then b = true else s.Guards j := by
    intro t b ht j
    refine (guards_setConnection (ht ▸ hc) j).trans ?_
    obtain ⟨c', role⟩ := j
    by_cases hj : c' = c
    · subst hj
      cases role with
      | session =>
        rw [if_pos rfl, if_neg (by simp), guards_of_some hc]
        exact iff_of_eq (congrArg (· = true) hg.symm)
      | upgraded => rw [if_pos rfl, if_pos rfl]; rfl
    · rw [if_neg hj, if_neg (by simp [hj]), Guards, ht]
      rfl
  have hfree : ¬ s.Guards (c, .upgraded) := by
    rw [guards_of_some hc]
    exact fun h => Bool.false_ne_true (hn.symm.trans h)
  cases hr : ((s.setEntry (c, .upgraded) e).touch (c, .upgraded)).running with
  | false =>
    refine h.frame rfl rfl fun j => ?_
    refine (hguards _ false rfl j).trans ?_
    by_cases hj : j = (c, .upgraded)
    · rw [if_pos hj, hj]
      simp [hfree]
    · rw [if_neg hj]
  | true =>
    refine h.register hfree rfl rfl fun j => ?_
    refine (hguards _ _ rfl j).trans ?_
    by_cases hj : j = (c, .upgraded)
    · simp [hj]
    · simp [hj]

theorem connections_dropGuard (role : Role) :
    (s.dropGuard c conn role conn').connections = s.connections.set c conn' := by
  rw [Loop.dropGuard]
  split <;> rfl

theorem finish (h : s.Listed) (hc : s.connections[c]? = some conn) : (s.finish c conn).Listed := by
  have hlt : c < s.connections.length := (List.getElem?_eq_some_iff.1 hc).1
  have hin := h.drop hc .upgraded { conn with upgradedGuard := false }
    (fun r hr => by cases r with | session => rfl | upgraded => exact absurd rfl hr) rfl
  refine hin.drop ?_ .session _
    (fun r hr => by cases r with | session => exact absurd rfl hr | upgraded => rfl) rfl
  rw [connections_dropGuard, List.getElem?_set_self hlt]

theorem close (h : s.Listed) (c : Nat) (timeout : Int) : (s.close c timeout).Listed := by
  rw [Loop.close]
  split
  · next conn hc => exact h.setConnection hc { conn with isOpen := false } fun _ => rfl
  · exact h

end Loop.Listed

end Hical.Idle
