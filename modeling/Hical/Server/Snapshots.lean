import Hical.Server.Delivery
import Hical.Server.Reserved

namespace Hical.Server

/-- Where `handleSession` stands with a TLS connection, and its registration. Its re-checks read one
flag after the other. -/
inductive Session where
  | entered
  /-- `running_` was set. -/
  | admitted
  | registered (r : Nat)
  /-- The first re-check found `running_` set. -/
  | checking (r : Nat)
  | handshaking (r : Nat)
  | shaken (r : Nat)
  /-- The second re-check found `running_` set. -/
  | rechecking (r : Nat)
  /-- It found `draining_` not set. -/
  | asking (r : Nat)
  /-- The protocol is negotiated. -/
  | started (r : Nat)
  | serving (r : Nat)
  | ended
  deriving DecidableEq, Repr

def Session.registration : Session → Option Nat
  | registered r => some r
  | checking r => some r
  | handshaking r => some r
  | shaken r => some r
  | rechecking r => some r
  | asking r => some r
  | started r => some r
  | serving r => some r
  | _ => none

/-- Where a call of `stop` or `gracefulStop` stands. -/
inductive Caller where
  /-- Behind the exchange of `running_`. -/
  | stopping
  | closing
  /-- Behind the check of `running_`. -/
  | gracing
  /-- `beginGracefulStopOnLoop` is posted. -/
  | posted
  /-- It found `running_` set. -/
  | beginning
  | done
  deriving DecidableEq, Repr

/-- `HttpServer` with its TLS connections. -/
structure HttpServer where
  registry : Registry := {}
  running : Bool := true
  draining : Bool := false
  sessions : List Session := []
  callers : List Caller := []
  /-- Not in the code: whom each `requestClose` and `requestDrain` notified. -/
  snapshots : List (List Nat) := []

namespace HttpServer

def setSession (s : HttpServer) (i : Nat) (session : Session) : HttpServer :=
  { s with sessions := s.sessions.set i session }

def setCaller (s : HttpServer) (j : Nat) (caller : Caller) : HttpServer :=
  { s with callers := s.callers.set j caller }

def endSession (s : HttpServer) (i r : Nat) : HttpServer :=
  { s with registry := s.registry.reset r }.setSession i .ended

/-- `Registration::draining`. -/
def drainRequested (s : HttpServer) (r : Nat) : Bool :=
  match s.registry.registrations[r]?.join with
  | some c => s.registry.controls[c]?.any Control.drainRequested
  | none => false

/-- A session takes its next step; `ok` tells how its handshake went, and whether HTTP/2 was
negotiated. -/
def advance (s : HttpServer) (i : Nat) (ok : Bool) : HttpServer :=
  match s.sessions[i]? with
  | some .entered => s.setSession i (if s.running then .admitted else .ended)
  | some .admitted =>
    { s with registry := s.registry.add }.setSession i (.registered s.registry.registrations.length)
  | some (.registered r) => if s.running then s.setSession i (.checking r) else s.endSession i r
  | some (.checking r) => if s.draining then s.endSession i r else s.setSession i (.handshaking r)
  | some (.handshaking r) => if ok then s.setSession i (.shaken r) else s.endSession i r
  | some (.shaken r) => if s.running then s.setSession i (.rechecking r) else s.endSession i r
  | some (.rechecking r) => if s.draining then s.endSession i r else s.setSession i (.asking r)
  | some (.asking r) =>
    if s.drainRequested r then s.endSession i r else s.setSession i (.started r)
  | some (.started r) =>
    if ok then { s with registry := s.registry.setDrainHandler r true }.setSession i (.serving r)
    else s.setSession i (.serving r)
  | some (.serving r) => s.endSession i r
  | _ => s

def notify (s : HttpServer) (closing : Bool) : HttpServer :=
  { s with
    registry := s.registry.notify closing
    snapshots := s.snapshots ++ [s.registry.members] }

/-- A call of `stop` or `gracefulStop` takes its next step. -/
def proceed (s : HttpServer) (j : Nat) : HttpServer :=
  match s.callers[j]? with
  | some .stopping => { s with draining := true }.setCaller j .closing
  | some .closing => (s.notify true).setCaller j .done
  | some .gracing =>
    if s.draining then s.setCaller j .done else { s with draining := true }.setCaller j .posted
  | some .posted => s.setCaller j (if s.running then .beginning else .done)
  | some .beginning => (s.notify false).setCaller j .done
  | _ => s

inductive Label where
  | accept
  | session (i : Nat) (ok : Bool)
  | stop
  | gracefulStop
  | caller (j : Nat)
  /-- A dispatched notification runs. -/
  | run (n : Nat)

def step (s : HttpServer) : Label → HttpServer
  | .accept => { s with sessions := s.sessions ++ [.entered] }
  | .session i ok => s.advance i ok
  | .stop =>
    if s.running then { s with running := false, callers := s.callers ++ [.stopping] } else s
  | .gracefulStop => if s.running then { s with callers := s.callers ++ [.gracing] } else s
  | .caller j => s.proceed j
  | .run n => { s with registry := s.registry.run n }

/-- The states of a server. -/
inductive Reaches : HttpServer → Prop where
  | start : Reaches {}
  | step (h : Reaches s) (label : Label) : Reaches (s.step label)

end HttpServer

namespace Registry
variable {g g' : Registry} {r r' : Nat}

/-- The registration holds its connection, which the registry has. -/
def Live (g : Registry) (r : Nat) : Prop := g.registrations[r]? = some (some r) ∧ r ∈ g.members

def Aligned (g : Registry) : Prop := g.registrations.length = g.controls.length

theorem Live.lt (h : g.Live r) : r < g.registrations.length := (List.getElem?_eq_some_iff.1 h.1).1

theorem live_add (h : g.Live r) : g.add.Live r :=
  ⟨(List.getElem?_append_left h.lt).trans h.1, List.mem_cons_of_mem _ h.2⟩

theorem live_add_self (h : g.Aligned) : g.add.Live g.registrations.length := by
  refine ⟨?_, ?_⟩
  · change (g.registrations ++ [some g.controls.length])[g.registrations.length]? = _
    rw [List.getElem?_append_right (Nat.le_refl _), Nat.sub_self, h]
    rfl
  · change g.registrations.length ∈ g.controls.length :: g.members
    rw [h]
    exact List.mem_cons_self

theorem aligned_add (h : g.Aligned) : g.add.Aligned := by
  change (g.registrations ++ [_]).length = (g.controls ++ [_]).length
  rw [List.length_append, List.length_append, h]
  rfl

theorem reset_eq (h : g.Live r) : g.reset r =
    { g.edit r Control.deactivate with
      members := g.members.filter (· ≠ r)
      registrations := g.registrations.set r none } := by
  rw [reset, h.1]

theorem live_reset (h : g.Live r) (h' : g.Live r') (hne : r' ≠ r) : (g.reset r).Live r' := by
  rw [reset_eq h]
  refine ⟨(List.getElem?_set_ne hne.symm).trans h'.1, ?_⟩
  exact List.mem_filter.2 ⟨h'.2, decide_eq_true hne⟩

theorem aligned_reset (h : g.Aligned) (hr : g.Live r) : (g.reset r).Aligned := by
  rw [reset_eq hr]
  change (g.registrations.set r none).length = (g.controls.modify r _).length
  rw [List.length_set, List.length_modify, h]

/-- A change of the controls alone. -/
structure Same (g g' : Registry) : Prop where
  registrations : g'.registrations = g.registrations
  members : g'.members = g.members
  length : g'.controls.length = g.controls.length

theorem Same.live (h : Same g g') (hr : g.Live r) : g'.Live r :=
  ⟨h.registrations ▸ hr.1, h.members ▸ hr.2⟩

theorem Same.aligned (h : Same g g') (ha : g.Aligned) : g'.Aligned := by
  rw [Aligned, h.registrations, h.length]
  exact ha

theorem same_edit (g : Registry) (c : Nat) (f : Control → Control) : Same g (g.edit c f) :=
  ⟨rfl, rfl, List.length_modify ..⟩

theorem same_setDrainHandler (g : Registry) (r : Nat) (callback : Bool) :
    Same g (g.setDrainHandler r callback) := by
  rw [setDrainHandler]
  split
  · exact same_edit ..
  · exact ⟨rfl, rfl, rfl⟩

theorem same_run (g : Registry) (n : Nat) : Same g (g.run n) := by
  rw [run]
  split
  · exact ⟨rfl, rfl, List.length_modify ..⟩
  · exact ⟨rfl, rfl, rfl⟩

end Registry

/-- The first re-check of the session is not over. -/
def Session.early : Session → Bool
  | registered _ => true
  | checking _ => true
  | _ => false

/-- The call has set `draining_`, and a broadcast of it is to come. -/
def Caller.drains : Caller → Bool
  | closing => true
  | posted => true
  | beginning => true
  | _ => false

/-- The sessions have registrations of their own, broadcasts come behind `draining_`, and a session
behind its first re-check was notified by all of them. -/
structure HttpServer.Inv (s : HttpServer) : Prop where
  aligned : s.registry.Aligned
  live : ∀ (i : Nat) a r, s.sessions[i]? = some a → a.registration = some r → s.registry.Live r
  apart : ∀ (i j : Nat) a b r, s.sessions[i]? = some a → s.sessions[j]? = some b →
    a.registration = some r → b.registration = some r → i = j
  drained : s.draining = false → s.snapshots = [] ∧ ∀ x ∈ s.callers, x.drains = false
  covered : ∀ (i : Nat) a r, s.sessions[i]? = some a → a.registration = some r → a.early = false →
    ∀ l ∈ s.snapshots, r ∈ l

namespace HttpServer.Inv
variable {s : HttpServer} {g : Registry} {i j r : Nat} {a b : Session}

theorem sessions_set (hi : s.sessions[i]? = some a) {k : Nat} {x : Session}
    (hk : (s.sessions.set i b)[k]? = some x) : k = i ∧ x = b ∨ k ≠ i ∧ s.sessions[k]? = some x := by
  by_cases hki : k = i
  · subst hki
    rw [List.getElem?_set_self (List.getElem?_eq_some_iff.1 hi).1] at hk
    exact .inl ⟨rfl, (Option.some.inj hk).symm⟩
  · rw [List.getElem?_set_ne (Ne.symm hki)] at hk
    exact .inr ⟨hki, hk⟩

theorem goOn (h : s.Inv) (hi : s.sessions[i]? = some a) (hg : Registry.Same s.registry g)
    (hreg : b.registration = a.registration)
    (hearly : b.early = false → a.early = false ∨ s.snapshots = []) :
    ({ s with registry := g }.setSession i b).Inv := by
  refine ⟨hg.aligned h.aligned, ?_, ?_, h.drained, ?_⟩
  · intro k x r hk hr
    obtain ⟨rfl, rfl⟩ | ⟨-, hk'⟩ := sessions_set hi hk
    · exact hg.live (h.live k a r hi (hreg ▸ hr))
    · exact hg.live (h.live k x r hk' hr)
  · intro k l x y r hk hl hx hy
    obtain ⟨rfl, rfl⟩ | ⟨-, hk'⟩ := sessions_set hi hk
    · obtain ⟨rfl, rfl⟩ | ⟨-, hl'⟩ := sessions_set hi hl
      · rfl
      · exact h.apart k l a y r hi hl' (hreg ▸ hx) hy
    · obtain ⟨rfl, rfl⟩ | ⟨-, hl'⟩ := sessions_set hi hl
      · exact h.apart k l x a r hk' hi hx (hreg ▸ hy)
      · exact h.apart k l x y r hk' hl' hx hy
  · intro k x r hk hr he l hl
    obtain ⟨rfl, rfl⟩ | ⟨-, hk'⟩ := sessions_set hi hk
    · rcases hearly he with ha | hnil
      · exact h.covered k a r hi (hreg ▸ hr) ha l hl
      · change l ∈ s.snapshots at hl
        rw [hnil] at hl
        cases hl
    · exact h.covered k x r hk' hr he l hl

theorem goOn_alone (h : s.Inv) (hi : s.sessions[i]? = some a) (hreg : b.registration = a.registration)
    (hearly : b.early = false → a.early = false ∨ s.snapshots = []) : (s.setSession i b).Inv :=
  h.goOn hi (g := s.registry) ⟨rfl, rfl, rfl⟩ hreg hearly

theorem endSession (h : s.Inv) (hi : s.sessions[i]? = some a) (hr : a.registration = some r) :
    (s.endSession i r).Inv := by
  have hlive := h.live i a r hi hr
  refine ⟨Registry.aligned_reset h.aligned hlive, ?_, ?_, h.drained, ?_⟩
  · intro k x r' hk hr'
    obtain ⟨rfl, rfl⟩ | ⟨hki, hk'⟩ := sessions_set hi hk
    · cases hr'
    · refine Registry.live_reset hlive (h.live k x r' hk' hr') ?_
      rintro rfl
      exact hki (h.apart k i x a r' hk' hi hr' hr)
  · intro k l x y r' hk hl hx hy
    obtain ⟨rfl, rfl⟩ | ⟨-, hk'⟩ := sessions_set hi hk
    · cases hx
    · obtain ⟨rfl, rfl⟩ | ⟨-, hl'⟩ := sessions_set hi hl
      · cases hy
      · exact h.apart k l x y r' hk' hl' hx hy
  · intro k x r' hk hr' he l hl
    obtain ⟨rfl, rfl⟩ | ⟨-, hk'⟩ := sessions_set hi hk
    · cases hr'
    · exact h.covered k x r' hk' hr' he l hl

theorem register (h : s.Inv) (hi : s.sessions[i]? = some .admitted) :
    ({ s with registry := s.registry.add }.setSession i
      (.registered s.registry.registrations.length)).Inv := by
  have hfresh : ∀ (k : Nat) x, s.sessions[k]? = some x →
      x.registration ≠ some s.registry.registrations.length := by
    intro k x hk hx
    exact absurd (h.live k x _ hk hx).lt (Nat.lt_irrefl _)
  refine ⟨Registry.aligned_add h.aligned, ?_, ?_, h.drained, ?_⟩
  · intro k x r hk hr
    obtain ⟨rfl, rfl⟩ | ⟨-, hk'⟩ := sessions_set hi hk
    · cases hr
      exact Registry.live_add_self h.aligned
    · exact Registry.live_add (h.live k x r hk' hr)
  · intro k l x y r hk hl hx hy
    obtain ⟨rfl, rfl⟩ | ⟨-, hk'⟩ := sessions_set hi hk
    · obtain ⟨rfl, rfl⟩ | ⟨-, hl'⟩ := sessions_set hi hl
      · rfl
      · cases hx
        exact absurd hy (hfresh l y hl')
    · obtain ⟨rfl, rfl⟩ | ⟨-, hl'⟩ := sessions_set hi hl
      · cases hy
        exact absurd hx (hfresh k x hk')
      · exact h.apart k l x y r hk' hl' hx hy
  · intro k x r hk hr he l hl
    obtain ⟨rfl, rfl⟩ | ⟨-, hk'⟩ := sessions_set hi hk
    · cases he
    · exact h.covered k x r hk' hr he l hl

theorem advance (h : s.Inv) (i : Nat) (ok : Bool) : (s.advance i ok).Inv := by
  rw [HttpServer.advance]
  split
  · next hi =>
    split
    · exact h.goOn_alone hi rfl fun _ => .inl rfl
    · exact h.goOn_alone hi rfl fun _ => .inl rfl
  · next hi => exact h.register hi
  · next r hi =>
    split
    · exact h.goOn_alone hi rfl nofun
    · exact h.endSession hi rfl
  · next r hi =>
    split
    · exact h.endSession hi rfl
    · next hd => exact h.goOn_alone hi rfl fun _ => .inr (h.drained (eq_false_of_ne_true hd)).1
  · next r hi =>
    split
    · exact h.goOn_alone hi rfl fun _ => .inl rfl
    · exact h.endSession hi rfl
  · next r hi =>
    split
    · exact h.goOn_alone hi rfl fun _ => .inl rfl
    · exact h.endSession hi rfl
  · next r hi =>
    split
    · exact h.endSession hi rfl
    · exact h.goOn_alone hi rfl fun _ => .inl rfl
  · next r hi =>
    split
    · exact h.endSession hi rfl
    · exact h.goOn_alone hi rfl fun _ => .inl rfl
  · next r hi =>
    split
    · exact h.goOn hi (Registry.same_setDrainHandler ..) rfl fun _ => .inl rfl
    · exact h.goOn_alone hi rfl fun _ => .inl rfl
  · next r hi => exact h.endSession hi rfl
  · exact h

theorem notify (h : s.Inv) (hd : s.draining = true) (closing : Bool) : (s.notify closing).Inv := by
  refine ⟨h.aligned, h.live, h.apart, fun hf => ?_, ?_⟩
  · exact Bool.noConfusion (hd.symm.trans hf)
  · intro k x r hk hr he l hl
    rcases List.mem_append.1 hl with hl | hl
    · exact h.covered k x r hk hr he l hl
    · rw [List.mem_singleton.1 hl]
      exact (h.live k x r hk hr).2

theorem setCaller (h : s.Inv) (j : Nat) (x : Caller) (hx : x.drains = true → s.draining = true) :
    (s.setCaller j x).Inv := by
  refine ⟨h.aligned, h.live, h.apart, fun hf => ⟨(h.drained hf).1, fun y hy => ?_⟩, h.covered⟩
  rcases List.mem_or_eq_of_mem_set hy with hy | rfl
  · exact (h.drained hf).2 y hy
  · cases hb : y.drains with
    | false => rfl
    | true => exact Bool.noConfusion ((hx hb).symm.trans hf)

theorem setDraining (h : s.Inv) : ({ s with draining := true }).Inv :=
  ⟨h.aligned, h.live, h.apart, nofun, h.covered⟩

theorem draining_of (h : s.Inv) {x : Caller} (hj : s.callers[j]? = some x) (hx : x.drains = true) :
    s.draining = true := by
  cases hd : s.draining with
  | true => rfl
  | false =>
    have := (h.drained hd).2 x (List.mem_of_getElem? hj)
    exact Bool.noConfusion (hx.symm.trans this)

theorem proceed (h : s.Inv) (j : Nat) : (s.proceed j).Inv := by
  rw [HttpServer.proceed]
  split
  · exact h.setDraining.setCaller j .closing fun _ => rfl
  · next hj => exact (h.notify (h.draining_of hj rfl) true).setCaller j .done nofun
  · split
    · exact h.setCaller j .done nofun
    · exact h.setDraining.setCaller j .posted fun _ => rfl
  · next hj =>
    refine h.setCaller j _ ?_
    split
    · exact fun _ => h.draining_of hj rfl
    · nofun
  · next hj => exact (h.notify (h.draining_of hj rfl) false).setCaller j .done nofun
  · exact h

theorem call (h : s.Inv) (running : Bool) (x : Caller) (hx : x.drains = false) :
    ({ s with running := running, callers := s.callers ++ [x] }).Inv := by
  refine ⟨h.aligned, h.live, h.apart, fun hf => ⟨(h.drained hf).1, fun y hy => ?_⟩, h.covered⟩
  rcases List.mem_append.1 hy with hy | hy
  · exact (h.drained hf).2 y hy
  · rw [List.mem_singleton.1 hy]
    exact hx

theorem accept (h : s.Inv) : ({ s with sessions := s.sessions ++ [Session.entered] }).Inv := by
  have hold : ∀ {k : Nat} {x : Session} {r : Nat}, (s.sessions ++ [Session.entered])[k]? = some x →
      x.registration = some r → s.sessions[k]? = some x := by
    intro k x r hk hr
    rw [List.getElem?_append] at hk
    split at hk
    · exact hk
    · rw [List.mem_singleton.1 (List.mem_of_getElem? hk)] at hr
      cases hr
  exact ⟨h.aligned, fun k x r hk hr => h.live k x r (hold hk hr) hr,
    fun k l x y r hk hl hx hy => h.apart k l x y r (hold hk hx) (hold hl hy) hx hy, h.drained,
    fun k x r hk hr => h.covered k x r (hold hk hr) hr⟩

theorem step (h : s.Inv) (label : Label) : (s.step label).Inv := by
  cases label with
  | accept => exact h.accept
  | session i ok => exact h.advance i ok
  | stop =>
    rw [HttpServer.step]
    split
    · exact h.call false .stopping rfl
    · exact h
  | gracefulStop =>
    rw [HttpServer.step]
    split
    · exact h.call s.running .gracing rfl
    · exact h
  | caller j => exact h.proceed j
  | run n =>
    have hsame := Registry.same_run s.registry n
    exact ⟨hsame.aligned h.aligned, fun k x r hk hr => hsame.live (h.live k x r hk hr), h.apart,
      h.drained, h.covered⟩

theorem start : (({} : HttpServer)).Inv :=
  ⟨rfl, nofun, nofun, fun _ => ⟨rfl, nofun⟩, nofun⟩

theorem reaches (h : HttpServer.Reaches s) : s.Inv := by
  induction h with
  | start => exact start
  | step _ label ih => exact ih.step label

end HttpServer.Inv

namespace HttpServer
variable {s : HttpServer} {i r : Nat} {a : Session}

theorem registry_reaches (h : HttpServer.Reaches s) : s.registry.Reaches := by
  have hend : ∀ {s : HttpServer} {i r : Nat}, s.registry.Reaches →
      (s.endSession i r).registry.Reaches := fun hs => hs.step (.reset _)
  induction h with
  | start => exact .start
  | @step s _ label ih =>
    cases label with
    | accept => exact ih
    | session i ok =>
      rw [HttpServer.step, HttpServer.advance]
      split
      · exact ih
      · exact ih.step (.add true)
      · split
        · exact ih
        · exact hend ih
      · split
        · exact hend ih
        · exact ih
      · split
        · exact ih
        · exact hend ih
      · split
        · exact ih
        · exact hend ih
      · split
        · exact hend ih
        · exact ih
      · split
        · exact hend ih
        · exact ih
      · next r _ =>
        split
        · exact ih.step (.setDrainHandler r true)
        · exact ih
      · exact hend ih
      · exact ih
    | stop | gracefulStop =>
      rw [HttpServer.step]
      split <;> exact ih
    | caller j =>
      rw [HttpServer.step, HttpServer.proceed]
      split
      · exact ih
      · exact ih.step .requestClose
      · split <;> exact ih
      · exact ih
      · exact ih.step .requestDrain
      · exact ih
    | run n => exact ih.step (.run n)

/-- With `draining_` set, a session that is not behind its first re-check ends. -/
theorem ends_of_draining (hd : s.draining = true) (hi : s.sessions[i]? = some a)
    (ha : a = .registered r ∨ a = .checking r) (ok ok' : Bool) :
    ((s.advance i ok).advance i ok').sessions[i]? = some .ended := by
  have hlt : i < s.sessions.length := (List.getElem?_eq_some_iff.1 hi).1
  have hstay : ∀ {t : HttpServer} {ok : Bool}, t.sessions[i]? = some .ended →
      (t.advance i ok).sessions[i]? = some .ended := by
    intro t ok ht
    rw [HttpServer.advance, ht]
    exact ht
  have hended : ∀ {t : HttpServer} {r : Nat}, i < t.sessions.length →
      (t.endSession i r).sessions[i]? = some .ended := fun ht => List.getElem?_set_self ht
  have hchecking : ∀ {t : HttpServer} {ok : Bool}, t.draining = true →
      t.sessions[i]? = some (.checking r) → (t.advance i ok).sessions[i]? = some .ended := by
    intro t ok htd ht
    rw [HttpServer.advance, ht]
    dsimp only
    rw [htd, if_pos rfl]
    exact hended (List.getElem?_eq_some_iff.1 ht).1
  rcases ha with rfl | rfl
  · cases hrun : s.running with
    | true =>
      have hnext : s.advance i ok = s.setSession i (.checking r) := by
        rw [HttpServer.advance, hi]
        dsimp only
        rw [hrun, if_pos rfl]
      rw [hnext]
      exact hchecking hd (List.getElem?_set_self hlt)
    | false =>
      have hnext : s.advance i ok = s.endSession i r := by
        rw [HttpServer.advance, hi]
        dsimp only
        rw [hrun, if_neg Bool.false_ne_true]
      rw [hnext]
      exact hstay (hended hlt)
  · exact hstay (hchecking hd hi)

end HttpServer

/-- Every callback of a registry is delivered once at most and in order, a drain waits for its handler,
and no session of a server slips between a broadcast and the flag that was set before it. -/
theorem registry_delivers :
    (∀ g, Registry.Reaches g → ∀ k ∈ g.controls, k.Delivered) ∧
    ∀ s, HttpServer.Reaches s → s.registry.Reaches ∧
      ∀ l ∈ s.snapshots, ∀ (i : Nat) a r, s.sessions[i]? = some a → a.registration = some r →
        s.registry.registrations[r]? = some (some r) ∧
        (r ∈ l ∨ (a = .registered r ∨ a = .checking r) ∧
          ∀ ok ok', ((s.advance i ok).advance i ok').sessions[i]? = some .ended) := by
  refine ⟨fun g hg k hk => (hg.ok k hk).delivered, fun s hs => ⟨HttpServer.registry_reaches hs, ?_⟩⟩
  intro l hl i a r hi hr
  have hinv := HttpServer.Inv.reaches hs
  refine ⟨(hinv.live i a r hi hr).1, ?_⟩
  cases he : a.early with
  | false => exact .inl (hinv.covered i a r hi hr he l hl)
  | true =>
    have hstage : a = .registered r ∨ a = .checking r := by
      cases a <;> cases he <;> cases hr
      · exact .inl rfl
      · exact .inr rfl
    have hd : s.draining = true := by
      cases hd : s.draining with
      | true => rfl
      | false =>
        rw [(hinv.drained hd).1] at hl
        cases hl
    exact .inr ⟨hstage, HttpServer.ends_of_draining hd hi hstage⟩

section Limit
open Ledger
variable {l l' : Limit.HttpServer} {s : HttpServer} {a b : Limit.Caller} {x y : Caller} {j : Nat}

/-- Where a call under way at the server that counts its connections is here. -/
def stageOf : Limit.Caller → Option Caller
  | .stopped => some .stopping
  | .draining => some .gracing
  | .posted => some .posted
  | .beginning => some .beginning
  | _ => none

def tally (c : Caller) (a : Limit.Caller) : Nat := if stageOf a = some c then 1 else 0

def mark (c x : Caller) : Nat := if x = c then 1 else 0

/-- A server with TLS connections whose flags are those of `l`, and which has the calls of `l`. -/
structure Shadows (l : Limit.HttpServer) (s : HttpServer) : Prop where
  reaches : s.Reaches
  running : s.running = l.running
  draining : s.draining = l.draining
  callers : ∀ c, total (tally c) l.callers ≤ total (mark c) s.callers

namespace Shadows

theorem start (maxConnections loops acceptors : Nat) :
    Shadows (.start maxConnections loops acceptors) {} :=
  ⟨.start, rfl, rfl, fun _ => Nat.le_refl _⟩

theorem frame (h : Shadows l s) (hr : l'.running = l.running) (hd : l'.draining = l.draining)
    (hc : l'.callers = l.callers) : Shadows l' s :=
  ⟨h.reaches, hr ▸ h.running, hd ▸ h.draining, hc ▸ h.callers⟩

theorem call (h : Shadows l s) (ha : stageOf a = none) : Shadows (l.call a) s := by
  refine ⟨h.reaches, h.running, h.draining, fun c => ?_⟩
  change total (tally c) (l.callers ++ [a]) ≤ _
  rw [total_append, total_cons, total_nil, tally, ha, if_neg nofun]
  exact h.callers c

/-- A call that is over at the one server stays where it is at the other. -/
theorem quiet (h : Shadows l s) (hj : l.callers[j]? = some a) (hb : stageOf b = none) :
    Shadows (l.setCaller j b) s := by
  refine ⟨h.reaches, h.running, h.draining, fun c => ?_⟩
  have hset := total_set (f := tally c) hj b
  have hzero : tally c b = 0 := if_neg (hb ▸ nofun)
  have hle := h.callers c
  change total (tally c) (l.callers.set j b) ≤ _
  omega

theorem enters (h : Shadows l s) (hj : l.callers[j]? = some a) (ha : stageOf a = none)
    (hb : stageOf b = some x) (c : Caller) :
    total (tally c) (l.callers.set j b) ≤ total (mark c) (s.callers ++ [x]) := by
  have hset := total_set (f := tally c) hj b
  have hle := h.callers c
  have hnone : tally c a = 0 := if_neg (ha ▸ nofun)
  have hsame : tally c b = mark c x := by
    rw [tally, mark, hb]
    exact if_congr Option.some_inj rfl rfl
  rw [total_append, total_cons, total_nil]
  omega

/-- A call that is under way at the one server goes on at the other. -/
theorem moves (h : Shadows l s) (hj : l.callers[j]? = some a) (ha : stageOf a = some x)
    (hb : ∀ c, stageOf b = some c → y = c) :
    ∃ k : Nat, s.callers[k]? = some x ∧
      ∀ c, total (tally c) (l.callers.set j b) ≤ total (mark c) (s.callers.set k y) := by
  have hone : tally x a = 1 := if_pos ha
  have hheld := (le_total (f := tally x) hj).trans (h.callers x)
  obtain ⟨z, hz, hpos⟩ := exists_of_total_pos (f := mark x) (l := s.callers) (by omega)
  have hzx : z = x := by
    by_contra hne
    rw [mark, if_neg hne] at hpos
    cases hpos
  obtain ⟨k, hk⟩ := List.getElem?_of_mem (hzx ▸ hz)
  refine ⟨k, hk, fun c => ?_⟩
  have hset := total_set (f := tally c) hj b
  have hset' := total_set (f := mark c) hk y
  have hsame : tally c a = mark c x := by
    rw [tally, mark, ha]
    exact if_congr Option.some_inj rfl rfl
  have hle : tally c b ≤ mark c y := by
    rw [tally, mark]
    split
    · next hc => rw [if_pos (hb c hc)]
    · exact Nat.zero_le _
  have hbefore := h.callers c
  omega

theorem advances (h : Shadows l s) (hj : l.callers[j]? = some a) (hl : l'.callers = l.callers.set j b)
    (ha : stageOf a = some x) (hb : ∀ c, stageOf b = some c → y = c)
    (hstep : ∀ k, s.callers[k]? = some x → (s.proceed k).running = l'.running ∧
      (s.proceed k).draining = l'.draining ∧ (s.proceed k).callers = s.callers.set k y) :
    ∃ s', Shadows l' s' := by
  obtain ⟨k, hk, hle⟩ := h.moves hj ha hb
  obtain ⟨hrunning, hdraining, hcallers⟩ := hstep k hk
  refine ⟨s.proceed k, .step h.reaches (.caller k), hrunning, hdraining, ?_⟩
  rw [hl, hcallers]
  exact hle

theorem proceed (h : Shadows l s) (j : Nat) : ∃ s', Shadows (l.proceed j) s' := by
  unfold Limit.HttpServer.proceed
  split
  · next hj =>
    split
    · next hrun =>
      refine ⟨s.step .stop, .step h.reaches .stop, ?_, ?_, fun c => ?_⟩
      all_goals rw [HttpServer.step, if_pos (h.running.trans hrun)]
      · rfl
      · exact h.draining
      · exact h.enters hj rfl rfl c
    · exact ⟨s, h.quiet hj rfl⟩
  · next hj =>
    refine h.advances (y := .closing) hj rfl rfl nofun fun k hk => ?_
    rw [HttpServer.proceed, hk]
    exact ⟨h.running, rfl, rfl⟩
  · next hj =>
    split
    · next hrun =>
      refine ⟨s.step .gracefulStop, .step h.reaches .gracefulStop, ?_, ?_, fun c => ?_⟩
      all_goals rw [HttpServer.step, if_pos (h.running.trans hrun)]
      · exact h.running
      · exact h.draining
      · exact h.enters hj rfl rfl c
    · exact ⟨s, h.quiet hj rfl⟩
  · next hj =>
    split
    · exact ⟨s, h.quiet hj rfl⟩
    · next hdrain =>
      refine h.advances hj rfl rfl (fun _ => Option.some.inj) fun k hk => ?_
      rw [HttpServer.proceed, hk]
      dsimp only
      rw [if_neg (h.draining ▸ hdrain)]
      exact ⟨h.running, rfl, rfl⟩
  · next hj =>
    split
    · next hrun =>
      refine h.advances hj rfl rfl (fun _ => Option.some.inj) fun k hk => ?_
      rw [HttpServer.proceed, hk]
      dsimp only
      rw [if_pos (h.running.trans hrun)]
      exact ⟨h.running, h.draining, rfl⟩
    · exact ⟨s, h.quiet hj rfl⟩
  · next hj =>
    refine h.advances (y := .done) hj rfl rfl (by split <;> exact nofun) fun k hk => ?_
    rw [HttpServer.proceed, hk]
    exact ⟨h.running, h.draining, rfl⟩
  · next hj => exact ⟨s, h.quiet hj rfl⟩
  · exact ⟨s, h⟩

theorem step (h : Shadows l s) (label : Limit.HttpServer.Label) : ∃ s', Shadows (l.step label) s' := by
  cases label with
  | accept i answer loop =>
    refine ⟨s, ?_⟩
    change Shadows (l.accept i answer loop) s
    unfold Limit.HttpServer.accept
    split
    · exact h.frame rfl rfl rfl
    · cases answer <;> exact h.frame rfl rfl rfl
    · exact h.frame rfl rfl rfl
    · exact h.frame rfl rfl rfl
    · exact h.frame rfl rfl rfl
    · split <;> exact h.frame rfl rfl rfl
    · exact h
  | move k =>
    refine ⟨s, ?_⟩
    change Shadows (l.move k) s
    unfold Limit.HttpServer.move
    split
    · exact h.frame rfl rfl rfl
    · exact h.frame rfl rfl rfl
    · exact h
  | destroy k =>
    refine ⟨s, ?_⟩
    change Shadows (l.destroy k) s
    unfold Limit.HttpServer.destroy
    split
    · exact h.frame rfl rfl rfl
    · exact h.frame rfl rfl rfl
    · exact h.frame rfl rfl rfl
    · split
      · exact (h.call rfl).frame rfl rfl rfl
      · exact h.frame rfl rfl rfl
    · exact h
  | stop => exact ⟨s, h.call rfl⟩
  | gracefulStop => exact ⟨s, h.call rfl⟩
  | caller j => exact h.proceed j

end Shadows

/-- Whatever `stop` and `gracefulStop` do beside the connections that are counted, they do beside the
registry. -/
theorem shadowed (maxConnections loops acceptors : Nat) (labels : List Limit.HttpServer.Label) :
    ∃ s, Shadows ((Limit.HttpServer.start maxConnections loops acceptors).run labels) s := by
  suffices hrun : ∀ l s, Shadows l s → ∃ s', Shadows (l.run labels) s' from hrun _ _ (.start ..)
  induction labels with
  | nil => exact fun l s h => ⟨s, h⟩
  | cons label labels ih =>
    intro l s h
    obtain ⟨s', h'⟩ := h.step label
    exact ih _ s' h'

end Limit

section Examples

def lateHandler : Registry :=
  ((((({} : Registry).step (.add true)).step .requestDrain).step (.run 0)).step
    (.setDrainHandler 0 true))

/-- A session is served, and another one registers behind the broadcast of `gracefulStop`. -/
def lateLabels : List HttpServer.Label :=
  .accept :: List.replicate 9 (.session 0 true) ++
    [.accept, .session 1 true, .gracefulStop, .caller 0, .caller 0, .caller 0, .session 1 true]

def lateSession : HttpServer :=
  lateLabels.foldl HttpServer.step {}

theorem HttpServer.Reaches.foldl (h : HttpServer.Reaches s) (labels : List HttpServer.Label) :
    HttpServer.Reaches (labels.foldl HttpServer.step s) := by
  induction labels generalizing s with
  | nil => exact h
  | cons label labels ih => exact ih (.step h label)

theorem registry_delivers_late :
    (∀ k ∈ lateHandler.controls, Event.drained ∈ k.history) ∧ lateSession.snapshots = [[0]] ∧
      lateSession.registry.registrations[1]? = some (some 1) ∧
      ((lateSession.advance 1 true).advance 1 true).sessions[1]? = some .ended := by
  constructor
  · have hreach : lateHandler.Reaches :=
      .step (.step (.step (.step .start (.add true)) .requestDrain) (.run 0)) (.setDrainHandler 0 true)
    intro k hk
    have hk' : k = ⟨true, true, true, false, true, true, [.notified false, .drained]⟩ :=
      List.mem_singleton.1 hk
    have hd := registry_delivers.1 lateHandler hreach k hk
    subst hk'
    exact hd.kept (by decide) (by decide) (by decide) rfl
  · have hsnapshots : lateSession.snapshots = [[0]] := by decide +kernel
    have hlate : lateSession.sessions[1]? = some (.registered 1) := by decide +kernel
    have hsession := (registry_delivers.2 lateSession (.foldl .start _)).2 [0]
      (hsnapshots ▸ List.mem_singleton_self _) 1 (.registered 1) 1 hlate rfl
    have hends := hsession.2.resolve_left (by decide)
    exact ⟨hsnapshots, hsession.1, hends.2 true true⟩

end Examples

end Hical.Server
