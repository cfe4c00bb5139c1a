import Hical.Lib.History

namespace Hical.Server

/-- What happens to one connection of the registry. -/
inductive Event where
  | notified (closing : Bool)
  /-- The close callback is called. -/
  | closed
  /-- The drain callback is called. -/
  | drained
  /-- The registration lets go of the connection. -/
  | reset
  deriving DecidableEq, Repr

/-- `HttpConnectionRegistry::Control`. A callback is known by whether it is there; what it does comes
behind the step that calls it, since each function calls it last. -/
structure Control where
  close : Bool := true
  drain : Bool := false
  active : Bool := true
  closeRequested : Bool := false
  drainRequested : Bool := false
  drainDelivered : Bool := false
  /-- Not in the code. -/
  history : List Event := []

namespace Control

def record (k : Control) (e : Event) : Control := { k with history := k.history ++ [e] }

def deliverDrain (k : Control) : Control :=
  if k.active && !k.closeRequested && k.drainRequested && !k.drainDelivered && k.drain then
    { k with drainDelivered := true }.record .drained
  else k

def notify (k : Control) (closing : Bool) : Control :=
  let k := k.record (.notified closing)
  if !k.active || k.closeRequested then k
  else if closing then { k with closeRequested := true }.record .closed
  else { k with drainRequested := true }.deliverDrain

def setDrainHandler (k : Control) (callback : Bool) : Control :=
  { k with drain := callback }.deliverDrain

/-- `Registration::reset`, as far as it concerns the connection. -/
def deactivate (k : Control) : Control :=
  { k with active := false, close := false, drain := false }.record .reset

end Control

/-- `HttpConnectionRegistry` with its registrations. A connection is named by its number. -/
structure Registry where
  controls : List Control := []
  /-- `state_->controls`. -/
  members : List Nat := []
  /-- The `Registration` objects, each with its `control_`. -/
  registrations : List (Option Nat) := []
  /-- The notifications that were dispatched. -/
  pending : List (Nat × Bool) := []

namespace Registry

def edit (g : Registry) (c : Nat) (f : Control → Control) : Registry :=
  { g with controls := g.controls.modify c f }

/-- `add`, with a close callback that is there. -/
def add (g : Registry) : Registry :=
  { g with
    controls := g.controls ++ [{}]
    members := g.controls.length :: g.members
    registrations := g.registrations ++ [some g.controls.length] }

/-- `Registration::reset`. -/
def reset (g : Registry) (r : Nat) : Registry :=
  match g.registrations[r]? with
  | some (some c) =>
    { g.edit c Control.deactivate with
      members := g.members.filter (· ≠ c)
      registrations := g.registrations.set r none }
  | _ => g

def setDrainHandler (g : Registry) (r : Nat) (callback : Bool) : Registry :=
  match g.registrations[r]? with
  | some (some c) => g.edit c fun k => k.setDrainHandler callback
  | _ => g

/-- A `Registration` is constructed from another. -/
def move (g : Registry) (r : Nat) : Registry :=
  { g with registrations := g.registrations.set r none ++ [g.registrations[r]?.join] }

/-- A `Registration` is assigned from another. -/
def moveAssign (g : Registry) (r other : Nat) : Registry :=
  if r = other then g
  else
    let g := g.reset r
    { g with registrations := (g.registrations.set r g.registrations[other]?.join).set other none }

/-- The snapshot of `notify`, and what it dispatches. -/
def notify (g : Registry) (closing : Bool) : Registry :=
  { g with pending := g.pending ++ g.members.map fun c => (c, closing) }

def run (g : Registry) (n : Nat) : Registry :=
  match g.pending[n]? with
  | some (c, closing) => { g.edit c fun k => k.notify closing with pending := g.pending.eraseIdx n }
  | none => g

end Registry

/-- The operations on a registry; an `add` without a close callback throws. -/
inductive Op where
  | add (close : Bool)
  | setDrainHandler (r : Nat) (callback : Bool)
  | move (r : Nat)
  | moveAssign (r other : Nat)
  | reset (r : Nat)
  | requestDrain
  | requestClose
  | run (n : Nat)

def Registry.step (g : Registry) : Op → Registry
  | .add close => if close then g.add else g
  | .setDrainHandler r callback => g.setDrainHandler r callback
  | .move r => g.move r
  | .moveAssign r other => g.moveAssign r other
  | .reset r => g.reset r
  | .requestDrain => g.notify false
  | .requestClose => g.notify true
  | .run n => g.run n

/-- The registries that operations lead to. -/
inductive Registry.Reaches : Registry → Prop where
  | start : Reaches {}
  | step (h : Reaches g) (op : Op) : Reaches (g.step op)

end Hical.Server

namespace Hical.Server
open History

/-- What may happen to a connection behind what has happened: each callback is called once at most,
none behind the reset, and no drain behind a close. -/
def Orderly (before : List Event) : Event → Prop
  | .closed => .closed ∉ before ∧ .reset ∉ before
  | .drained => .drained ∉ before ∧ .reset ∉ before ∧ .closed ∉ before
  | _ => True

/-- The flags of a control tell what happened to it, and what it was asked to do is done. -/
structure Control.Ok (k : Control) : Prop where
  orderly : Allows Orderly k.history
  active : k.active = false ↔ .reset ∈ k.history
  closed : k.closeRequested = true ↔ .closed ∈ k.history
  drained : k.drainDelivered = true ↔ .drained ∈ k.history
  asked : .notified false ∈ k.history → k.active = true → k.closeRequested = false →
    k.drainRequested = true
  told : .notified true ∈ k.history → k.active = true → k.closeRequested = true
  served : k.active = true → k.closeRequested = false → k.drainRequested = true → k.drain = true →
    k.drainDelivered = true

namespace Control.Ok
variable {k : Control} {callback closing : Bool}

theorem fresh : (({} : Control)).Ok := by
  refine ⟨allows_nil, ?_, ?_, ?_, nofun, nofun, nofun⟩ <;> simp

/-- Everything but what `deliverDrain` sees to. -/
structure Due (k : Control) : Prop where
  orderly : Allows Orderly k.history
  active : k.active = false ↔ .reset ∈ k.history
  closed : k.closeRequested = true ↔ .closed ∈ k.history
  drained : k.drainDelivered = true ↔ .drained ∈ k.history
  asked : .notified false ∈ k.history → k.active = true → k.closeRequested = false →
    k.drainRequested = true
  told : .notified true ∈ k.history → k.active = true → k.closeRequested = true

theorem Due.deliverDrain (h : Due k) : k.deliverDrain.Ok := by
  rw [Control.deliverDrain]
  split
  · next hp =>
    simp only [Bool.and_eq_true, Bool.not_eq_true'] at hp
    obtain ⟨⟨⟨⟨ha, hc⟩, hr⟩, hd⟩, hcb⟩ := hp
    have hreset : Event.reset ∉ k.history := by
      rw [← h.active, ha]
      exact Bool.false_ne_true.symm
    have hclosed : Event.closed ∉ k.history := by
      rw [← h.closed, hc]
      exact Bool.false_ne_true
    have hdrained : Event.drained ∉ k.history := by
      rw [← h.drained, hd]
      exact Bool.false_ne_true
    refine ⟨allows_concat.2 ⟨h.orderly, hdrained, hreset, hclosed⟩, ?_, ?_, ?_, ?_, ?_, fun _ _ _ _ => rfl⟩
    · simpa [record] using h.active
    · simpa [record] using h.closed
    · simp [record]
    · simpa [record] using h.asked
    · simpa [record] using h.told
  · next hp =>
    refine ⟨h.orderly, h.active, h.closed, h.drained, h.asked, h.told, fun ha hc hr hcb => ?_⟩
    simpa [ha, hc, hr, hcb] using hp

theorem setDrainHandler (h : k.Ok) (callback : Bool) : (k.setDrainHandler callback).Ok :=
  Due.deliverDrain ⟨h.orderly, h.active, h.closed, h.drained, h.asked, h.told⟩

theorem notify (h : k.Ok) (closing : Bool) : (k.notify closing).Ok := by
  have hrec : Allows Orderly (k.record (.notified closing)).history :=
    allows_concat.2 ⟨h.orderly, trivial⟩
  have hactive : k.active = false ↔ .reset ∈ (k.record (.notified closing)).history := by
    simpa [record] using h.active
  have hclosed : k.closeRequested = true ↔ .closed ∈ (k.record (.notified closing)).history := by
    simpa [record] using h.closed
  have hdrained : k.drainDelivered = true ↔ .drained ∈ (k.record (.notified closing)).history := by
    simpa [record] using h.drained
  rw [Control.notify]
  split
  · next hp =>
    simp only [record, Bool.or_eq_true, Bool.not_eq_true'] at hp
    refine ⟨hrec, hactive, hclosed, hdrained, fun _ ha hc => ?_, fun _ ha => ?_, h.served⟩
    · exact absurd hp (by
        rintro (hp | hp)
        · exact Bool.noConfusion (ha.symm.trans hp)
        · exact Bool.noConfusion (hc.symm.trans hp))
    · exact hp.resolve_left fun hp => Bool.noConfusion (ha.symm.trans hp)
  · next hp =>
    simp only [record, Bool.or_eq_true, Bool.not_eq_true', not_or, Bool.not_eq_true,
      Bool.not_eq_false] at hp
    obtain ⟨ha, hc⟩ := hp
    cases closing with
    | true =>
      have hnr : Event.reset ∉ (k.record (.notified true)).history := by
        rw [← hactive, ha]
        exact Bool.false_ne_true.symm
      have hnc : Event.closed ∉ (k.record (.notified true)).history := by
        rw [← hclosed, hc]
        exact Bool.false_ne_true
      refine ⟨allows_concat.2 ⟨hrec, hnc, hnr⟩, ?_, ?_, ?_, ?_, fun _ _ => rfl, nofun⟩
      · simpa [record] using h.active
      · simp [record]
      · simpa [record] using h.drained
      · intro _ _ hfalse
        cases hfalse
    | false =>
      refine Due.deliverDrain ⟨hrec, hactive, hclosed, hdrained, fun _ _ _ => rfl, fun hmem => ?_⟩
      refine h.told ?_
      simpa [record] using hmem

theorem deactivate (h : k.Ok) : k.deactivate.Ok := by
  refine ⟨allows_concat.2 ⟨h.orderly, trivial⟩, ?_, ?_, ?_, nofun, nofun, nofun⟩
  · simp [Control.deactivate, record]
  · simpa [Control.deactivate, record] using h.closed
  · simpa [Control.deactivate, record] using h.drained

end Control.Ok

namespace Registry
variable {g : Registry}

/-- Every control tells its history. -/
def Ok (g : Registry) : Prop := ∀ k ∈ g.controls, k.Ok

theorem Ok.edit (h : g.Ok) (c : Nat) {f : Control → Control} (hf : ∀ k : Control, k.Ok → (f k).Ok) :
    (g.edit c f).Ok := by
  intro k hk
  rw [Registry.edit] at hk
  obtain ⟨i, hi⟩ := List.mem_iff_getElem?.1 hk
  rw [List.getElem?_modify] at hi
  obtain ⟨k', hk', rfl⟩ := Option.map_eq_some_iff.1 hi
  have hok := h k' (List.mem_of_getElem? hk')
  split
  · exact hf k' hok
  · exact hok

theorem Ok.reset (h : g.Ok) (r : Nat) : (g.reset r).Ok := by
  rw [Registry.reset]
  split
  · exact h.edit _ fun k hk => hk.deactivate
  · exact h

theorem Ok.step (h : g.Ok) (op : Op) : (g.step op).Ok := by
  cases op with
  | add close =>
    rw [Registry.step]
    split
    · intro k hk
      rcases List.mem_append.1 hk with hk | hk
      · exact h k hk
      · rw [List.mem_singleton.1 hk]
        exact Control.Ok.fresh
    · exact h
  | setDrainHandler r callback =>
    rw [Registry.step, Registry.setDrainHandler]
    split
    · exact h.edit _ fun k hk => hk.setDrainHandler callback
    · exact h
  | move r => exact h
  | moveAssign r other =>
    rw [Registry.step, Registry.moveAssign]
    split
    · exact h
    · exact h.reset r
  | reset r => exact h.reset r
  | requestDrain => exact h
  | requestClose => exact h
  | run n =>
    rw [Registry.step, Registry.run]
    split
    · exact h.edit _ fun k hk => hk.notify _
    · exact h

theorem Reaches.ok (h : Reaches g) : g.Ok := by
  induction h with
  | start => exact fun k hk => absurd hk List.not_mem_nil
  | step _ op ih => exact ih.step op

end Registry

/-- What one connection of a registry is told: each callback once at most, none behind the reset, no
drain behind a close; and a drain that was notified while the connection could be drained is delivered
wherever there is a handler. -/
structure Control.Delivered (k : Control) : Prop where
  once : k.history.count .closed ≤ 1 ∧ k.history.count .drained ≤ 1
  orderly : Allows Orderly k.history
  kept : .notified false ∈ k.history → .reset ∉ k.history → .closed ∉ k.history → k.drain = true →
    .drained ∈ k.history
  told : .notified true ∈ k.history → .reset ∉ k.history → .closed ∈ k.history

theorem Control.Ok.delivered {k : Control} (h : k.Ok) : k.Delivered := by
  have hactive : Event.reset ∉ k.history → k.active = true := by
    rw [← h.active]
    exact eq_true_of_ne_false
  refine ⟨⟨?_, ?_⟩, h.orderly, ?_, ?_⟩
  · exact h.orderly.count_le_one fun _ hp => hp.1
  · exact h.orderly.count_le_one fun _ hp => hp.1
  · intro hmem hreset hclosed hdrain
    have hc : k.closeRequested = false := by
      rw [← h.closed] at hclosed
      exact eq_false_of_ne_true hclosed
    have ha := hactive hreset
    exact h.drained.1 (h.served ha hc (h.asked hmem ha hc) hdrain)
  · intro hmem hreset
    exact h.closed.1 (h.told hmem (hactive hreset))

end Hical.Server
