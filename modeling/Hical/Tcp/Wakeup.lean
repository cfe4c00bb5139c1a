import Hical.Tcp.Order

namespace Hical.Tcp
open Ledger Connection

/-- An entry that a file of a length below zero does not stand for. -/
def WriteEntry.Sound (e : WriteEntry) : Prop := 0 ≤ e.length

namespace Sender

/-- What a sender has counted and not pushed. -/
def bytes : Sender → Nat
  | added entry => entry.size
  | _ => 0

/-- A sender between its push and `tryStartWrite`. -/
def waking : Sender → Nat
  | pushed => 1
  | _ => 0

/-- A sender that found the connection connected and did not return. -/
def busy : Sender → Nat
  | checked _ | added _ | pushed => 1
  | _ => 0

def Sound : Sender → Prop
  | added entry => entry.Sound
  | _ => True

end Sender

namespace Loop

/-- What a loop took and did not subtract. -/
def bytes : Loop → Nat
  | popping batch | popped batch => batchBytes batch
  | holding entry | drained entry => entry.size
  | _ => 0

/-- A loop that still looks into the queue, or hands that on. -/
def waking : Loop → Nat
  | spawned | popping _ | popped _ | issuing _ | sending _ _ | emptied | rechecking | holding _
  | restarting | failed => 1
  | _ => 0

/-- A loop between taking a batch that is not empty and the end of its writes. -/
def writes : Loop → Nat
  | popping (_ :: _) | popped _ | issuing (_ :: _) | sending _ _ => 1
  | _ => 0

def closed : Loop → Nat
  | closing | draining | drained _ => 1
  | _ => 0

/-- The entries of a loop that it may still write or give back are sound, and it did not end by an
exception it does not handle. -/
def Sound : Loop → Prop
  | popping batch | popped batch | issuing batch => ∀ e ∈ batch, e.Sound
  | sending written left => ∀ e ∈ written ++ left, e.Sound
  | holding entry => entry.Sound
  | escaped _ _ => False
  | _ => True

theorem writes_le_owns (l : Loop) : l.writes ≤ l.owns := by
  cases l with
  | popping batch => cases batch <;> simp [writes, owns]
  | issuing left => cases left <;> simp [writes, owns]
  | _ => simp [writes, owns]

/-- A loop that owns the writing is awake, unless it closed the connection. -/
theorem owns_le {l : Loop} (h : l.Sound) : l.owns ≤ l.waking + l.closed := by
  cases l with
  | escaped written left => cases h
  | _ => simp [owns, waking, closed]

end Loop

/-- What holds of the runs that count sound entries only, but for the wake-up. -/
structure Steady (c : Connection) : Prop where
  owners : total Loop.owns c.loops = c.writing.toNat
  bytes : c.queuedBytes =
    total Sender.bytes c.senders + batchBytes c.writeQueue + total Loop.bytes c.loops
  small : c.queuedBytes < 2 ^ 64
  unwrapped : c.wrapped = false
  queue : ∀ e ∈ c.writeQueue, e.Sound
  senders : ∀ s ∈ c.senders, s.Sound
  loops : ∀ l ∈ c.loops, l.Sound
  /-- Before the connection is up nothing was started. -/
  early : c.state = .hConnecting → total Sender.busy c.senders = 0 ∧ c.loops = [] ∧
    c.writeQueue = []
  closed : c.state ≠ .hDisconnected → total Loop.closed c.loops = 0

/-- Somebody will look into a queue that is not empty. -/
structure Sane (c : Connection) : Prop extends Steady c where
  awake : c.state = .hConnected → c.writeQueue ≠ [] →
    0 < total Sender.waking c.senders + total Loop.waking c.loops

/-- The steps that the counting rests on: a sender counts an entry that no negative length gives,
and the sum stays in the range of `size_t`. -/
def countable (c : Connection) : Label → Bool
  | .sender i =>
    match c.senders[i]? with
    | some (.checked entry) => 0 ≤ entry.length && c.queuedBytes + entry.size < 2 ^ 64
    | _ => true
  | _ => true

/-- A run whose steps, from `c` on, are all countable. -/
def countableRun (c : Connection) : List Label → Bool
  | [] => true
  | label :: labels =>
    countable c label && match c.step label with
      | some c' => countableRun c' labels
      | none => true

variable {c c' : Connection} {l l' : Loop} {i : Nat}

/-- A loop moves on; all but its own place, the queue, the flag, the count and the state stay. -/
theorem Steady.move (h : Steady c) (hl : c.loops[i]? = some l)
    (hloops : c'.loops = c.loops.set i l') (hsenders : c'.senders = c.senders)
    (howns : l'.owns + c.writing.toNat = l.owns + c'.writing.toNat)
    (hbytes : c'.queuedBytes + batchBytes c.writeQueue + l.bytes =
      c.queuedBytes + batchBytes c'.writeQueue + l'.bytes)
    (hle : c'.queuedBytes ≤ c.queuedBytes) (hwrapped : c'.wrapped = c.wrapped)
    (hqueue : ∀ e ∈ c'.writeQueue, e.Sound) (hsound : l'.Sound)
    (hstate : c'.state = c.state ∨ c'.state = .hDisconnected)
    (hclosed : l'.closed ≤ l.closed ∨ c'.state = .hDisconnected) : Steady c' := by
  have hmem : l ∈ c.loops := List.mem_of_getElem? hl
  have ho := total_set (f := Loop.owns) hl l'
  have hb := total_set (f := Loop.bytes) hl l'
  have hc := total_set (f := Loop.closed) hl l'
  have hrun : c.state ≠ .hConnecting := fun he => by
    rw [(h.early he).2.1] at hmem
    cases hmem
  constructor
  case owners =>
    rw [hloops]
    have := h.owners
    omega
  case bytes =>
    rw [hloops, hsenders]
    have := h.bytes
    omega
  case small =>
    have := h.small
    omega
  case unwrapped => rw [hwrapped, h.unwrapped]
  case queue => exact hqueue
  case senders =>
    rw [hsenders]
    exact h.senders
  case loops =>
    intro x hx
    rw [hloops] at hx
    rcases mem_set_loop hx with hx | rfl
    · exact h.loops x hx
    · exact hsound
  case early =>
    intro he
    rcases hstate with hs | hs
    · exact absurd (hs ▸ he) hrun
    · rw [hs] at he
      cases he
  case closed =>
    intro hne
    rw [hloops]
    have hz := h.closed fun he => hne <| hstate.elim (fun hs => hs.trans he) fun hs => hs
    have := hclosed.resolve_right hne
    omega

theorem Steady.awake_of_writing (h : Steady c) (hw : c.writing = true)
    (hs : c.state = .hConnected) : 0 < total Loop.waking c.loops := by
  have hle : total Loop.owns c.loops ≤ total (fun l => l.waking + l.closed) c.loops :=
    total_le_of_mem fun l hl => Loop.owns_le (h.loops l hl)
  have hsum : total (fun l => l.waking + l.closed) c.loops =
      total Loop.waking c.loops + total Loop.closed c.loops := total_add ..
  have hz := h.closed (by rw [hs]; decide)
  have ho := h.owners
  rw [hw] at ho
  simp only [Bool.toNat_true] at ho
  omega

theorem Steady.tryStartWrite (h : Steady c) (hs : c.state ≠ .hConnecting) :
    Sane c.tryStartWrite := by
  unfold Connection.tryStartWrite
  split
  next hw =>
    refine { h with awake := fun he _ => ?_ }
    have := h.awake_of_writing hw he
    omega
  next hw =>
    have ho := h.owners
    rw [Bool.eq_false_iff.mpr hw] at ho
    refine { h with
      owners := ?_, bytes := ?_, loops := fun x hx => ?_, early := fun he => absurd he hs,
      closed := fun he => ?_, awake := fun _ _ => ?_ }
    · simp [ho, Loop.owns]
    · simp [h.bytes, Loop.bytes]
    · rcases List.mem_append.mp hx with hx | hx
      · exact h.loops x hx
      · rw [List.mem_singleton.mp hx]
        trivial
    · simp [h.closed he, Loop.closed]
    · rw [total_append, total_cons, Loop.waking]
      omega

theorem Sane.step_awake (h : Sane c) (hst : Steady c') (hl : c.loops[i]? = some l)
    (hloops : c'.loops = c.loops.set i l') (hsenders : c'.senders = c.senders)
    (hawake : c'.state = .hConnected → c'.writeQueue ≠ [] →
      l'.waking = 1 ∨ (l.waking = 0 ∧ c.state = .hConnected ∧ c.writeQueue ≠ [])) : Sane c' := by
  have hw := total_set (f := Loop.waking) hl l'
  have hle := le_total (f := Loop.waking) hl
  refine { hst with awake := fun he hne => ?_ }
  rw [hloops, hsenders]
  rcases hawake he hne with h1 | ⟨h0, hs, hq⟩
  · omega
  · have := h.awake hs hq
    omega

theorem batchBytes_append (a b : List WriteEntry) :
    batchBytes (a ++ b) = batchBytes a + batchBytes b := total_append a b

theorem batchBytes_cons (e : WriteEntry) (l : List WriteEntry) :
    batchBytes (e :: l) = e.size + batchBytes l := total_cons e l

/-- What a party holds is part of the count, so that it can be subtracted. -/
theorem Steady.fetchSub (h : Steady c) (hl : c.loops[i]? = some l) :
    c.fetchSub l.bytes = { c with queuedBytes := c.queuedBytes - l.bytes } ∧
      l.bytes ≤ c.queuedBytes := by
  have hle := le_total (f := Loop.bytes) hl
  have hb := h.bytes
  have hs := h.small
  have hle' : l.bytes ≤ c.queuedBytes := by omega
  refine ⟨?_, hle'⟩
  unfold Connection.fetchSub
  have hmod : l.bytes % 2 ^ 64 = l.bytes := Nat.mod_eq_of_lt (by omega)
  have hval : (c.queuedBytes + (2 ^ 64 - l.bytes)) % 2 ^ 64 = c.queuedBytes - l.bytes := by
    omega
  have hnot : ¬ c.queuedBytes < l.bytes := Nat.not_lt.mpr hle'
  rw [hmod, hval, decide_eq_false hnot, Bool.or_false]

theorem Steady.writing_of_owns (h : Steady c) (hl : c.loops[i]? = some l) (ho : l.owns = 1) :
    c.writing = true := by
  have hle := le_total (f := Loop.owns) hl
  rw [h.owners, ho] at hle
  cases hw : c.writing with
  | true => rfl
  | false => simp [hw] at hle

theorem Steady.running (h : Steady c) (hl : c.loops[i]? = some l) : c.state ≠ .hConnecting := by
  intro he
  rw [(h.early he).2.1] at hl
  cases hl

theorem Sane.goOn (h : Sane c) (hl : c.loops[i]? = some l) (l' : Loop) (writing : Bool)
    (howns : l'.owns + c.writing.toNat = l.owns + writing.toNat) (hbytes : l.bytes = l'.bytes)
    (hsound : l'.Sound) (hclosed : l'.closed = 0) (hw : l'.waking = 1) :
    Sane { c with loops := c.loops.set i l', writing } := by
  refine h.step_awake (h.toSteady.move hl rfl rfl howns ?_ (Nat.le_refl _) rfl h.queue hsound
    (.inl rfl) (.inl ?_)) hl rfl rfl fun _ _ => .inl hw
  · change c.queuedBytes + batchBytes c.writeQueue + l.bytes = _
    rw [hbytes]
  · rw [hclosed]
    exact Nat.zero_le _

theorem Sane.stepWrite (h : Sane c) (hl : c.loops[i]? = some (.sending written left))
    (hs : c.stepWrite i written left io = some c') : Sane c' := by
  have hsound : ∀ e ∈ written ++ left, e.Sound := h.loops _ (List.mem_of_getElem? hl)
  have hleft : ∀ e ∈ left, e.Sound := fun e he => hsound e (List.mem_append_right _ he)
  have hdone : ∀ bytes, Sane ((c.deliver bytes).setLoop i (.issuing left)) := by
    intro bytes
    have hgo := h.goOn hl (.issuing left) c.writing rfl rfl hleft rfl rfl
    unfold Connection.deliver
    split
    · exact hgo
    · exact { hgo with }
  cases io with
  | systemError =>
    cases hs
    have hgo := h.goOn hl .failed c.writing rfl rfl trivial rfl rfl
    exact { hgo with }
  | lengthError =>
    simp only [Connection.stepWrite] at hs
    split at hs
    next number length =>
      split at hs
      next hneg =>
        -- Sound entries leave no file of a negative length to be written.
        have hpos : 0 ≤ length := hsound _ List.mem_cons_self
        omega
      · cases hs
    · cases hs
  | done bytes =>
    simp only [Connection.stepWrite] at hs
    split at hs
    · split at hs
      · cases hs
        exact hdone _
      · cases hs
    · cases hs
      exact hdone _

theorem Sane.stepLoop (h : Sane c) (hl : c.loops[i]? = some l)
    (hs : c.stepLoop i io l = some c') : Sane c' := by
  have hsound := h.loops l (List.mem_of_getElem? hl)
  cases l with
  | spawned =>
    cases hs
    exact h.goOn hl (.popping []) c.writing rfl rfl (by simp [Loop.Sound]) rfl rfl
  | popping batch =>
    have hbatch : ∀ e ∈ batch, e.Sound := hsound
    simp only [Connection.stepLoop] at hs
    split at hs
    next entry queue hq =>
      cases hs
      have hentry : entry.Sound := h.queue entry (hq ▸ List.mem_cons_self)
      have hrest : ∀ e ∈ queue, e.Sound := fun e he => h.queue e (hq ▸ .tail _ he)
      have hall : ∀ e ∈ batch ++ [entry], e.Sound := fun e he => by
        rcases List.mem_append.mp he with he | he
        · exact hbatch e he
        · rw [List.mem_singleton.mp he]
          exact hentry
      generalize hl' : (if (batch ++ [entry]).length ≥ kMaxDrainBatch then
        Loop.popped (batch ++ [entry]) else .popping (batch ++ [entry])) = l'
      have hkind : l'.owns = 1 ∧ l'.bytes = batchBytes (batch ++ [entry]) ∧ l'.Sound ∧
          l'.closed = 0 ∧ l'.waking = 1 := by
        rw [← hl']
        split <;> exact ⟨rfl, rfl, hall, rfl, rfl⟩
      obtain ⟨h₁, h₂, h₃, h₄, h₅⟩ := hkind
      refine h.step_awake (h.toSteady.move hl rfl rfl (by rw [h₁]; rfl) ?_ (Nat.le_refl _) rfl
        hrest h₃ (.inl rfl) (.inl ?_)) hl rfl rfl fun _ _ => .inl h₅
      · rw [h₂, hq, batchBytes_append, batchBytes_cons, batchBytes_cons]
        change c.queuedBytes + _ + batchBytes batch = c.queuedBytes + batchBytes queue + _
        change _ = _ + (batchBytes batch + (entry.size + 0))
        omega
      · rw [h₄]
        exact Nat.zero_le _
    next hq =>
      cases hs
      split
      next he =>
        subst he
        exact h.goOn hl .emptied c.writing rfl rfl trivial rfl rfl
      · exact h.goOn hl (.popped batch) c.writing rfl rfl hbatch rfl rfl
  | popped batch =>
    cases hs
    have hbatch : ∀ e ∈ batch, e.Sound := hsound
    obtain ⟨hsub, hle⟩ := h.toSteady.fetchSub hl
    change Sane ((c.fetchSub (Loop.popped batch).bytes).setLoop i (.issuing batch))
    rw [hsub]
    refine h.step_awake (h.toSteady.move hl rfl rfl rfl ?_ (Nat.sub_le _ _) rfl h.queue hbatch
      (.inl rfl) (.inl (Nat.le_refl _))) hl rfl rfl fun _ _ => .inl rfl
    change c.queuedBytes - (Loop.popped batch).bytes + batchBytes c.writeQueue +
      (Loop.popped batch).bytes = c.queuedBytes + batchBytes c.writeQueue + 0
    omega
  | issuing left =>
    have hleft : ∀ e ∈ left, e.Sound := hsound
    cases left with
    | nil =>
      cases hs
      exact h.goOn hl (.popping []) c.writing rfl rfl (by simp [Loop.Sound]) rfl rfl
    | cons entry left =>
      cases hs
      have hsplit := nextWrite_append (entry :: left)
      have hall : ∀ e ∈ (nextWrite (entry :: left)).1 ++ (nextWrite (entry :: left)).2, e.Sound :=
        hsplit.symm ▸ hleft
      have hgo := h.goOn hl (.sending (nextWrite (entry :: left)).1 (nextWrite (entry :: left)).2)
        c.writing rfl rfl hall rfl rfl
      unfold Connection.hand
      split
      · exact hgo
      · exact { hgo with }
  | sending written left => exact h.stepWrite hl hs
  | emptied =>
    cases hs
    have hw := h.toSteady.writing_of_owns hl rfl
    exact h.goOn hl .rechecking false (by rw [hw]; rfl) rfl trivial rfl rfl
  | rechecking =>
    simp only [Connection.stepLoop] at hs
    split at hs
    next entry queue hq =>
      cases hs
      have hentry : entry.Sound := h.queue entry (hq ▸ List.mem_cons_self)
      have hrest : ∀ e ∈ queue, e.Sound := fun e he => h.queue e (hq ▸ .tail _ he)
      refine h.step_awake (h.toSteady.move hl rfl rfl rfl ?_ (Nat.le_refl _) rfl hrest hentry
        (.inl rfl) (.inl (Nat.le_refl _))) hl rfl rfl fun _ _ => .inl rfl
      rw [hq, batchBytes_cons]
      change c.queuedBytes + _ + 0 = c.queuedBytes + batchBytes queue + entry.size
      omega
    next hq =>
      cases hs
      refine h.step_awake (h.toSteady.move hl rfl rfl rfl rfl (Nat.le_refl _) rfl h.queue trivial
        (.inl rfl) (.inl (Nat.le_refl _))) hl rfl rfl fun _ hne => absurd hq hne
  | holding entry =>
    cases hs
    have hentry : entry.Sound := hsound
    refine h.step_awake (h.toSteady.move hl rfl rfl rfl ?_ (Nat.le_refl _) rfl (fun e he => ?_)
      trivial (.inl rfl) (.inl (Nat.le_refl _))) hl rfl rfl fun _ _ => .inl rfl
    · change c.queuedBytes + batchBytes c.writeQueue + entry.size =
        c.queuedBytes + batchBytes (c.writeQueue ++ [entry]) + 0
      rw [batchBytes_append]
      change _ = _ + (_ + (entry.size + 0)) + 0
      omega
    · rcases List.mem_append.mp he with he | he
      · exact h.queue e he
      · rw [List.mem_singleton.mp he]
        exact hentry
  | restarting =>
    cases hs
    refine Steady.tryStartWrite ?_ (h.toSteady.running hl)
    exact h.toSteady.move hl rfl rfl rfl rfl (Nat.le_refl _) rfl h.queue trivial (.inl rfl)
      (.inl (Nat.le_refl _))
  | failed =>
    cases hs
    have hrun := h.toSteady.running hl
    have hstate : c.handleClose = { c with state := .hDisconnected } := by
      unfold Connection.handleClose
      split
      · rfl
      next hn =>
        cases hc : c.state with
        | hConnecting => exact absurd hc hrun
        | hConnected => exact absurd (.inl hc) hn
        | hDisconnecting => exact absurd (.inr hc) hn
        | hDisconnected => rw [← hc]
    rw [hstate]
    refine h.step_awake (h.toSteady.move hl rfl rfl rfl rfl (Nat.le_refl _) rfl h.queue trivial
      (.inr rfl) (.inr rfl)) hl rfl rfl fun he => ?_
    cases he
  | closing =>
    cases hs
    have hw := h.toSteady.writing_of_owns hl rfl
    refine h.step_awake (h.toSteady.move hl rfl rfl (by rw [hw]; rfl) rfl (Nat.le_refl _) rfl
      h.queue trivial (.inl rfl) (.inl (Nat.le_refl _))) hl rfl rfl
      fun he hne => .inr ⟨rfl, he, hne⟩
  | draining =>
    simp only [Connection.stepLoop] at hs
    split at hs
    next entry queue hq =>
      cases hs
      have hrest : ∀ e ∈ queue, e.Sound := fun e he => h.queue e (hq ▸ .tail _ he)
      refine h.step_awake (h.toSteady.move hl rfl rfl rfl ?_ (Nat.le_refl _) rfl hrest trivial
        (.inl rfl) (.inl (Nat.le_refl _))) hl rfl rfl fun he _ => .inr ⟨rfl, he, by simp [hq]⟩
      rw [hq, batchBytes_cons]
      change c.queuedBytes + _ + 0 = c.queuedBytes + batchBytes queue + entry.size
      omega
    next hq =>
      cases hs
      refine h.step_awake (h.toSteady.move hl rfl rfl rfl rfl (Nat.le_refl _) rfl h.queue trivial
        (.inl rfl) (.inl (Nat.zero_le _))) hl rfl rfl fun _ hne => absurd hq hne
  | drained entry =>
    cases hs
    obtain ⟨hsub, hle⟩ := h.toSteady.fetchSub hl
    change Sane ((c.fetchSub (Loop.drained entry).bytes).setLoop i .draining)
    rw [hsub]
    refine h.step_awake (h.toSteady.move hl rfl rfl rfl ?_ (Nat.sub_le _ _) rfl h.queue trivial
      (.inl rfl) (.inl (Nat.le_refl _))) hl rfl rfl fun he hne => .inr ⟨rfl, he, hne⟩
    change c.queuedBytes - (Loop.drained entry).bytes + batchBytes c.writeQueue +
      (Loop.drained entry).bytes = c.queuedBytes + batchBytes c.writeQueue + 0
    omega
  | finished => cases hs
  | escaped written left => cases hs

theorem Steady.moveSender (h : Steady c) (hsd : c.senders[i]? = some s) (s' : Sender)
    (queue : List WriteEntry) (queuedBytes : Nat) (pushed : List WriteEntry)
    (hbytes : queuedBytes + batchBytes c.writeQueue + s.bytes =
      c.queuedBytes + batchBytes queue + s'.bytes)
    (hsmall : queuedBytes < 2 ^ 64) (hqueue : ∀ e ∈ queue, e.Sound) (hsound : s'.Sound)
    (hbusy : s'.busy ≤ s.busy ∨ c.state = .hConnected)
    (hempty : queue = c.writeQueue ∨ c.state ≠ .hConnecting) :
    Steady { c with
      senders := c.senders.set i s', writeQueue := queue, queuedBytes, pushed } := by
  have hb := total_set (f := Sender.bytes) hsd s'
  have hu := total_set (f := Sender.busy) hsd s'
  refine { h with
    bytes := ?_, small := hsmall, queue := hqueue, senders := fun x hx => ?_,
    early := fun he => ?_ }
  · have := h.bytes
    dsimp only
    omega
  · rcases List.mem_or_eq_of_mem_set hx with hx | rfl
    · exact h.senders x hx
    · exact hsound
  · have hc : c.state = .hConnecting := he
    obtain ⟨hz, hl, hq⟩ := h.early hc
    have hle := hbusy.resolve_right fun hcon => by
      rw [hcon] at hc
      cases hc
    refine ⟨?_, hl, ?_⟩
    · dsimp only
      omega
    · rw [← hq]
      exact hempty.resolve_right fun hne => hne hc

theorem tryStartWrite_setSender (c : Connection) (i : Nat) (s : Sender) :
    c.tryStartWrite.setSender i s = (c.setSender i s).tryStartWrite := by
  unfold Connection.tryStartWrite
  change _ = if c.writing then _ else _
  split
  · rfl
  · rfl

theorem Steady.connected_of_busy (h : Steady c) (hsd : c.senders[i]? = some s)
    (hb : s.busy = 1) : c.state ≠ .hConnecting := by
  intro he
  have hle := le_total (f := Sender.busy) hsd
  have := (h.early he).1
  omega

theorem Sane.stepSender (h : Sane c) (hsd : c.senders[i]? = some s)
    (hc : countable c (.sender i) = true) (hs : c.stepSender i s = some c') : Sane c' := by
  have hwake : ∀ s' : Sender, s.waking = s'.waking → c.state = .hConnected → c.writeQueue ≠ [] →
      0 < total Sender.waking (c.senders.set i s') + total Loop.waking c.loops := by
    intro s' hle he hq
    have := h.awake he hq
    have := total_set (f := Sender.waking) hsd s'
    omega
  cases s with
  | entered entry =>
    cases hs
    split
    next hcon =>
      have hst := h.toSteady.moveSender hsd (.checked entry) c.writeQueue c.queuedBytes c.pushed
        rfl h.small h.queue trivial (.inr hcon) (.inl rfl)
      exact { hst with awake := hwake (.checked entry) rfl }
    · have hst := h.toSteady.moveSender hsd .returned c.writeQueue c.queuedBytes c.pushed
        rfl h.small h.queue trivial (.inl (Nat.le_refl _)) (.inl rfl)
      exact { hst with awake := hwake .returned rfl }
  | checked entry =>
    cases hs
    simp only [countable, hsd, Bool.and_eq_true, decide_eq_true_eq] at hc
    have hadd : c.fetchAdd entry.size = { c with queuedBytes := c.queuedBytes + entry.size } := by
      unfold Connection.fetchAdd
      rw [Nat.mod_eq_of_lt hc.2]
    rw [hadd]
    have hst := h.toSteady.moveSender hsd (.added entry) c.writeQueue
      (c.queuedBytes + entry.size) c.pushed
      (by
        change _ + _ + 0 = _ + _ + entry.size
        omega)
      hc.2 h.queue hc.1
      (.inl (Nat.le_refl _)) (.inl rfl)
    exact { hst with awake := hwake (.added entry) rfl }
  | added entry =>
    cases hs
    have hentry : entry.Sound := h.senders _ (List.mem_of_getElem? hsd)
    have hrun := h.toSteady.connected_of_busy hsd rfl
    have hst := h.toSteady.moveSender hsd .pushed (c.writeQueue ++ [entry]) c.queuedBytes
      (c.pushed ++ [entry])
      (by
        rw [batchBytes_append]
        change c.queuedBytes + _ + entry.size = c.queuedBytes + (_ + (entry.size + 0)) + 0
        omega)
      h.small
      (fun e he => by
        rcases List.mem_append.mp he with he | he
        · exact h.queue e he
        · rw [List.mem_singleton.mp he]
          exact hentry)
      trivial (.inl (Nat.le_refl _)) (.inr hrun)
    refine { hst with awake := fun _ _ => ?_ }
    -- The sender itself comes to `tryStartWrite` next.
    have hset := total_set (f := Sender.waking) hsd .pushed
    simp only [Sender.waking] at hset
    change 0 < total Sender.waking (c.senders.set i .pushed) + _
    omega
  | pushed =>
    cases hs
    have hrun := h.toSteady.connected_of_busy hsd rfl
    rw [tryStartWrite_setSender]
    refine Steady.tryStartWrite ?_ hrun
    exact h.toSteady.moveSender hsd .returned c.writeQueue c.queuedBytes c.pushed rfl h.small
      h.queue trivial (.inl (Nat.zero_le _)) (.inl rfl)
  | returned => cases hs

theorem Sane.setState (h : Sane c) (state : State) (hn : state ≠ .hConnecting)
    (hc : state ≠ .hDisconnected → c.state ≠ .hDisconnected)
    (ha : state = .hConnected → c.writeQueue = []) : Sane { c with state } where
  toSteady := { h.toSteady with
    early := fun he => absurd he hn
    closed := fun hne => h.closed (hc hne) }
  awake := fun he hq => absurd (ha he) hq

theorem Sane.step (h : Sane c) (hc : countable c label = true) (hs : c.step label = some c') :
    Sane c' := by
  cases label with
  | enqueueEntry entry =>
    cases hs
    refine { h with
      bytes := ?_, senders := fun x hx => ?_, early := fun he => ?_, awake := fun he hq => ?_ }
    · simp [h.bytes, Sender.bytes]
    · rcases List.mem_append.mp hx with hx | hx
      · exact h.senders x hx
      · rw [List.mem_singleton.mp hx]
        trivial
    · obtain ⟨hz, hl, hq⟩ := h.early he
      exact ⟨by simp [hz, Sender.busy], hl, hq⟩
    · have := h.awake he hq
      dsimp only
      rw [total_append]
      omega
  | sender i =>
    obtain ⟨s, hsd, hs⟩ := Option.bind_eq_some_iff.mp hs
    exact h.stepSender hsd hc hs
  | writeLoop i io =>
    obtain ⟨l, hl, hs⟩ := Option.bind_eq_some_iff.mp hs
    exact h.stepLoop hl hs
  | established =>
    simp only [Connection.step] at hs
    split at hs
    next he =>
      cases hs
      exact h.setState _ (by decide) (fun _ => by rw [he]; decide) fun _ => (h.early he).2.2
    · cases hs
  | disconnect =>
    simp only [Connection.step] at hs
    split at hs
    next he =>
      cases hs
      exact h.setState _ (by decide) (fun _ => by rw [he]; decide) fun hn => by cases hn
    · cases hs
  | handleClose =>
    cases hs
    unfold Connection.handleClose
    split
    · exact h.setState _ (by decide) (fun hn => absurd rfl hn) fun hn => by cases hn
    · exact h

theorem sane_run (labels : List Label) :
    ∀ c c' : Connection, Sane c → countableRun c labels = true → c.run labels = some c' →
      Sane c' := by
  intro c c' h hc hr
  refine (Runs.accepted (P := fun c labels => Sane c ∧ countableRun c labels = true) ?_ ⟨h, hc⟩ hr).1
  rintro c label c' labels ⟨h, hc⟩ hs
  simp only [countableRun, hs, Bool.and_eq_true] at hc
  exact ⟨h.step hc.1 hs, hc.2⟩

/-- One writer at a time, no lost wake-up, and a count that is what the parties have together. -/
structure WellWritten (c : Connection) : Prop where
  single : total Loop.writes c.loops ≤ 1
  awake : c.state = .hConnected → c.writeQueue ≠ [] →
    (∃ s ∈ c.senders, s = .pushed) ∨ ∃ l ∈ c.loops, l.waking = 1
  counted : c.queuedBytes =
    total Sender.bytes c.senders + batchBytes c.writeQueue + total Loop.bytes c.loops
  unwrapped : c.wrapped = false

theorem well_written (labels : List Label) (c : Connection)
    (hr : Connection.run {} labels = some c) (hc : countableRun {} labels = true) :
    WellWritten c := by
  have hstart : Sane {} := by
    refine ⟨⟨rfl, rfl, ?_, rfl, ?_, ?_, ?_, ?_, ?_⟩, ?_⟩ <;> simp
  have h := sane_run labels {} c hstart hc hr
  refine ⟨?_, fun he hq => ?_, h.bytes, h.unwrapped⟩
  · have hle := total_mono Loop.writes_le_owns c.loops
    rw [h.owners] at hle
    exact Nat.le_trans hle (Bool.toNat_le _)
  · have hpos := h.awake he hq
    by_cases hs : 0 < total Sender.waking c.senders
    · obtain ⟨s, hmem, hw⟩ := exists_of_total_pos hs
      refine .inl ⟨s, hmem, ?_⟩
      cases s with
      | pushed => rfl
      | _ => cases hw
    · obtain ⟨l, hmem, hw⟩ := exists_of_total_pos (f := Loop.waking) (l := c.loops) (by omega)
      refine .inr ⟨l, hmem, ?_⟩
      cases l <;> first | rfl | cases hw

/-- One message is written to the end, and a second one fails. -/
def failingLabels : List Label :=
  [.established, .enqueueEntry (.memory 0 3), .sender 0, .sender 0, .sender 0, .sender 0] ++
  (List.replicate 7 (.writeLoop 0 (.done 0))) ++
  [.enqueueEntry (.memory 1 4), .sender 1, .sender 1, .sender 1, .sender 1] ++
  (List.replicate 4 (.writeLoop 0 (.done 0))) ++ [.writeLoop 0 .systemError]

theorem well_written_failing :
    ∃ c, Connection.run {} failingLabels = some c ∧ c.error = true ∧ WellWritten c :=
  ⟨_, rfl, rfl, well_written failingLabels _ rfl (by decide)⟩

/-- A file is queued from an offset behind its end, and a message after it. -/
def escapingLabels : List Label :=
  [.established, .enqueueEntry (.file 0 (-90)), .sender 0, .sender 0, .sender 0, .sender 0] ++
  (List.replicate 5 (.writeLoop 0 (.done 0))) ++ [.writeLoop 0 .lengthError] ++
  [.enqueueEntry (.memory 1 4), .sender 1, .sender 1, .sender 1, .sender 1]

theorem wake_up_lost :
    ∃ c, Connection.run {} escapingLabels = some c ∧ c.state = .hConnected ∧
      c.writeQueue = [.memory 1 4] ∧ c.writing = true ∧ c.senders = [.returned, .returned] ∧
      c.loops = [.escaped [.file 0 (-90)] []] ∧ ¬ WellWritten c := by
  refine ⟨_, rfl, rfl, rfl, rfl, rfl, rfl, fun h => ?_⟩
  rcases h.awake rfl (by decide) with ⟨s, hs, rfl⟩ | ⟨l, hl, hw⟩
  · exact absurd hs (by decide)
  · rw [List.mem_singleton.mp hl] at hw
    cases hw

end Hical.Tcp
