import Mathlib.Data.List.TakeWhile
import Hical.Lib.Runs
import Hical.Tcp.Writer

namespace Hical.Tcp
open Ledger Connection

namespace Loop

/-- The loop that `writing_` stands for. -/
def owns : Loop → Nat
  | spawned | popping _ | popped _ | issuing _ | sending _ _ | emptied | failed | closing
  | escaped _ _ => 1
  | rechecking | holding _ | restarting | draining | drained _ | finished => 0

/-- What a loop took out of the queue and did not give to the socket yet. -/
def rest : Loop → List WriteEntry
  | popping batch | popped batch => batch
  | issuing left | sending _ left | escaped _ left => left
  | _ => []

def inFlight : Loop → List WriteEntry
  | sending written _ | escaped written _ => written
  | _ => []

/-- The node that a second look took. -/
def held : Loop → List WriteEntry
  | holding entry => [entry]
  | _ => []

/-- The loop is in the error path. -/
def failing : Loop → Nat
  | failed | closing | draining | drained _ => 1
  | _ => 0

/-- A write is one file or some memory. -/
def Grouped : Loop → Prop
  | sending written _ => (∃ number length, written = [.file number length]) ∨
      ∀ e ∈ written, e.isFile = false
  | _ => True

theorem rest_eq_nil (h : owns l = 0) : rest l = [] := by
  cases l <;> first | rfl | cases h

theorem inFlight_eq_nil (h : owns l = 0) : inFlight l = [] := by
  cases l <;> first | rfl | cases h

end Loop

variable {c c' : Connection} {l l' : Loop} {i : Nat}

/-- The steps that keep the order: a second look finds at most one node, nothing is pushed while
it holds that node, and a file gives all the bytes that it was queued with. -/
def orderly (c : Connection) : Label → Bool
  | .sender i =>
    match c.senders[i]? with
    | some (.added _) => c.loops.all (·.held.isEmpty)
    | _ => true
  | .writeLoop i io =>
    match c.loops[i]?, io with
    | some .rechecking, _ => c.writeQueue.length ≤ 1
    | some (.sending [.file _ length] _), .done bytes => (bytes : Int) = length
    | _, _ => true
  | _ => true

/-- A run whose steps, from `c` on, all keep the order. -/
def orderlyRun (c : Connection) : List Label → Bool
  | [] => true
  | label :: labels =>
    orderly c label && match c.step label with
      | some c' => orderlyRun c' labels
      | none => true

theorem orderly_push (ho : orderly c (.sender i) = true) (hs : c.senders[i]? = some (.added entry)) :
    ∀ l ∈ c.loops, l.held = [] := by
  simp only [orderly, hs, List.all_eq_true, List.isEmpty_iff] at ho
  exact ho

theorem orderly_recheck (ho : orderly c (.writeLoop i io) = true)
    (hl : c.loops[i]? = some .rechecking) : c.writeQueue.length ≤ 1 := by
  simpa [orderly, hl] using ho

theorem orderly_file {bytes : Nat} (ho : orderly c (.writeLoop i (.done bytes)) = true)
    (hl : c.loops[i]? = some (.sending [.file number length] left)) : (bytes : Int) = length := by
  simpa [orderly, hl] using ho

/-- What was pushed lies, in order, with the socket, in the batch of the one loop that owns it, in
the hands of a second look, and in the queue. -/
structure Placed (c : Connection) : Prop where
  order : c.pushed = c.handed ++ c.loops.flatMap Loop.rest ++ c.loops.flatMap Loop.held ++ c.writeQueue
  sent : c.handed = c.delivered.map Prod.fst ++ c.loops.flatMap Loop.inFlight
  alone : ∀ l ∈ c.loops, l.held ≠ [] → c.writeQueue = []
  single : total (fun l => l.held.length) c.loops ≤ 1
  healthy : ∀ l ∈ c.loops, l.failing = 0

/-- The invariant of the orderly runs. -/
structure InOrder (c : Connection) : Prop where
  owners : total Loop.owns c.loops = c.writing.toNat
  grouped : ∀ l ∈ c.loops, l.Grouped
  placed : c.error = false → Placed c
  handed : c.handed <+: c.pushed
  delivered : c.delivered.map Prod.fst <+: c.handed
  full : ∀ d ∈ c.delivered, (d.2 : Int) = d.1.length

theorem Placed.others (ht : total Loop.owns c.loops ≤ 1) (hl : c.loops[i]? = some l)
    (ho : l.owns = 1) (j : Nat) (x : Loop) (hj : c.loops[j]? = some x) (hne : j ≠ i) :
    x.rest = [] ∧ x.inFlight = [] :=
  have hx := only_holder ht hl ho hj hne
  ⟨Loop.rest_eq_nil hx, Loop.inFlight_eq_nil hx⟩

theorem mem_set_loop (h : x ∈ c.loops.set i l') : x ∈ c.loops ∨ x = l' :=
  List.mem_or_eq_of_mem_set h

theorem Placed.own (h : Placed c) (ht : total Loop.owns c.loops ≤ 1)
    (hl : c.loops[i]? = some l) (ho : l.owns = 1) (hloops : c'.loops = c.loops.set i l')
    (hheld : l.held = []) (hheld' : l'.held = []) (hfail : l'.failing = 0)
    (hord : ∀ hs, (c.writeQueue ≠ [] → hs = []) →
      c.pushed = c.handed ++ l.rest ++ hs ++ c.writeQueue →
        c'.pushed = c'.handed ++ l'.rest ++ hs ++ c'.writeQueue)
    (hsent : c.handed = c.delivered.map Prod.fst ++ l.inFlight →
      c'.handed = c'.delivered.map Prod.fst ++ l'.inFlight)
    (hq : c.writeQueue = [] → c'.writeQueue = []) : Placed c' := by
  have hothers := Placed.others ht hl ho
  obtain ⟨hr, hr'⟩ := flatMap_set_only hl (fun j x hj hne => (hothers j x hj hne).1) l'
  obtain ⟨hi, hi'⟩ := flatMap_set_only hl (fun j x hj hne => (hothers j x hj hne).2) l'
  have hh : (c.loops.set i l').flatMap Loop.held = c.loops.flatMap Loop.held :=
    flatMap_set_same hl (by rw [hheld, hheld'])
  have hnone : c.writeQueue ≠ [] → c.loops.flatMap Loop.held = [] := by
    intro hne
    refine List.flatMap_eq_nil_iff.mpr fun x hx => ?_
    by_contra hc
    exact hne (h.alone x hx hc)
  have hs := total_set (f := fun l => l.held.length) hl l'
  refine ⟨?_, ?_, ?_, ?_, ?_⟩
  · rw [hloops, hr', hh]
    exact hord _ hnone (hr ▸ h.order)
  · rw [hloops, hi']
    exact hsent (hi ▸ h.sent)
  · intro x hx hne
    rw [hloops] at hx
    rcases mem_set_loop hx with hx | rfl
    · exact hq (h.alone x hx hne)
    · exact absurd hheld' hne
  · rw [hloops]
    have := h.single
    simp only [hheld, hheld', List.length_nil] at hs
    omega
  · intro x hx
    rw [hloops] at hx
    rcases mem_set_loop hx with hx | rfl
    · exact h.healthy x hx
    · exact hfail

theorem Placed.free (h : Placed c) (hl : c.loops[i]? = some l)
    (ho : l.owns = 0) (hloops : c'.loops = c.loops.set i l') (ho' : l'.owns = 0)
    (hfail : l'.failing = 0) (hpushed : c'.pushed = c.pushed) (hhanded : c'.handed = c.handed)
    (hdelivered : c'.delivered = c.delivered)
    (hord : c.loops.flatMap Loop.held ++ c.writeQueue =
      (c.loops.set i l').flatMap Loop.held ++ c'.writeQueue)
    (halone : ∀ x ∈ c.loops.set i l', x.held ≠ [] → c'.writeQueue = [])
    (hsingle : total (fun l => l.held.length) (c.loops.set i l') ≤ 1) : Placed c' := by
  have hr : (c.loops.set i l').flatMap Loop.rest = c.loops.flatMap Loop.rest :=
    flatMap_set_same hl (by rw [Loop.rest_eq_nil ho, Loop.rest_eq_nil ho'])
  have hi : (c.loops.set i l').flatMap Loop.inFlight = c.loops.flatMap Loop.inFlight :=
    flatMap_set_same hl (by rw [Loop.inFlight_eq_nil ho, Loop.inFlight_eq_nil ho'])
  refine ⟨?_, ?_, ?_, ?_, ?_⟩
  · rw [hloops, hr, hpushed, hhanded, List.append_assoc, ← hord, ← List.append_assoc]
    exact h.order
  · rw [hloops, hi, hhanded, hdelivered]
    exact h.sent
  · rw [hloops]
    exact halone
  · rw [hloops]
    exact hsingle
  · intro x hx
    rw [hloops] at hx
    rcases mem_set_loop hx with hx | rfl
    · exact h.healthy x hx
    · exact hfail

theorem Placed.tryStartWrite (h : Placed c) : Placed c.tryStartWrite := by
  unfold Connection.tryStartWrite
  split
  · exact h
  · refine ⟨?_, ?_, ?_, ?_, ?_⟩
    · simp only [List.flatMap_append, List.flatMap_singleton, Loop.rest, Loop.held, List.append_nil]
      exact h.order
    · simp only [List.flatMap_append, List.flatMap_singleton, Loop.inFlight, List.append_nil]
      exact h.sent
    · intro x hx hne
      rcases List.mem_append.mp hx with hx | hx
      · exact h.alone x hx hne
      · rw [List.mem_singleton.mp hx] at hne
        exact absurd rfl hne
    · rw [total_append]
      exact h.single
    · intro x hx
      rcases List.mem_append.mp hx with hx | hx
      · exact h.healthy x hx
      · rw [List.mem_singleton.mp hx]
        rfl

theorem owners_tryStartWrite (h : total Loop.owns c.loops = c.writing.toNat) :
    total Loop.owns c.tryStartWrite.loops = c.tryStartWrite.writing.toNat := by
  unfold Connection.tryStartWrite
  split
  · exact h
  next hw =>
    rw [Bool.eq_false_iff.mpr hw] at h
    simp [h, Loop.owns]

theorem InOrder.tryStartWrite (h : InOrder c) : InOrder c.tryStartWrite := by
  have ho := owners_tryStartWrite h.owners
  have hp := fun he => (h.placed he).tryStartWrite
  unfold Connection.tryStartWrite at ho hp ⊢
  split at ho
  next hw =>
    rw [if_pos hw] at hp ⊢
    exact h
  next hw =>
    rw [if_neg hw] at hp ⊢
    refine ⟨ho, fun x hx => ?_, hp, h.handed, h.delivered, h.full⟩
    rcases List.mem_append.mp hx with hx | hx
    · exact h.grouped x hx
    · rw [List.mem_singleton.mp hx]
      trivial

theorem InOrder.move (h : InOrder c) (hl : c.loops[i]? = some l)
    (hloops : c'.loops = c.loops.set i l')
    (howns : l'.owns + c.writing.toNat = l.owns + c'.writing.toNat) (hgroup : l'.Grouped)
    (herror : c'.error = c.error) (hplaced : c.error = false → Placed c → Placed c')
    (hpushed : c'.pushed = c.pushed)
    (hkeep : c.error = true → c'.handed = c.handed ∧ c'.delivered = c.delivered)
    (hfull : ∀ d ∈ c'.delivered, d ∈ c.delivered ∨ (d.2 : Int) = d.1.length) : InOrder c' := by
  have ht := total_set (f := Loop.owns) hl l'
  have hp : c'.error = false → Placed c' := fun he =>
    hplaced (herror ▸ he) (h.placed (herror ▸ he))
  refine ⟨?_, fun x hx => ?_, hp, ?_, ?_, fun d hd => (hfull d hd).elim (h.full d) fun hd => hd⟩
  · rw [hloops]
    have := h.owners
    omega
  · rw [hloops] at hx
    rcases mem_set_loop hx with hx | rfl
    · exact h.grouped x hx
    · exact hgroup
  · cases he : c'.error with
    | true =>
      rw [hpushed, (hkeep (herror ▸ he)).1]
      exact h.handed
    | false =>
      rw [(hp he).order, List.append_assoc, List.append_assoc]
      exact List.prefix_append _ _
  · cases he : c'.error with
    | true =>
      obtain ⟨h₁, h₂⟩ := hkeep (herror ▸ he)
      rw [h₁, h₂]
      exact h.delivered
    | false =>
      rw [(hp he).sent]
      exact List.prefix_append _ _

theorem nextWrite_append (entries : List WriteEntry) :
    (nextWrite entries).1 ++ (nextWrite entries).2 = entries := by
  unfold nextWrite
  split
  · rfl
  · split
    · rfl
    · exact List.takeWhile_append_dropWhile

theorem nextWrite_grouped (entry : WriteEntry) (left : List WriteEntry) :
    (Loop.sending (nextWrite (entry :: left)).1 (nextWrite (entry :: left)).2).Grouped := by
  rw [nextWrite]
  split
  next hf =>
    cases entry with
    | memory number size => cases hf
    | file number length => exact .inl ⟨number, length, rfl⟩
  · exact .inr fun e he => by simpa using List.mem_takeWhile_imp he

theorem InOrder.quiet (h : InOrder c) (hl : c.loops[i]? = some l) (l' : Loop) (writing : Bool)
    (queue : List WriteEntry) (bytes : Nat) (wrapped : Bool)
    (howns : l'.owns + c.writing.toNat = l.owns + writing.toNat) (hgroup : l'.Grouped)
    (hplaced : c.error = false → Placed c → Placed { c with
      loops := c.loops.set i l', writing, writeQueue := queue, queuedBytes := bytes, wrapped }) :
    InOrder { c with
      loops := c.loops.set i l', writing, writeQueue := queue, queuedBytes := bytes, wrapped } :=
  h.move hl rfl howns hgroup rfl hplaced rfl (fun _ => ⟨rfl, rfl⟩)
    fun _ hd => .inl hd

theorem InOrder.writing_of_owns (h : InOrder c) (hl : c.loops[i]? = some l) (ho : l.owns = 1) :
    c.writing = true := by
  have hle := le_total (f := Loop.owns) hl
  rw [h.owners, ho] at hle
  cases hw : c.writing with
  | true => rfl
  | false => simp [hw] at hle

theorem InOrder.failing (h : InOrder c) (hl : c.loops[i]? = some l) (hf : l.failing ≠ 0) :
    ¬ c.error = false :=
  fun he => hf ((h.placed he).healthy l (List.mem_of_getElem? hl))

theorem Placed.leave (h : Placed c) (hl : c.loops[i]? = some l) (ho : l.owns = 0)
    (hh : l.held = []) (ho' : l'.owns = 0) (hh' : l'.held = []) (hf : l'.failing = 0) :
    Placed { c with loops := c.loops.set i l' } := by
  have hs := total_set (f := fun l => l.held.length) hl l'
  simp only [hh, hh', List.length_nil, Nat.add_zero] at hs
  refine h.free hl ho rfl ho' hf rfl rfl rfl ?_ ?_ (hs ▸ h.single)
  · rw [flatMap_set_same hl (by rw [hh, hh'])]
  · intro x hx hne
    rcases mem_set_loop hx with hx | rfl
    · exact h.alone x hx hne
    · exact absurd hh' hne

theorem InOrder.stepWrite (h : InOrder c) (hl : c.loops[i]? = some (.sending written left))
    (ho : orderly c (.writeLoop i io) = true) (hs : c.stepWrite i written left io = some c') :
    InOrder c' := by
  have hone : total Loop.owns c.loops ≤ 1 := by
    rw [h.owners]
    exact Bool.toNat_le c.writing
  -- The entries of the write are what the loop had given to the socket last.
  have hdone : ∀ bytes : List (WriteEntry × Nat), bytes.map Prod.fst = written →
      (∀ d ∈ bytes, (d.2 : Int) = d.1.length) →
        InOrder ((c.deliver bytes).setLoop i (.issuing left)) := by
    intro bytes hb hfull
    unfold Connection.deliver
    split
    next he =>
      exact h.move hl rfl rfl trivial rfl (fun hf => by simp [he] at hf) rfl
        (fun _ => ⟨rfl, rfl⟩) fun _ hd => .inl hd
    next he =>
      refine h.move hl rfl rfl trivial rfl (fun _ hp => ?_) rfl
        (fun hf => absurd hf he) fun d hd => ?_
      · refine hp.own hone hl rfl rfl rfl rfl rfl (fun _ _ ho => ho) (fun ho => ?_) fun hq => hq
        change c.handed = (c.delivered ++ bytes).map Prod.fst ++ []
        rw [ho, List.map_append, hb, List.append_nil]
        rfl
      · rcases List.mem_append.mp hd with hd | hd
        · exact .inl hd
        · exact .inr (hfull d hd)
  cases io with
  | systemError =>
    cases hs
    have ht := total_set (f := Loop.owns) hl .failed
    have := h.owners
    refine ⟨?_, fun x hx => ?_, (fun he => by cases he), h.handed, h.delivered, h.full⟩
    · change total Loop.owns (c.loops.set i .failed) = c.writing.toNat
      simp only [Loop.owns] at ht
      omega
    · rcases mem_set_loop hx with hx | rfl
      · exact h.grouped x hx
      · trivial
  | lengthError =>
    simp only [Connection.stepWrite] at hs
    split at hs
    · split at hs
      · cases hs
        refine h.quiet hl (.escaped _ left) c.writing c.writeQueue c.queuedBytes c.wrapped rfl trivial
          fun _ hp => ?_
        exact hp.own hone hl rfl rfl rfl rfl rfl (fun _ _ ho => ho) (fun ho => ho) fun hq => hq
      · cases hs
    · cases hs
  | done bytes =>
    simp only [Connection.stepWrite] at hs
    split at hs
    next number length =>
      split at hs
      · cases hs
        refine hdone [(.file number length, bytes)] rfl fun d hd => ?_
        rw [List.mem_singleton.mp hd]
        exact orderly_file ho hl
      · cases hs
    next hw =>
      cases hs
      have hmem : ∀ e ∈ written, e.isFile = false :=
        (h.grouped _ (List.mem_of_getElem? hl)).resolve_left fun ⟨number, length, he⟩ =>
          hw number length he
      refine hdone _ ?_ fun d hd => ?_
      · rw [List.map_map]
        exact List.map_id _
      · obtain ⟨e, he, rfl⟩ := List.mem_map.mp hd
        cases e with
        | memory number size => rfl
        | file number length => cases hmem _ he

theorem InOrder.stepLoop (h : InOrder c) (hl : c.loops[i]? = some l)
    (ho : orderly c (.writeLoop i io) = true) (hs : c.stepLoop i io l = some c') : InOrder c' := by
  have hone : total Loop.owns c.loops ≤ 1 := by
    rw [h.owners]
    exact Bool.toNat_le c.writing
  cases l with
  | spawned =>
    cases hs
    refine h.quiet hl (.popping []) c.writing c.writeQueue c.queuedBytes c.wrapped rfl trivial fun _ hp => ?_
    exact hp.own hone hl rfl rfl rfl rfl rfl (fun _ _ he => he) (fun he => he) fun he => he
  | popping batch =>
    simp only [Connection.stepLoop] at hs
    split at hs
    next entry queue hq =>
      cases hs
      generalize hl' : (if (batch ++ [entry]).length ≥ kMaxDrainBatch then
        Loop.popped (batch ++ [entry]) else .popping (batch ++ [entry])) = l'
      have hkind : l'.Grouped ∧ l'.owns = 1 ∧ l'.held = [] ∧ l'.failing = 0 ∧ l'.rest = batch ++ [entry] ∧
          l'.inFlight = [] := by
        rw [← hl']
        split <;> exact ⟨trivial, rfl, rfl, rfl, rfl, rfl⟩
      obtain ⟨h₀, h₁, h₂, h₃, h₄, h₅⟩ := hkind
      refine h.quiet hl l' c.writing queue c.queuedBytes c.wrapped (by rw [h₁]; rfl)
        h₀ fun _ hp => ?_
      refine hp.own hone hl rfl rfl rfl h₂ h₃ ?_ ?_ ?_
      · intro hs hnone he
        rw [hq] at hnone he
        rw [hnone (List.cons_ne_nil _ _)] at he ⊢
        rw [h₄]
        simpa [Loop.rest] using he
      · rw [h₅]
        exact fun he => he
      · rw [hq]
        exact fun he => absurd he (List.cons_ne_nil _ _)
    next hq =>
      cases hs
      generalize hl' : (if batch = [] then Loop.emptied else .popped batch) = l'
      have hkind : l'.Grouped ∧ l'.owns = 1 ∧ l'.held = [] ∧ l'.failing = 0 ∧ l'.rest = batch ∧
          l'.inFlight = [] := by
        rw [← hl']
        split
        next he => exact ⟨trivial, rfl, rfl, rfl, he.symm, rfl⟩
        · exact ⟨trivial, rfl, rfl, rfl, rfl, rfl⟩
      obtain ⟨h₀, h₁, h₂, h₃, h₄, h₅⟩ := hkind
      refine h.quiet hl l' c.writing c.writeQueue c.queuedBytes c.wrapped (by rw [h₁]; rfl)
        h₀ fun _ hp => ?_
      refine hp.own hone hl rfl rfl rfl h₂ h₃ ?_ ?_ fun he => he
      · rw [h₄]
        exact fun _ _ he => he
      · rw [h₅]
        exact fun he => he
  | popped batch =>
    cases hs
    refine h.quiet hl (.issuing batch) c.writing c.writeQueue _ _ rfl trivial fun _ hp => ?_
    exact hp.own hone hl rfl rfl rfl rfl rfl (fun _ _ he => he) (fun he => he) fun he => he
  | issuing left =>
    cases left with
    | nil =>
      cases hs
      refine h.quiet hl (.popping []) c.writing c.writeQueue c.queuedBytes c.wrapped rfl trivial
        fun _ hp => ?_
      exact hp.own hone hl rfl rfl rfl rfl rfl (fun _ _ he => he) (fun he => he) fun he => he
    | cons entry left =>
      cases hs
      have hsplit := nextWrite_append (entry :: left)
      have hgroup := nextWrite_grouped entry left
      unfold Connection.hand
      split
      next he =>
        exact h.move hl rfl rfl hgroup rfl (fun hf => by simp [he] at hf) rfl
          (fun _ => ⟨rfl, rfl⟩) fun _ hd => .inl hd
      next he =>
        refine h.move hl rfl rfl hgroup rfl (fun _ hp => ?_) rfl
          (fun hf => absurd hf he) fun _ hd => .inl hd
        · refine hp.own hone hl rfl rfl rfl rfl rfl (fun hs _ ho => ?_) (fun ho => ?_) fun hq => hq
          · change c.pushed = c.handed ++ _ ++ _ ++ hs ++ c.writeQueue
            rw [List.append_assoc c.handed, Loop.rest, hsplit]
            exact ho
          · change c.handed ++ _ = _
            rw [ho]
            exact congrArg (· ++ _) (List.append_nil _)
  | sending written left => exact h.stepWrite hl ho hs
  | emptied =>
    cases hs
    have hw := h.writing_of_owns hl rfl
    refine h.quiet hl .rechecking false c.writeQueue c.queuedBytes c.wrapped (by rw [hw]; rfl)
      trivial fun _ hp => ?_
    exact hp.own hone hl rfl rfl rfl rfl rfl (fun _ _ he => he) (fun he => he) fun he => he
  | rechecking =>
    simp only [Connection.stepLoop] at hs
    split at hs
    next entry queue hq =>
      cases hs
      refine h.quiet hl (.holding entry) c.writing queue c.queuedBytes c.wrapped rfl trivial fun _ hp => ?_
      have hempty : queue = [] := by
        have hlen := orderly_recheck ho hl
        rw [hq, List.length_cons] at hlen
        exact List.eq_nil_of_length_eq_zero (by omega)
      have hnone : ∀ x ∈ c.loops, x.held = [] := fun x hx => by
        by_contra hne
        rw [hp.alone x hx hne] at hq
        cases hq
      obtain ⟨hh, hh'⟩ := flatMap_set_only (f := Loop.held) hl
        (fun j x hj _ => hnone x (List.mem_of_getElem? hj)) (.holding entry)
      have hs := total_set (f := fun l => l.held.length) hl (.holding entry)
      have hz : total (fun l : Loop => l.held.length) c.loops = 0 :=
        total_eq_zero fun x hx => by rw [hnone x hx]; rfl
      refine hp.free hl rfl rfl rfl rfl rfl rfl rfl ?_ (fun _ _ _ => hempty) ?_
      · rw [hh, hh', hq, hempty]
        rfl
      · simp only [Loop.held, List.length_nil, List.length_singleton] at hs hz ⊢
        omega
    next hq =>
      cases hs
      refine h.quiet hl .finished c.writing c.writeQueue c.queuedBytes c.wrapped rfl trivial fun _ hp => ?_
      exact hp.leave hl rfl rfl rfl rfl rfl
  | holding entry =>
    cases hs
    refine h.quiet hl .restarting c.writing _ c.queuedBytes c.wrapped rfl trivial fun _ hp => ?_
    have hq : c.writeQueue = [] := hp.alone _ (List.mem_of_getElem? hl) (List.cons_ne_nil _ _)
    have hothers : ∀ (j : Nat) (x : Loop), c.loops[j]? = some x → j ≠ i → x.held = [] :=
      fun j x hj hne => List.eq_nil_of_length_eq_zero <|
        only_holder (f := fun l : Loop => l.held.length) hp.single hl rfl hj hne
    obtain ⟨hh, hh'⟩ := flatMap_set_only (f := Loop.held) hl hothers .restarting
    have hs : total (fun l : Loop => l.held.length) (c.loops.set i .restarting) + 1 =
        total (fun l : Loop => l.held.length) c.loops + 0 := total_set hl .restarting
    refine hp.free hl rfl rfl rfl rfl rfl rfl rfl ?_ ?_ ?_
    · rw [hh, hh', hq]
      rfl
    · intro x hx hne
      have hn : (c.loops.set i .restarting).flatMap Loop.held = [] := hh'
      exact absurd (List.flatMap_eq_nil_iff.mp hn x hx) hne
    · have := hp.single
      omega
  | restarting =>
    cases hs
    refine InOrder.tryStartWrite ?_
    refine h.quiet hl .finished c.writing c.writeQueue c.queuedBytes c.wrapped rfl trivial fun _ hp => ?_
    exact hp.leave hl rfl rfl rfl rfl rfl
  | failed =>
    cases hs
    have hf := h.failing hl (Nat.one_ne_zero)
    unfold Connection.handleClose
    split
    · exact h.move hl rfl rfl trivial rfl (fun he => absurd he hf) rfl
        (fun _ => ⟨rfl, rfl⟩) fun _ hd => .inl hd
    · exact h.move hl rfl rfl trivial rfl (fun he => absurd he hf) rfl
        (fun _ => ⟨rfl, rfl⟩) fun _ hd => .inl hd
  | closing =>
    cases hs
    have hf := h.failing hl (Nat.one_ne_zero)
    have hw := h.writing_of_owns hl rfl
    exact h.quiet hl .draining false c.writeQueue c.queuedBytes c.wrapped (by rw [hw]; rfl)
      trivial fun he => absurd he hf
  | draining =>
    have hf := h.failing hl (Nat.one_ne_zero)
    simp only [Connection.stepLoop] at hs
    split at hs
    next entry queue hq =>
      cases hs
      exact h.quiet hl (.drained entry) c.writing queue c.queuedBytes c.wrapped rfl trivial
        fun he => absurd he hf
    · cases hs
      exact h.quiet hl .finished c.writing c.writeQueue c.queuedBytes c.wrapped rfl trivial
        fun he => absurd he hf
  | drained entry =>
    cases hs
    have hf := h.failing hl (Nat.one_ne_zero)
    exact h.quiet hl .draining c.writing c.writeQueue _ _ rfl trivial fun he => absurd he hf
  | finished => cases hs
  | escaped written left => cases hs

theorem InOrder.stepSender (h : InOrder c) (hsd : c.senders[i]? = some s)
    (ho : orderly c (.sender i) = true) (hs : c.stepSender i s = some c') : InOrder c' := by
  cases s with
  | entered entry | checked entry =>
    cases hs
    exact { h with placed := fun he => { h.placed he with } }
  | added entry =>
    cases hs
    have hnone : c.loops.flatMap Loop.held = [] :=
      List.flatMap_eq_nil_iff.mpr (orderly_push ho hsd)
    refine ⟨h.owners, h.grouped, fun he => ?_, h.handed.trans (List.prefix_append _ _),
      h.delivered, h.full⟩
    have hp := h.placed he
    refine ⟨?_, hp.sent, fun l hl hne => absurd (orderly_push ho hsd l hl) hne, hp.single, hp.healthy⟩
    change c.pushed ++ [entry] = c.handed ++ c.loops.flatMap Loop.rest ++
      c.loops.flatMap Loop.held ++ (c.writeQueue ++ [entry])
    rw [hp.order, List.append_assoc _ c.writeQueue]
  | pushed =>
    cases hs
    have ht := h.tryStartWrite
    exact { ht with placed := fun he => { ht.placed he with } }
  | returned => cases hs

theorem InOrder.step (h : InOrder c) (ho : orderly c label = true) (hs : c.step label = some c') :
    InOrder c' := by
  have hstate : ∀ state, InOrder { c with state } := fun state =>
    { h with placed := fun he => { h.placed he with } }
  cases label with
  | enqueueEntry entry =>
    cases hs
    exact { h with placed := fun he => { h.placed he with } }
  | sender i =>
    obtain ⟨s, hsd, hs⟩ := Option.bind_eq_some_iff.mp hs
    exact h.stepSender hsd ho hs
  | writeLoop i io =>
    obtain ⟨l, hl, hs⟩ := Option.bind_eq_some_iff.mp hs
    exact h.stepLoop hl ho hs
  | established | disconnect =>
    obtain ⟨-, rfl⟩ := Option.ite_some_none_eq_some.1 hs
    exact hstate _
  | handleClose =>
    cases hs
    unfold Connection.handleClose
    split
    · exact hstate _
    · exact h

theorem inOrder_run (labels : List Label) :
    ∀ c c' : Connection, InOrder c → orderlyRun c labels = true → c.run labels = some c' → InOrder c' := by
  intro c c' h ho hr
  refine (Runs.accepted (P := fun c labels => InOrder c ∧ orderlyRun c labels = true) ?_ ⟨h, ho⟩ hr).1
  rintro c label c' labels ⟨h, ho⟩ hs
  simp only [orderlyRun, hs, Bool.and_eq_true] at ho
  exact ⟨h.step ho.1 hs, ho.2⟩

/-- Until the first error, what the socket gets is what was pushed, in the order of the pushes,
each entry once and in full. -/
def WrittenInOrder (c : Connection) : Prop :=
  c.handed <+: c.pushed ∧ c.delivered.map Prod.fst <+: c.handed ∧
    ∀ d ∈ c.delivered, (d.2 : Int) = d.1.length

theorem written_in_order (labels : List Label) (c : Connection)
    (hr : Connection.run {} labels = some c) (ho : orderlyRun {} labels = true) : WrittenInOrder c := by
  have hstart : InOrder {} := by
    refine ⟨rfl, ?_, fun _ => ⟨rfl, rfl, ?_, Nat.zero_le _, ?_⟩, List.prefix_refl _,
      List.prefix_refl _, ?_⟩ <;> simp
  have h := inOrder_run labels {} c hstart ho hr
  exact ⟨h.handed, h.delivered, h.full⟩

/-- A message is sent while nothing else happens, with a file after it; then the loop looks twice
and ends. -/
def orderlyLabels : List Label :=
  [.established, .enqueueEntry (.memory 0 3), .sender 0, .sender 0, .sender 0, .sender 0,
    .enqueueEntry (.file 1 5), .sender 1, .sender 1, .sender 1, .sender 1] ++
  (List.replicate 13 (.writeLoop 0 (.done 5)))

theorem written_in_order_twice :
    ∃ c, Connection.run {} orderlyLabels = some c ∧
      c.delivered = [(.memory 0 3, 3), (.file 1 5, 5)] ∧ WrittenInOrder c :=
  ⟨_, rfl, by decide, written_in_order orderlyLabels _ rfl (by decide)⟩

/-- Two messages are pushed while the loop, which found nothing, has not looked again. -/
def reorderingLabels : List Label :=
  [.established, .enqueueEntry (.memory 0 1), .sender 0, .sender 0, .sender 0, .sender 0] ++
  -- The loop writes the first message, finds the queue empty, and is about to say so.
  (List.replicate 8 (.writeLoop 0 (.done 0))) ++
  [.enqueueEntry (.memory 1 1), .sender 1, .sender 1, .sender 1, .sender 1,
    .enqueueEntry (.memory 2 1), .sender 2, .sender 2, .sender 2, .sender 2] ++
  -- It clears the flag, takes the second message and puts it behind the third.
  (List.replicate 4 (.writeLoop 0 (.done 0))) ++ (List.replicate 6 (.writeLoop 1 (.done 0)))

theorem write_order_lost :
    ∃ c, Connection.run {} reorderingLabels = some c ∧ c.error = false ∧
      c.pushed = [.memory 0 1, .memory 1 1, .memory 2 1] ∧
      c.handed = [.memory 0 1, .memory 2 1, .memory 1 1] ∧ ¬ WrittenInOrder c := by
  refine ⟨_, rfl, by decide, by decide, by decide, fun h => ?_⟩
  exact absurd h.1 (by decide)

end Hical.Tcp
