import Mathlib.Data.List.TakeWhile
import Hical.Lib.Runs
import Hical.Timer.Service

namespace Hical.Timer
open TimerServiceCore

theorem later_iff (a b : Node) :
    later a b = true ↔ b.deadline < a.deadline ∨ (a.deadline = b.deadline ∧ b.id < a.id) := by
  unfold later
  split
  next h => simp only [gt_iff_lt, decide_eq_true_eq, h, false_and, or_false]
  next h =>
    have h := not_not.mp h
    simp only [gt_iff_lt, decide_eq_true_eq, h, Int.lt_irrefl, true_and, false_or]

theorem later_trans (h : later c b = true) (h' : later b a = true) : later c a = true := by
  rw [later_iff] at *
  omega

theorem later_total (h : a.id ≠ b.id) : later a b = true ∨ later b a = true := by
  rw [later_iff, later_iff]
  omega

def InOrder (nodes : List Node) : Prop := nodes.Pairwise fun a b => later b a = true

theorem inOrder_push (node : Node) (heap : List Node) (h : InOrder heap)
    (hn : ∀ n ∈ heap, n.id ≠ node.id) :
    InOrder (heap.orderedInsert (fun a b => later b a = true) node) := by
  induction heap with
  | nil => exact List.pairwise_singleton _ _
  | cons b heap ih =>
    obtain ⟨hb, hh⟩ := List.pairwise_cons.mp h
    rw [List.orderedInsert_cons]
    split
    next hl =>
      refine List.pairwise_cons.mpr ⟨fun n hm => ?_, h⟩
      rcases List.mem_cons.mp hm with rfl | hm
      · exact hl
      · exact later_trans (hb n hm) hl
    next hl =>
      have hbn := hn b List.mem_cons_self
      have hnb : later node b = true := (later_total hbn).resolve_left hl
      refine List.pairwise_cons.mpr ⟨fun n hm => ?_, ih hh fun n hm => hn n (.tail _ hm)⟩
      rcases (List.mem_orderedInsert ..).mp hm with rfl | hm
      · exact hnb
      · exact hb n hm

/-- The part of a history that belongs to the firing it ends in. -/
def batch (past : List Happened) : List Happened := past.takeWhile (· ≠ .fired)

/-- A callback that runs was scheduled and is due; it did not run before, was not cancelled, the
service is not shut down, and it comes after those that ran before it in the same firing. -/
structure Proper (past : List Happened) (node : Node) (now : Int) : Prop where
  scheduled : .scheduled node ∈ past
  due : node.deadline ≤ now
  first : ∀ m t, .ran m t ∈ past → m.id ≠ node.id
  notCancelled : .cancelled node.id ∉ past
  running : .shutdown ∉ past
  ordered : ∀ m t, .ran m t ∈ batch past → later node m = true

/-- What holds of the service while it has `due` taken out of its heap. -/
structure Inv (due : List Node) (c : TimerServiceCore) : Prop where
  proper : ∀ front node now back, c.past = front ++ .ran node now :: back → Proper back node now
  heapOrder : InOrder c.heap
  dueOrder : InOrder due
  distinct : ((due ++ c.heap).map (·.id)).Nodup
  known : ∀ n ∈ due ++ c.heap, .scheduled n ∈ c.past
  issued : ∀ n, .scheduled n ∈ c.past → n.id < c.nextId
  unissued : ∀ id, c.nextId ≤ id → .cancelled id ∉ c.past
  notRan : ∀ n ∈ due ++ c.heap, ∀ m t, .ran m t ∈ c.past → m.id ≠ n.id
  marked : c.stopped = false → ∀ n ∈ due ++ c.heap, .cancelled n.id ∈ c.past → n.id ∈ c.cancelled
  marks : ∀ id ∈ c.cancelled, .cancelled id ∈ c.past
  behind : ∀ n ∈ due, ∀ m t, .ran m t ∈ batch c.past → later n m = true
  account : ∀ n, .scheduled n ∈ c.past → n.callback = true →
    (∃ t, .ran n t ∈ c.past) ∨ .cancelled n.id ∈ c.past ∨ n ∈ due ++ c.heap ∨ .shutdown ∈ c.past
  stop : c.stopped = true ↔ .shutdown ∈ c.past
  cleared : c.stopped = true → c.heap = []
  firing : c.inFireDue = false → due = []
  wait : ∀ d, c.armedDeadline = some d → (c.waiting = true ∧ c.expiry = d) ∨ 0 < c.ready

/-- A wait is armed for the front of the heap or earlier. -/
def Armed (c : TimerServiceCore) : Prop :=
  c.stopped = false → ∀ top rest, c.heap = top :: rest →
    ∃ d, c.armedDeadline = some d ∧ d ≤ top.deadline

theorem inv_start : Inv [] {} := by
  refine ⟨?_, .nil, .nil, ?_, ?_, ?_, ?_, ?_, ?_, ?_, ?_, ?_, ?_, ?_, ?_, ?_⟩ <;> simp

theorem armed_rearm (c : TimerServiceCore) : Armed c.rearm := by
  intro hs top rest hh
  unfold rearm at hs hh ⊢
  cases hheap : c.heap with
  | nil => simp [hheap] at hh
  | cons first nodes =>
    simp only [hheap] at hs hh ⊢
    split at hs
    next hstop => simp [hstop] at hs
    next hstop =>
      rw [if_neg hstop] at hh ⊢
      cases ha : c.armedDeadline with
      | none =>
        simp only [ha] at hh ⊢
        cases hh
        exact ⟨_, rfl, Int.le_refl _⟩
      | some armed =>
        simp only [ha] at hh ⊢
        split at hh
        next hle =>
          rw [if_pos hle]
          cases hheap.symm.trans hh
          exact ⟨armed, ha, hle⟩
        next hle =>
          rw [if_neg hle]
          cases hh
          exact ⟨_, rfl, Int.le_refl _⟩

/-- What `rearm` leaves alone, and what it does to the wait. -/
theorem rearm_spec (c : TimerServiceCore) :
    ∃ armed expiry waiting,
      c.rearm = { c with armedDeadline := armed, expiry := expiry, waiting := waiting } ∧
        (armed = none ∨ (armed = c.armedDeadline ∧ expiry = c.expiry ∧ waiting = c.waiting) ∨
          (armed = some expiry ∧ waiting = true)) := by
  unfold rearm
  split
  · exact ⟨none, c.expiry, c.waiting, rfl, .inl rfl⟩
  next top _ _ =>
    split
    · exact ⟨none, c.expiry, c.waiting, rfl, .inl rfl⟩
    · split
      · split
        · exact ⟨c.armedDeadline, c.expiry, c.waiting, rfl, .inr (.inl ⟨rfl, rfl, rfl⟩)⟩
        · exact ⟨some top.deadline, top.deadline, true, rfl, .inr (.inr ⟨rfl, rfl⟩)⟩
      · exact ⟨some top.deadline, top.deadline, true, rfl, .inr (.inr ⟨rfl, rfl⟩)⟩

theorem Inv.rearm (h : Inv due c) : Inv due c.rearm := by
  obtain ⟨armed, expiry, waiting, he, hw⟩ := rearm_spec c
  rw [he]
  refine { h with wait := fun d hd => ?_ }
  dsimp only at hd ⊢
  rcases hw with rfl | ⟨rfl, rfl, rfl⟩ | ⟨rfl, rfl⟩
  · cases hd
  · exact h.wait d hd
  · exact .inl ⟨rfl, Option.some.inj hd⟩

theorem proper_cons {past : List Happened}
    (hp : ∀ front node now back, past = front ++ .ran node now :: back → Proper back node now)
    (hr : ∀ n t, h ≠ .ran n t) (front : List Happened) (node : Node) (now : Int)
    (back : List Happened) (he : h :: past = front ++ .ran node now :: back) :
    Proper back node now := by
  cases front with
  | nil =>
    cases he
    exact absurd rfl (hr node now)
  | cons x front =>
    cases he
    exact hp front node now back rfl

theorem ran_batch_of_cons {log : List Happened} (hx : ∀ m t, x ≠ .ran m t)
    (h : .ran m t ∈ batch (x :: log)) : .ran m t ∈ batch log := by
  unfold batch at h
  rw [List.takeWhile_cons] at h
  split at h
  · exact (List.mem_cons.mp h).resolve_left fun he => hx m t he.symm
  · cases h

theorem Inv.schedule (h : Inv due c) (deadline : Int) (callback : Bool) :
    Inv due (c.schedule deadline callback).1 := by
  unfold TimerServiceCore.schedule
  split
  · exact h
  next hs =>
    have hs : c.stopped = false := Bool.eq_false_iff.mpr hs
    refine Inv.rearm ?_
    have hfresh : ∀ n ∈ due ++ c.heap, n.id < c.nextId := fun n hn => h.issued n (h.known n hn)
    have hmem : ∀ n, n ∈ due ++ c.heap.orderedInsert (fun a b => later b a = true)
        ⟨deadline, c.nextId, callback⟩ ↔ n = ⟨deadline, c.nextId, callback⟩ ∨ n ∈ due ++ c.heap := by
      intro n
      simp only [List.mem_append, List.mem_orderedInsert]
      tauto
    constructor
    case proper => exact proper_cons h.proper (by simp)
    case heapOrder =>
      refine inOrder_push _ _ h.heapOrder fun n hn => ?_
      exact Nat.ne_of_lt (hfresh n (List.mem_append_right _ hn))
    case dueOrder => exact h.dueOrder
    case distinct =>
      have hperm : ((due ++ c.heap.orderedInsert (fun a b => later b a = true)
          ⟨deadline, c.nextId, callback⟩).map (·.id)).Perm
            (c.nextId :: (due ++ c.heap).map (·.id)) :=
        (((List.perm_orderedInsert _ _ c.heap).append_left due).trans List.perm_middle).map _
      refine hperm.nodup_iff.mpr (List.nodup_cons.mpr ⟨fun hi => ?_, h.distinct⟩)
      obtain ⟨n, hn, he⟩ := List.mem_map.mp hi
      exact Nat.ne_of_lt (hfresh n hn) he
    case known =>
      intro n hn
      rcases (hmem n).mp hn with rfl | hn
      · exact List.mem_cons_self
      · exact .tail _ (h.known n hn)
    case issued =>
      intro n hn
      rcases List.mem_cons.mp hn with he | hn
      · cases he
        exact Nat.lt_succ_self _
      · exact Nat.lt_succ_of_lt (h.issued n hn)
    case unissued =>
      intro id hid hc
      rcases List.mem_cons.mp hc with he | hc
      · cases he
      · exact h.unissued id (Nat.le_of_succ_le hid) hc
    case notRan =>
      intro n hn m t hm
      rcases List.mem_cons.mp hm with he | hm
      · cases he
      rcases (hmem n).mp hn with rfl | hn
      · -- What ran was scheduled, so that its id is smaller.
        obtain ⟨front, back, he⟩ := List.append_of_mem hm
        have hp := (h.proper front m t back he).scheduled
        exact Nat.ne_of_lt (h.issued m (he ▸ List.mem_append_right _ (.tail _ hp)))
      · exact h.notRan n hn m t hm
    case marked =>
      intro _ n hn hc
      rcases List.mem_cons.mp hc with he | hc
      · cases he
      rcases (hmem n).mp hn with rfl | hn
      · exact absurd hc (h.unissued _ (Nat.le_refl _))
      · exact h.marked hs n hn hc
    case marks => exact fun id hid => .tail _ (h.marks id hid)
    case behind =>
      exact fun n hn m t hm => h.behind n hn m t (ran_batch_of_cons (by simp) hm)
    case account =>
      intro n hn hcb
      rcases List.mem_cons.mp hn with he | hn
      · cases he
        exact .inr (.inr (.inl ((hmem _).mpr (.inl rfl))))
      · rcases h.account n hn hcb with ⟨t, ht⟩ | hc | hq | hd
        · exact .inl ⟨t, .tail _ ht⟩
        · exact .inr (.inl (.tail _ hc))
        · exact .inr (.inr (.inl ((hmem n).mpr (.inr hq))))
        · exact .inr (.inr (.inr (.tail _ hd)))
    case stop =>
      change c.stopped = true ↔ _ ∈ _ :: c.past
      rw [h.stop]
      simp
    case cleared => exact fun ht => absurd ht (by simp [push, note, hs])
    case firing => exact h.firing
    case wait => exact h.wait

theorem mem_compactCancelled {c : TimerServiceCore} {n : Node}
    (h : n ∈ c.heap ∨ c.inFireDue = true) (hn : n.id ∈ c.cancelled) :
    n.id ∈ c.compactCancelled.cancelled := by
  unfold compactCancelled
  split
  · exact hn
  next hf =>
    split
    · exact hn
    · have hh : n ∈ c.heap := h.resolve_right hf
      simp only [List.mem_toFinset, List.mem_filter, decide_eq_true_eq]
      exact ⟨List.mem_map_of_mem hh, hn⟩

theorem compactCancelled_spec (c : TimerServiceCore) :
    ∃ marks, c.compactCancelled = { c with cancelled := marks } ∧ marks ⊆ c.cancelled := by
  unfold compactCancelled
  split
  · exact ⟨c.cancelled, rfl, Finset.Subset.refl _⟩
  · split
    · exact ⟨c.cancelled, rfl, Finset.Subset.refl _⟩
    · refine ⟨_, rfl, fun id hid => ?_⟩
      simp only [List.mem_toFinset, List.mem_filter, decide_eq_true_eq] at hid
      exact hid.2

theorem Inv.compactCancelled (h : Inv due c) : Inv due c.compactCancelled := by
  have hmem : ∀ n ∈ due ++ c.heap, n.id ∈ c.cancelled → n.id ∈ c.compactCancelled.cancelled := by
    intro n hn hc
    refine mem_compactCancelled ?_ hc
    cases hf : c.inFireDue with
    | true => exact .inr rfl
    | false =>
      rw [h.firing hf, List.nil_append] at hn
      exact .inl hn
  obtain ⟨marks, he, hsub⟩ := compactCancelled_spec c
  rw [he] at hmem ⊢
  exact { h with
    marked := fun hs n hn hc => hmem n hn (h.marked hs n hn hc)
    marks := fun id hid => h.marks id (hsub hid) }

theorem Inv.mark {id : Nat} (h : Inv due c) (hid : id < c.nextId) :
    Inv due { c.note (.cancelled id) with cancelled := insert id c.cancelled } where
  proper := proper_cons h.proper (by simp)
  heapOrder := h.heapOrder
  dueOrder := h.dueOrder
  distinct := h.distinct
  known := fun n hn => .tail _ (h.known n hn)
  issued := fun n hn => h.issued n ((List.mem_cons.mp hn).resolve_left (by simp))
  unissued := fun i hi hc => by
    rcases List.mem_cons.mp hc with he | hc
    · cases he
      exact Nat.lt_irrefl _ (Nat.lt_of_lt_of_le hid hi)
    · exact h.unissued i hi hc
  notRan := fun n hn m t hm =>
    h.notRan n hn m t ((List.mem_cons.mp hm).resolve_left (by simp))
  marked := fun hs n hn hc => by
    rcases List.mem_cons.mp hc with he | hc
    · cases he
      exact Finset.mem_insert_self _ _
    · exact Finset.mem_insert_of_mem (h.marked hs n hn hc)
  marks := fun i hi => by
    rcases Finset.mem_insert.mp hi with rfl | hi
    · exact List.mem_cons_self
    · exact .tail _ (h.marks i hi)
  behind := fun n hn m t hm => h.behind n hn m t (ran_batch_of_cons (by simp) hm)
  account := fun n hn hcb => by
    rcases h.account n ((List.mem_cons.mp hn).resolve_left (by simp)) hcb with
      ⟨t, ht⟩ | hc | hq | hd
    · exact .inl ⟨t, .tail _ ht⟩
    · exact .inr (.inl (.tail _ hc))
    · exact .inr (.inr (.inl hq))
    · exact .inr (.inr (.inr (.tail _ hd)))
  stop := by
    change c.stopped = true ↔ _ ∈ _ :: c.past
    rw [h.stop]
    simp
  cleared := h.cleared
  firing := h.firing
  wait := h.wait

theorem Inv.cancel (h : Inv due c) (id : Nat) : Inv due (c.cancel id).1 := by
  unfold TimerServiceCore.cancel
  split
  · exact h
  next hg =>
    simp only [Bool.or_eq_true, decide_eq_true_eq, not_or, Nat.not_le] at hg
    have hmark := h.mark hg.2
    dsimp only
    split
    next hm =>
      have hm : id ∈ c.cancelled := hm
      rw [Finset.insert_eq_of_mem hm] at hmark
      exact hmark
    · exact hmark.compactCancelled

theorem Inv.shutdown (h : Inv due c) : Inv due c.shutdown := by
  unfold TimerServiceCore.shutdown
  split
  · exact h
  · exact {
      proper := proper_cons h.proper (by simp)
      heapOrder := .nil
      dueOrder := h.dueOrder
      distinct := by
        refine h.distinct.sublist ?_
        rw [List.append_nil, List.map_append]
        exact List.sublist_append_left _ _
      known := fun n hn => .tail _ (h.known n (by simp at hn; simp [hn]))
      issued := fun n hn => h.issued n ((List.mem_cons.mp hn).resolve_left (by simp))
      unissued := fun i hi hc => h.unissued i hi ((List.mem_cons.mp hc).resolve_left (by simp))
      notRan := fun n hn m t hm => h.notRan n (by simp at hn; simp [hn]) m t
        ((List.mem_cons.mp hm).resolve_left (by simp))
      marked := fun hs => absurd hs (by simp)
      marks := by simp
      behind := fun n hn m t hm => h.behind n hn m t (ran_batch_of_cons (by simp) hm)
      account := fun _ _ _ => .inr (.inr (.inr List.mem_cons_self))
      stop := by simp [note]
      cleared := fun _ => rfl
      firing := h.firing
      wait := by simp }

theorem Inv.call (h : Inv due c) (call : Call) : Inv due (c.call call) := by
  cases call with
  | schedule deadline callback => exact h.schedule deadline callback
  | scheduleAfter delay now callback => exact h.schedule _ callback
  | cancel id => exact h.cancel id
  | shutdown => exact h.shutdown

theorem Inv.calls (h : Inv due c) (calls : List Call) : Inv due (calls.foldl TimerServiceCore.call c) :=
  List.foldlRecOn _ _ h fun _ hc call _ => hc.call call

theorem Inv.apart (h : Inv (node :: due) c) : ∀ n ∈ due ++ c.heap, n.id ≠ node.id := by
  intro n hn he
  have hd : (node.id :: (due ++ c.heap).map (·.id)).Nodup := h.distinct
  exact (List.nodup_cons.mp hd).1 (List.mem_map.mpr ⟨n, hn, he⟩)

theorem Inv.forget (h : Inv (node :: due) c)
    (ha : .scheduled node ∈ c.past → node.callback = true →
      (∃ t, .ran node t ∈ c.past) ∨ .cancelled node.id ∈ c.past ∨ .shutdown ∈ c.past) :
    Inv due c := by
  have hmem : ∀ n ∈ due ++ c.heap, n ∈ node :: due ++ c.heap := fun n hn => .tail _ hn
  exact { h with
    dueOrder := (List.pairwise_cons.mp h.dueOrder).2
    distinct := (List.nodup_cons.mp h.distinct).2
    known := fun n hn => h.known n (hmem n hn)
    notRan := fun n hn => h.notRan n (hmem n hn)
    marked := fun hs n hn => h.marked hs n (hmem n hn)
    behind := fun n hn => h.behind n (.tail _ hn)
    firing := fun hf => by cases h.firing hf
    account := fun n hn hcb => by
      rcases h.account n hn hcb with hr | hc | hq | hd
      · exact .inl hr
      · exact .inr (.inl hc)
      · rcases List.mem_cons.mp hq with rfl | hq
        · rcases ha hn hcb with hr | hc | hd
          · exact .inl hr
          · exact .inr (.inl hc)
          · exact .inr (.inr (.inr hd))
        · exact .inr (.inr (.inl hq))
      · exact .inr (.inr (.inr hd)) }

/-- The nodes that are left when a callback shut the service down are dropped. -/
theorem Inv.abandon (due : List Node) (h : Inv due c) (hs : c.stopped = true) : Inv [] c := by
  induction due with
  | nil => exact h
  | cons node due ih => exact ih (h.forget fun _ _ => .inr (.inr (h.stop.mp hs)))

theorem Inv.skip (h : Inv (node :: due) c) (hm : node.id ∈ c.cancelled) :
    Inv due { c with cancelled := c.cancelled.erase node.id } := by
  have hf := h.forget fun _ _ => .inr (.inl (h.marks _ hm))
  exact { hf with
    marked := fun hs n hn hc => Finset.mem_erase.mpr ⟨h.apart n hn, hf.marked hs n hn hc⟩
    marks := fun id hid => hf.marks id (Finset.mem_of_mem_erase hid) }

theorem Inv.ran (h : Inv (node :: due) c) (hs : c.stopped = false) (hm : node.id ∉ c.cancelled)
    (hdue : node.deadline ≤ now) : Inv due (c.note (.ran node now)) := by
  have hself : node ∈ node :: due ++ c.heap := List.mem_cons_self
  have hproper : Proper c.past node now := {
    scheduled := h.known node hself
    due := hdue
    first := h.notRan node hself
    notCancelled := fun hc => hm (h.marked hs node hself hc)
    running := fun hd => by simp [h.stop.mpr hd] at hs
    ordered := fun m t hmt => h.behind node List.mem_cons_self m t hmt }
  have hmem : ∀ n ∈ due ++ c.heap, n ∈ node :: due ++ c.heap := fun n hn => .tail _ hn
  exact {
    proper := fun front n t back he => by
      cases front with
      | nil =>
        cases he
        exact hproper
      | cons x front => exact h.proper front n t back (List.cons.inj he).2
    heapOrder := h.heapOrder
    dueOrder := (List.pairwise_cons.mp h.dueOrder).2
    distinct := (List.nodup_cons.mp h.distinct).2
    known := fun n hn => .tail _ (h.known n (hmem n hn))
    issued := fun n hn => h.issued n ((List.mem_cons.mp hn).resolve_left (by simp))
    unissued := fun i hi hc => h.unissued i hi ((List.mem_cons.mp hc).resolve_left (by simp))
    notRan := fun n hn m t hmt => by
      rcases List.mem_cons.mp hmt with he | hmt
      · cases he
        exact (h.apart n hn).symm
      · exact h.notRan n (hmem n hn) m t hmt
    marked := fun hs n hn hc =>
      h.marked hs n (hmem n hn) ((List.mem_cons.mp hc).resolve_left (by simp))
    marks := fun i hi => .tail _ (h.marks i hi)
    behind := fun n hn m t hmt => by
      have hb : batch (.ran node now :: c.past) = .ran node now :: batch c.past := by simp [batch]
      change _ ∈ batch (.ran node now :: c.past) at hmt
      rw [hb] at hmt
      rcases List.mem_cons.mp hmt with he | hmt
      · cases he
        exact (List.pairwise_cons.mp h.dueOrder).1 n hn
      · exact h.behind n (.tail _ hn) m t hmt
    account := fun n hn hcb => by
      rcases h.account n ((List.mem_cons.mp hn).resolve_left (by simp)) hcb with
        ⟨t, ht⟩ | hc | hq | hd
      · exact .inl ⟨t, .tail _ ht⟩
      · exact .inr (.inl (.tail _ hc))
      · rcases List.mem_cons.mp hq with rfl | hq
        · exact .inl ⟨now, List.mem_cons_self⟩
        · exact .inr (.inr (.inl hq))
      · exact .inr (.inr (.inr (.tail _ hd)))
    stop := by
      change c.stopped = true ↔ _ ∈ _ :: c.past
      rw [h.stop]
      simp
    cleared := h.cleared
    firing := fun hf => by cases h.firing hf
    wait := h.wait }

/-- The whole batch: each node is skipped, run with what its callback calls, or dropped. -/
theorem Inv.runDue (calls : Nat → List Call) (now : Int) (due : List Node) :
    ∀ c : TimerServiceCore, Inv due c → (∀ n ∈ due, n.deadline ≤ now) →
      Inv [] (TimerServiceCore.runDue calls now due c) := by
  induction due with
  | nil => exact fun c h _ => h
  | cons node due ih =>
    intro c h hdue
    have hrest : ∀ n ∈ due, n.deadline ≤ now := fun n hn => hdue n (.tail _ hn)
    rw [TimerServiceCore.runDue]
    split
    next hs => exact h.abandon _ hs
    next hs =>
      have hs : c.stopped = false := Bool.eq_false_iff.mpr hs
      split
      next hm => exact ih _ (h.skip hm) hrest
      next hm =>
        split
        · exact ih _ ((h.ran hs hm (hdue node List.mem_cons_self)).calls _) hrest
        next hcb => exact ih _ (h.forget fun _ ht => absurd ht hcb) hrest

theorem Inv.takeOut {c : TimerServiceCore} (h : Inv [] { c with armedDeadline := none }) (now : Int) :
    Inv (c.heap.takeWhile (·.deadline ≤ now))
      { c with armedDeadline := none, past := .fired :: c.past, inFireDue := true,
               heap := c.heap.dropWhile (·.deadline ≤ now) } := by
  have hsplit : c.heap.takeWhile (·.deadline ≤ now) ++ c.heap.dropWhile (·.deadline ≤ now) =
      c.heap := List.takeWhile_append_dropWhile
  have hbatch : batch (.fired :: c.past) = [] := by simp [batch]
  have hord : InOrder (c.heap.takeWhile (·.deadline ≤ now) ++
      c.heap.dropWhile (·.deadline ≤ now)) := hsplit.symm ▸ h.heapOrder
  obtain ⟨htake, hdrop, _⟩ := List.pairwise_append.mp hord
  exact {
    proper := proper_cons h.proper (by simp)
    heapOrder := hdrop
    dueOrder := htake
    distinct := by
      rw [hsplit]
      exact h.distinct
    known := fun n hn => .tail _ (h.known n (hsplit ▸ hn))
    issued := fun n hn => h.issued n ((List.mem_cons.mp hn).resolve_left (by simp))
    unissued := fun i hi hc => h.unissued i hi ((List.mem_cons.mp hc).resolve_left (by simp))
    notRan := fun n hn m t hm =>
      h.notRan n (hsplit ▸ hn) m t ((List.mem_cons.mp hm).resolve_left (by simp))
    marked := fun hs n hn hc =>
      h.marked hs n (hsplit ▸ hn) ((List.mem_cons.mp hc).resolve_left (by simp))
    marks := fun i hi => .tail _ (h.marks i hi)
    behind := fun n hn m t hm => by
      dsimp only at hm
      rw [hbatch] at hm
      cases hm
    account := fun n hn hcb => by
      rcases h.account n ((List.mem_cons.mp hn).resolve_left (by simp)) hcb with
        ⟨t, ht⟩ | hc | hq | hd
      · exact .inl ⟨t, .tail _ ht⟩
      · exact .inr (.inl (.tail _ hc))
      · exact .inr (.inr (.inl (hsplit.symm ▸ hq)))
      · exact .inr (.inr (.inr (.tail _ hd)))
    stop := by
      dsimp only
      rw [h.stop]
      simp
    cleared := fun hs => by
      dsimp only at hs ⊢
      rw [h.cleared hs]
      rfl
    firing := fun hf => by cases hf
    wait := by simp }

theorem Inv.fireDue {c : TimerServiceCore} (h : Inv [] { c with armedDeadline := none })
    (calls : Nat → List Call) (now : Int) :
    Inv [] (c.fireDue calls now) ∧ Armed (c.fireDue calls now) := by
  unfold TimerServiceCore.fireDue
  dsimp only
  split
  next hs => exact ⟨h, fun hr => absurd hr (by simp [hs])⟩
  · have hrun := (h.takeOut now).runDue calls now _ _ fun n hn => by
      simpa using List.mem_takeWhile_imp hn
    exact ⟨{ hrun.rearm with firing := fun _ => rfl }, armed_rearm _⟩

theorem Armed.compactCancelled (h : Armed c) : Armed c.compactCancelled := by
  obtain ⟨marks, he, _⟩ := compactCancelled_spec c
  rw [he]
  exact h

theorem Armed.call (h : Armed c) (call : Call) : Armed (c.call call) := by
  have hsched : ∀ deadline callback, Armed (c.schedule deadline callback).1 := by
    intro deadline callback
    unfold schedule
    split
    · exact h
    · exact armed_rearm _
  cases call with
  | schedule deadline callback => exact hsched deadline callback
  | scheduleAfter delay now callback => exact hsched _ callback
  | cancel id =>
    change Armed (c.cancel id).1
    unfold cancel
    split
    · exact h
    · dsimp only
      split
      · exact h
      · refine Armed.compactCancelled ?_
        exact h
  | shutdown =>
    change Armed c.shutdown
    unfold shutdown
    split
    · exact h
    · exact fun hs => absurd hs (by simp)

theorem inv_step {s s' : TimerService} (h : Inv [] s.core ∧ Armed s.core) (e : TimerEvent)
    (hs : s.step e = some s') : Inv [] s'.core ∧ Armed s'.core := by
  cases e with
  | call call =>
    cases hs
    exact ⟨h.1.call call, h.2.call call⟩
  | expire now =>
    obtain ⟨-, rfl⟩ := Option.ite_some_none_eq_some.1 hs
    exact ⟨{ h.1 with wait := fun _ _ => .inr (Nat.succ_pos _) }, h.2⟩
  | handle calls now =>
    obtain ⟨-, rfl⟩ := Option.ite_some_none_eq_some.1 hs
    -- The handler that runs is no longer there to back an armed deadline.
    have hnone : Inv [] { s.core with ready := s.core.ready - 1, armedDeadline := none } :=
      { h.1 with wait := by simp }
    exact Inv.fireDue (c := { s.core with ready := s.core.ready - 1 }) hnone calls now

theorem inv_run (events : List TimerEvent) :
    ∀ s s' : TimerService, Inv [] s.core ∧ Armed s.core → s.run events = some s' →
      Inv [] s'.core ∧ Armed s'.core := by
  intro s s' h hr
  exact Runs.accepted (P := fun s _ => Inv [] s.core ∧ Armed s.core) (fun _ e _ _ h hs => inv_step h e hs) h hr

theorem InOrder.head_le (h : InOrder (top :: nodes)) (hn : n ∈ top :: nodes) :
    top.deadline ≤ n.deadline := by
  rcases List.mem_cons.mp hn with rfl | hn
  · exact Int.le_refl _
  · have hl := (List.pairwise_cons.mp h).1 n hn
    rw [later_iff] at hl
    omega

/-- What the service promises in every state between its firings. -/
structure Contract (c : TimerServiceCore) : Prop where
  /-- Whatever ran, ran properly, given what had happened until then. -/
  proper : ∀ front node now back, c.past = front ++ .ran node now :: back → Proper back node now
  /-- For every node in the heap a wait is armed that does not end after its deadline: the timer
  waits, or its handler is on the way. -/
  armed : c.stopped = false → ∀ node ∈ c.heap, ∃ d, c.armedDeadline = some d ∧
    d ≤ node.deadline ∧ ((c.waiting = true ∧ c.expiry = d) ∨ 0 < c.ready)
  /-- No callback is lost. -/
  account : ∀ node, .scheduled node ∈ c.past → node.callback = true →
    (∃ now, .ran node now ∈ c.past) ∨ .cancelled node.id ∈ c.past ∨ node ∈ c.heap ∨
      .shutdown ∈ c.past

/-- Every run of the service, with calls from callbacks and handlers that come late, keeps the
contract. -/
theorem timer_contract (clock : Int) (events : List TimerEvent) (s : TimerService)
    (h : TimerService.run { clock } events = some s) : Contract s.core := by
  have hstart : Armed {} := fun _ top rest hh => by cases hh
  obtain ⟨hi, ha⟩ := inv_run events { clock } s ⟨inv_start, hstart⟩ h
  refine ⟨hi.proper, fun hs node hn => ?_, hi.account⟩
  cases hh : s.core.heap with
  | nil => simp [hh] at hn
  | cons top nodes =>
    obtain ⟨d, hd, hle⟩ := ha hs top nodes hh
    have hord := hi.heapOrder
    rw [hh] at hn hord
    exact ⟨d, hd, Int.le_trans hle (hord.head_le hn), hi.wait d hd⟩

/-- Two callbacks of one batch, of which the first cancels the second. -/
def sameBatch : List TimerEvent :=
  [.call (.schedule 5 true), .call (.schedule 5 true), .expire 6,
    .handle (fun id => if id = 1 then [.cancel 2] else []) 7]

theorem timer_contract_same_batch :
    ∃ s, TimerService.run { clock := 0 } sameBatch = some s ∧
      .ran ⟨5, 1, true⟩ 7 ∈ s.core.past ∧ .ran ⟨5, 2, true⟩ 7 ∉ s.core.past ∧ Contract s.core :=
  ⟨_, rfl, by decide, by decide, timer_contract 0 sameBatch _ rfl⟩

end Hical.Timer
