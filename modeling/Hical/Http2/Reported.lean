import Hical.Http2.Frames

namespace Hical.Http2

open Transducer Acknowledged

theorem filter_le_split {l : List (Nat × β)} (h : l.Pairwise fun x y => x.1 < y.1) (hab : a ≤ b) :
    l.filter (fun x => decide (x.1 ≤ b)) =
      l.filter (fun x => decide (x.1 ≤ a)) ++ l.filter (fun x => decide (a < x.1 ∧ x.1 ≤ b)) := by
  induction l with
  | nil => rfl
  | cons x l ih =>
    have hl := ih h.of_cons
    by_cases ha : x.1 ≤ a
    · rw [List.filter_cons_of_pos (by exact decide_eq_true (ha.trans hab)),
        List.filter_cons_of_pos (by exact decide_eq_true ha),
        List.filter_cons_of_neg (by simp only [decide_eq_true_eq]; omega), hl, List.cons_append]
    · have hnone : (x :: l).filter (fun x => decide (x.1 ≤ a)) = [] := by
        apply List.filter_eq_nil_iff.mpr
        intro y hy
        simp only [decide_eq_true_eq]
        obtain rfl | hy := List.mem_cons.mp hy
        · exact ha
        · have := List.rel_of_pairwise_cons h hy
          omega
      rw [hnone, List.nil_append]
      apply List.filter_congr
      intro y hy
      simp only [decide_eq_decide]
      obtain rfl | hy := List.mem_cons.mp hy
      · omega
      · have := List.rel_of_pairwise_cons h hy
        omega

namespace WellFormed
variable {role : Role} {frames : List Frame}

theorem out_prefix (hw : WellFormed frames) (h : w <+: wireOf role frames) :
    (run octet (Output.start role).parser w).out =
      ((endings (prefaceOf role).length [] frames).filter fun x => decide (x.1 ≤ w.length)).map
        Prod.snd := by
  induction hw generalizing w with
  | nil =>
    rw [wireOf, List.flatMap_nil, List.append_nil] at h
    rw [run_preface (h.length_le.trans (length_prefaceOf role).le)]
    rfl
  | snoc frames f hframes hopen hclosed hstream hended ih =>
    have hlen : (wireOf role frames).length = (prefaceOf role).length + (encoded frames).length := by
      rw [wireOf, List.length_append]
      rfl
    have hpos : 0 < f.encode.length := List.length_pos_of_ne_nil f.encode_ne_nil
    rw [endings_snoc, List.filter_append, List.map_append, length_encoded_snoc]
    obtain hle | hlt := le_or_gt w.length (wireOf role frames).length
    · rw [wireOf_snoc] at h
      rw [ih (List.prefix_of_prefix_length_le h (List.prefix_append _ _) hle)]
      split
      · rw [List.filter_cons_of_neg (by simp only [decide_eq_true_eq]; omega)]
        exact (List.append_nil _).symm
      · exact (List.append_nil _).symm
    · rw [wireOf_snoc] at h
      obtain ⟨w, rfl⟩ : wireOf role frames <+: w :=
        List.prefix_of_prefix_length_le (List.prefix_append _ _) h hlt.le
      have hpart : w <+: f.encode := (List.prefix_append_right_inj _).mp h
      have hrun := hframes.run_wire role
      have hbefore := ih (List.prefix_refl (wireOf role frames))
      have hall : (endings (prefaceOf role).length [] frames).filter
            (fun x => decide (x.1 ≤ (wireOf role frames ++ w).length)) =
          endings (prefaceOf role).length [] frames := by
        apply List.filter_eq_self.mpr
        intro x hx
        have := endings_le hx
        rw [List.length_append]
        exact decide_eq_true (by omega)
      have hids : (endings 0 [] frames).map Prod.snd =
          (endings (prefaceOf role).length [] frames).map Prod.snd := endings_snd _ _ _ _
      rw [Acknowledged.run_append, hrun, hall, Run.after, hids]
      by_cases hfull : w = f.encode
      · rw [hfull, f.run_encode,
          ended_step hopen hclosed fun h hb => hframes.openBlock_ne (b := h) hb]
        split
        · rw [List.filter_cons_of_pos (by
            rw [List.length_append, hlen, Nat.add_assoc]
            exact decide_eq_true (Nat.le_refl _))]
          rfl
        · rfl
      · rw [f.run_part _ hpart hfull]
        have hshort : w.length < f.encode.length := by
          apply lt_of_le_of_ne hpart.length_le
          exact fun he => hfull (hpart.eq_of_length he)
        split
        · rw [List.filter_cons_of_neg (by
            rw [List.length_append]
            simp only [decide_eq_true_eq]
            omega)]
          rfl
        · rfl

theorem out_piece (hw : WellFormed frames) (h : u ++ w <+: wireOf role frames) :
    (run octet (run octet (Output.start role).parser u).state w).out =
      ((endings (prefaceOf role).length [] frames).filter
        fun x => decide (u.length < x.1 ∧ x.1 ≤ (u ++ w).length)).map Prod.snd := by
  have hu := hw.out_prefix ((List.prefix_append u w).trans h)
  have hall := hw.out_prefix h
  rw [Acknowledged.run_append, Run.after, filter_le_split (pairwise_endings _ _)
    (List.length_append ▸ Nat.le_add_right _ _), List.map_append, ← hu] at hall
  exact List.append_cancel_left hall

theorem nodup_out (hw : WellFormed frames) (h : w <+: wireOf role frames) :
    (run octet (Output.start role).parser w).out.Nodup := by
  rw [hw.out_prefix h]
  apply List.Nodup.sublist (List.filter_sublist.map _)
  rw [endings_snd _ 0]
  exact hw.nodup_endings

end WellFormed

namespace Output

/-- What happens to an output, the writes piece by piece. -/
inductive Input where
  | change (c : Change)
  | nextBatch (during : List Change) (sent : Except NetworkError Bytes)
  | acknowledge (bytesWritten : Nat)

/-- What happens to an output, the writes octet by octet. -/
inductive Moment where
  | change (c : Change)
  | written (b : UInt8)

/-- An output with what went through it. -/
structure History where
  output : Output
  /-- All batches, one behind the other. -/
  sent : Bytes := []
  acknowledged : Bytes := []
  reported : List Int := []
  moments : List Moment := []

namespace History

def step (r : History) : Input → History
  | .change c => { r with output := r.output.change c, moments := r.moments ++ [.change c] }
  | .nextBatch during sent =>
    if r.output.closed ∨ r.output.offset < r.output.batch.length then r
    else
      { r with
        output := r.output.nextBatch during sent
        sent := match sent with
          | .ok bytes => r.sent ++ bytes
          | .error _ => r.sent
        moments := match sent with
          | .ok _ => r.moments ++ during.map .change
          | .error _ => r.moments ++ during.map .change ++ [.change .close] }
  | .acknowledge bytesWritten =>
    if r.output.remaining.length < bytesWritten then r
    else
      { r with
        output := (r.output.acknowledge bytesWritten).1
        acknowledged := r.acknowledged ++ r.output.remaining.take bytesWritten
        reported := r.reported ++ (r.output.acknowledge bytesWritten).2.endedStreams
        moments := r.moments ++ (r.output.remaining.take bytesWritten).map .written }

end History

def history (role : Role) (inputs : List Input) : History :=
  inputs.foldl History.step { output := start role }

@[simp] theorem length_remaining (s : Output) : s.remaining.length = s.batch.length - s.offset := by
  rw [remaining, List.length_drop]

section Acknowledge
variable {s : Output} {n : Nat}

def endsIn (s : Output) (w : Bytes) : List Int :=
  if s.closed then [] else (run octet s.parser w).out.filter (· ∈ s.pendingEnds)

theorem acknowledge_ended (h : n ≤ s.remaining.length) :
    (s.acknowledge n).2.endedStreams = s.endsIn (s.remaining.take n) := by
  rw [length_remaining] at h
  rw [acknowledge, dif_neg (not_lt.mpr h), endsIn]
  dsimp only
  split
  · rfl
  · rw [parseAcknowledged_eq]
    rfl

theorem acknowledge_refused (h : s.remaining.length < n) : (s.acknowledge n).2.endedStreams = [] := by
  rw [length_remaining] at h
  rw [acknowledge, dif_pos h]

theorem acknowledge_closed : (s.acknowledge n).1.closed = s.closed := by
  rw [acknowledge]
  split
  · rfl
  · dsimp only
    split
    · rfl
    · rfl

theorem acknowledge_pendingEnds (h : n ≤ s.remaining.length) :
    (s.acknowledge n).1.pendingEnds =
      (s.endsIn (s.remaining.take n)).foldl Finset.erase s.pendingEnds := by
  rw [← acknowledge_ended h]
  rw [length_remaining] at h
  rw [acknowledge, dif_neg (not_lt.mpr h)]
  dsimp only
  split
  · rfl
  · rfl

theorem acknowledge_parsed (h : n ≤ s.remaining.length) (hc : s.closed = false) :
    (s.acknowledge n).1.parser = (run octet s.parser (s.remaining.take n)).state := by
  rw [length_remaining] at h
  rw [acknowledge, dif_neg (not_lt.mpr h)]
  simp only [hc, parseAcknowledged_eq, Bool.false_eq_true, ↓reduceIte]
  split
  · rfl
  · rfl

theorem acknowledge_parsed_closed (hc : s.closed = true) : (s.acknowledge n).1.parser = s.parser := by
  rw [acknowledge]
  split
  · rfl
  · simp only [hc]
    split
    · rfl
    · rfl

theorem acknowledge_remaining (h : n ≤ s.remaining.length) :
    (s.acknowledge n).1.remaining = s.remaining.drop n := by
  have hlen := h
  rw [length_remaining] at hlen
  rw [acknowledge, dif_neg (not_lt.mpr hlen)]
  dsimp only
  split
  · rename_i hall
    rw [List.drop_eq_nil_of_le (by rw [length_remaining]; omega)]
    rfl
  · exact (List.drop_drop).symm

end Acknowledge

section Change
variable {s : Output} {c : Change}

theorem change_remaining : (s.change c).remaining = s.remaining := by
  cases c with
  | submit id | close =>
    rw [change]
    split
    · rfl
    · rfl
  | cancel id => rfl

theorem change_parsed : (s.change c).parser = s.parser := by
  cases c with
  | submit id | close =>
    rw [change]
    split
    · rfl
    · rfl
  | cancel id => rfl

theorem change_open (h : (s.change c).closed = false) : s.closed = false := by
  cases c with
  | submit id =>
    rw [change] at h
    split at h
    · exact h
    · exact h
  | cancel id => exact h
  | close =>
    rw [change] at h
    split at h
    · exact h
    · cases h

/-- A closed output waits for no end. -/
def Settled (s : Output) : Prop := s.closed = true → s.pendingEnds = ∅

theorem Settled.change (h : s.Settled) : (s.change c).Settled := by
  cases c with
  | submit id =>
    rw [Output.change]
    split
    · exact h
    · rename_i hc
      exact fun h' => absurd h' hc
  | cancel id =>
    intro hc
    show s.pendingEnds.erase id = ∅
    rw [h hc, Finset.erase_empty]
  | close =>
    rw [Output.change]
    split
    · exact h
    · exact fun _ => rfl

end Change

section Changes
variable {s : Output} {cs : List Change}

theorem changes_parsed : (s.changes cs).parser = s.parser := by
  induction cs generalizing s with
  | nil => rfl
  | cons c cs ih =>
    show ((s.change c).changes cs).parser = s.parser
    rw [ih, change_parsed]

theorem changes_remaining : (s.changes cs).remaining = s.remaining := by
  induction cs generalizing s with
  | nil => rfl
  | cons c cs ih =>
    show ((s.change c).changes cs).remaining = s.remaining
    rw [ih, change_remaining]

theorem changes_open (h : (s.changes cs).closed = false) : s.closed = false := by
  induction cs generalizing s with
  | nil => exact h
  | cons c cs ih => exact change_open (ih h)

theorem Settled.changes (h : s.Settled) : (s.changes cs).Settled := by
  induction cs generalizing s with
  | nil => exact h
  | cons c cs ih => exact ih h.change

end Changes

section NextBatch
variable {s : Output} (hc : s.closed = false) (ho : ¬ s.offset < s.batch.length)
include hc ho

theorem nextBatch_ok (during : List Change) (bytes : Bytes) :
    s.nextBatch during (.ok bytes) =
      { s.changes during with batch := bytes, offset := 0, offset_le := Nat.zero_le _ } := by
  simp only [nextBatch, hc, ho, Bool.false_eq_true, ↓reduceIte]

theorem nextBatch_error (during : List Change) (e : NetworkError) :
    s.nextBatch during (.error e) = (s.changes during).change .close := by
  simp only [nextBatch, hc, ho, Bool.false_eq_true, ↓reduceIte]

end NextBatch

/-- The parser stands where the acknowledged octets end. -/
structure Tracks (role : Role) (r : History) : Prop where
  sent : r.acknowledged ++ r.output.remaining = r.sent
  parser : r.output.closed = false →
    r.output.parser = (run octet (start role).parser r.acknowledged).state
  settled : r.output.Settled
  reported : r.reported.Sublist (run octet (start role).parser r.acknowledged).out

namespace Tracks
variable {role : Role} {r : History}

theorem nextBatch (h : Tracks role r) (during : List Change) (sent : Except NetworkError Bytes) :
    Tracks role (r.step (.nextBatch during sent)) := by
  simp only [History.step]
  split
  · exact h
  · rename_i hready
    have hc := Bool.eq_false_iff.mpr fun hc => hready (.inl hc)
    have ho := fun ho => hready (.inr ho)
    have hdone : r.output.remaining = [] := List.drop_eq_nil_of_le (not_lt.mp ho)
    have hall := h.sent
    rw [hdone, List.append_nil] at hall
    cases sent with
    | ok bytes =>
      rw [nextBatch_ok hc ho]
      exact
        { sent := congrArg (· ++ bytes) hall
          parser := fun hopen => changes_parsed.trans (h.parser (changes_open hopen))
          settled := h.settled.changes
          reported := h.reported }
    | error e =>
      rw [nextBatch_error hc ho]
      refine
        { sent := ?_
          parser := fun hopen =>
            change_parsed.trans (changes_parsed.trans (h.parser (changes_open (change_open hopen))))
          settled := h.settled.changes.change
          reported := h.reported }
      show r.acknowledged ++ ((r.output.changes during).change .close).remaining = r.sent
      rw [change_remaining, changes_remaining, hdone, List.append_nil]
      exact hall

theorem acknowledge (h : Tracks role r) (n : Nat) : Tracks role (r.step (.acknowledge n)) := by
  simp only [History.step]
  split
  · exact h
  · rename_i hn
    have hn := not_lt.mp hn
    have hclosed := acknowledge_closed (s := r.output) (n := n)
    refine ⟨?_, ?_, ?_, ?_⟩
    · show (r.acknowledged ++ _) ++ _ = r.sent
      rw [acknowledge_remaining hn, List.append_assoc, List.take_append_drop]
      exact h.sent
    · intro hopen
      have hc := hclosed.symm.trans hopen
      show _ = (run octet _ (r.acknowledged ++ _)).state
      rw [acknowledge_parsed hn hc, h.parser hc, Acknowledged.run_append]
      rfl
    · intro hc
      have hc := hclosed.symm.trans hc
      show (r.output.acknowledge n).1.pendingEnds = ∅
      rw [acknowledge_pendingEnds hn, endsIn, if_pos hc]
      exact h.settled hc
    · show (r.reported ++ _).Sublist (run octet _ (r.acknowledged ++ _)).out
      rw [acknowledge_ended hn, Acknowledged.run_append, endsIn]
      apply h.reported.append
      split
      · exact List.nil_sublist _
      · rename_i hopen
        rw [← h.parser (Bool.eq_false_iff.mpr hopen)]
        exact List.filter_sublist

theorem step (h : Tracks role r) (i : Input) : Tracks role (r.step i) := by
  cases i with
  | change c =>
    exact
      { sent := (congrArg (r.acknowledged ++ ·) change_remaining).trans h.sent
        parser := fun hopen => change_parsed.trans (h.parser (change_open hopen))
        settled := h.settled.change
        reported := h.reported }
  | nextBatch during sent => exact h.nextBatch during sent
  | acknowledge n => exact h.acknowledge n

end Tracks

def replay (s : Output × List Int) : Moment → Output × List Int
  | .change c => (s.1.change c, s.2)
  | .written b =>
    if s.1.closed then s
    else
      ({ s.1 with
          parser := (run octet s.1.parser [b]).state
          pendingEnds := (s.1.endsIn [b]).foldl Finset.erase s.1.pendingEnds },
        s.2 ++ s.1.endsIn [b])

structure Alike (s t : Output) : Prop where
  closed : s.closed = t.closed
  pendingEnds : s.pendingEnds = t.pendingEnds
  parser : s.parser = t.parser

theorem Alike.endsIn (h : Alike s t) (w : Bytes) : s.endsIn w = t.endsIn w := by
  rw [Output.endsIn, Output.endsIn, h.closed, h.pendingEnds, h.parser]

theorem Alike.change (h : Alike s t) (c : Change) : Alike (s.change c) (t.change c) := by
  obtain ⟨hclosed, hpending, hparser⟩ := h
  cases c with
  | submit id =>
    rw [Output.change, Output.change, hclosed]
    split
    · exact ⟨hclosed, hpending, hparser⟩
    · exact ⟨rfl, congrArg (insert id) hpending, hparser⟩
  | cancel id => exact ⟨hclosed, congrArg (·.erase id) hpending, hparser⟩
  | close =>
    rw [Output.change, Output.change, hclosed]
    split
    · exact ⟨hclosed, hpending, hparser⟩
    · exact ⟨rfl, rfl, hparser⟩

theorem Alike.changes (h : Alike s t) (cs : List Change) : Alike (s.changes cs) (t.changes cs) := by
  induction cs generalizing s t with
  | nil => exact h
  | cons c cs ih => exact ih (h.change c)

theorem mem_foldl_erase (l : List Int) (S : Finset Int) (x : Int) :
    x ∈ l.foldl Finset.erase S ↔ x ∈ S ∧ x ∉ l := by
  induction l generalizing S with
  | nil => simp only [List.foldl_nil, List.not_mem_nil, not_false_eq_true, and_true]
  | cons y l ih =>
    rw [List.foldl_cons, ih, Finset.mem_erase, List.mem_cons, not_or]
    tauto

/-- Octets that end each stream once do at once what they do one after the other. -/
theorem replay_written (hc : s.closed = false) (hn : (run octet s.parser w).out.Nodup)
    (ids : List Int) :
    (w.map Moment.written).foldl replay (s, ids) =
      ({ s with
          parser := (run octet s.parser w).state
          pendingEnds := (s.endsIn w).foldl Finset.erase s.pendingEnds },
        ids ++ s.endsIn w) := by
  induction w generalizing s ids with
  | nil =>
    have hnil : s.endsIn [] = [] := if_neg (Bool.eq_false_iff.mp hc)
    rw [hnil, List.append_nil]
    rfl
  | cons b w ih =>
    have hsplit := Acknowledged.run_append s.parser [b] w
    rw [List.singleton_append] at hsplit
    rw [hsplit, Run.after] at hn
    have hdisjoint := List.disjoint_of_nodup_append hn
    let s1 : Output :=
      { s with
        parser := (run octet s.parser [b]).state
        pendingEnds := (s.endsIn [b]).foldl Finset.erase s.pendingEnds }
    have hrest : s1.endsIn w =
        (run octet (run octet s.parser [b]).state w).out.filter (· ∈ s.pendingEnds) := by
      rw [endsIn, if_neg (Bool.eq_false_iff.mp hc)]
      apply List.filter_congr
      intro x hx
      rw [decide_eq_decide, mem_foldl_erase]
      apply and_iff_left
      intro hin
      rw [endsIn, if_neg (Bool.eq_false_iff.mp hc)] at hin
      exact hdisjoint (List.mem_of_mem_filter hin) hx
    have hboth : s.endsIn (b :: w) = s.endsIn [b] ++ s1.endsIn w := by
      rw [hrest, endsIn, endsIn, if_neg (Bool.eq_false_iff.mp hc), if_neg (Bool.eq_false_iff.mp hc),
        hsplit, Run.after, List.filter_append]
    have hstep : replay (s, ids) (.written b) = (s1, ids ++ s.endsIn [b]) :=
      if_neg (Bool.eq_false_iff.mp hc)
    rw [List.map_cons, List.foldl_cons, hstep, ih (s := s1) hc hn.of_append_right, hboth, hsplit,
      List.foldl_append, List.append_assoc]
    rfl

theorem replay_closed (hc : s.closed = true) (w : Bytes) (ids : List Int) :
    (w.map Moment.written).foldl replay (s, ids) = (s, ids) := by
  induction w with
  | nil => rfl
  | cons b w ih =>
    have hstep : replay (s, ids) (.written b) = (s, ids) := if_pos hc
    rw [List.map_cons, List.foldl_cons, hstep, ih]

theorem replay_changes (cs : List Change) (s : Output) (ids : List Int) :
    (cs.map Moment.change).foldl replay (s, ids) = (s.changes cs, ids) := by
  induction cs generalizing s with
  | nil => rfl
  | cons c cs ih => exact ih (s.change c)

theorem history_snoc (role : Role) (inputs : List Input) (i : Input) :
    history role (inputs ++ [i]) = (history role inputs).step i := by
  rw [history, List.foldl_append]
  rfl

theorem tracks (role : Role) (inputs : List Input) : Tracks role (history role inputs) := by
  induction inputs using List.reverseRecOn with
  | nil =>
    exact
      { sent := rfl
        parser := fun _ => rfl
        settled := fun _ => rfl
        reported := List.nil_sublist _ }
  | append_singleton inputs i ih =>
    rw [history_snoc]
    exact ih.step i

theorem sent_step (r : History) (i : Input) : r.sent <+: (r.step i).sent := by
  cases i with
  | change c => exact List.prefix_refl _
  | nextBatch during sent =>
    simp only [History.step]
    split
    · exact List.prefix_refl _
    · cases sent with
      | ok bytes => exact List.prefix_append _ _
      | error e => exact List.prefix_refl _
  | acknowledge n =>
    simp only [History.step]
    split
    · exact List.prefix_refl _
    · exact List.prefix_refl _

theorem Tracks.acknowledged_prefix (h : Tracks role r) : r.acknowledged <+: r.sent :=
  h.sent ▸ List.prefix_append _ _

theorem replay_history (hw : WellFormed frames)
    (hsent : (history role inputs).sent <+: wireOf role frames) :
    Alike (history role inputs).output
        ((history role inputs).moments.foldl replay (start role, [])).1 ∧
      (history role inputs).reported =
        ((history role inputs).moments.foldl replay (start role, [])).2 := by
  induction inputs using List.reverseRecOn with
  | nil => exact ⟨⟨rfl, rfl, rfl⟩, rfl⟩
  | append_singleton inputs i ih =>
    have htracks := tracks role inputs
    have hnext := tracks role (inputs ++ [i])
    rw [history_snoc] at hsent hnext ⊢
    have hbefore := (sent_step (history role inputs) i).trans hsent
    obtain ⟨halike, hreported⟩ := ih hbefore
    generalize hr : history role inputs = r at *
    generalize hp : r.moments.foldl replay (start role, []) = p at *
    obtain ⟨t, ids⟩ := p
    cases i with
    | change c =>
      simp only [History.step, List.foldl_append, hp]
      exact ⟨halike.change c, hreported⟩
    | nextBatch during sent =>
      simp only [History.step]
      split
      · rw [hp]
        exact ⟨halike, hreported⟩
      · rename_i hready
        have hc := Bool.eq_false_iff.mpr fun hc => hready (.inl hc)
        have ho := fun ho => hready (.inr ho)
        have hduring := halike.changes during
        cases sent with
        | ok bytes =>
          rw [nextBatch_ok hc ho, List.foldl_append, hp, replay_changes]
          exact ⟨⟨hduring.closed, hduring.pendingEnds, hduring.parser⟩, hreported⟩
        | error e =>
          rw [nextBatch_error hc ho, List.foldl_append, List.foldl_append, hp, replay_changes]
          exact ⟨hduring.change .close, hreported⟩
    | acknowledge n =>
      simp only [History.step] at hnext ⊢
      split at hnext
      · rename_i hn
        rw [if_pos hn, hp]
        exact ⟨halike, hreported⟩
      · rename_i hn
        rw [if_neg hn, List.foldl_append, hp]
        have hn := not_lt.mp hn
        have hends := halike.endsIn (r.output.remaining.take n)
        cases hc : r.output.closed with
        | true =>
          have hct := halike.closed.symm.trans hc
          have hnone : r.output.endsIn (r.output.remaining.take n) = [] := if_pos hc
          rw [replay_closed hct]
          refine ⟨⟨acknowledge_closed.trans halike.closed, ?_, ?_⟩, ?_⟩
          · rw [acknowledge_pendingEnds hn, hnone]
            exact halike.pendingEnds
          · exact (acknowledge_parsed_closed hc).trans halike.parser
          · rw [acknowledge_ended hn, hnone, List.append_nil]
            exact hreported
        | false =>
          have hct := halike.closed.symm.trans hc
          have hnodup : (run octet t.parser (r.output.remaining.take n)).out.Nodup := by
            have hout := hw.nodup_out (hnext.acknowledged_prefix.trans hbefore)
            rw [Acknowledged.run_append, ← htracks.parser hc, halike.parser] at hout
            exact hout.of_append_right
          rw [replay_written hct hnodup]
          refine ⟨⟨acknowledge_closed.trans halike.closed, ?_, ?_⟩, ?_⟩
          · rw [acknowledge_pendingEnds hn, hends, halike.pendingEnds]
          · rw [acknowledge_parsed hn hc, halike.parser]
          · rw [acknowledge_ended hn, hends]
            exact congrArg (· ++ _) hreported

theorem mem_acknowledge (hw : WellFormed frames)
    (hsent : (history role inputs).sent <+: wireOf role frames) (n : Nat) (id : Int) :
    id ∈ ((history role inputs).output.acknowledge n).2.endedStreams ↔
      n ≤ (history role inputs).output.remaining.length ∧
        id ∈ (history role inputs).output.pendingEnds ∧
        ∃ pre f post, frames = pre ++ f :: post ∧ EndsStream pre f ∧ id = f.streamId ∧
          (history role inputs).acknowledged.length < (wireOf role (pre ++ [f])).length ∧
          (wireOf role (pre ++ [f])).length ≤ (history role inputs).acknowledged.length + n := by
  have htracks := tracks role inputs
  generalize history role inputs = r at *
  by_cases hn : n ≤ r.output.remaining.length
  · rw [acknowledge_ended hn, endsIn]
    split
    · rename_i hc
      apply iff_of_false List.not_mem_nil
      rintro ⟨-, hpending, -⟩
      rw [htracks.settled hc] at hpending
      exact Finset.notMem_empty id hpending
    · rename_i hc
      have hpart : r.acknowledged ++ r.output.remaining.take n <+: wireOf role frames := by
        refine List.IsPrefix.trans ?_ hsent
        rw [← htracks.sent]
        exact (List.prefix_append_right_inj _).mpr (List.take_prefix _ _)
      have hlen : (r.acknowledged ++ r.output.remaining.take n).length = r.acknowledged.length + n := by
        rw [List.length_append, List.length_take, min_eq_left hn]
      rw [htracks.parser (Bool.eq_false_iff.mpr hc), List.mem_filter, hw.out_piece hpart, hlen,
        decide_eq_true_iff, List.mem_map]
      constructor
      · rintro ⟨⟨⟨q, id'⟩, hmem, rfl⟩, hpending⟩
        obtain ⟨hmem, hrange⟩ := List.mem_filter.mp hmem
        obtain ⟨pre, f, post, hframes, hends, hid, hq⟩ := (mem_endings _ _ _ _ _).mp hmem
        have hq : q = (wireOf role (pre ++ [f])).length := hq.trans (List.length_append ..).symm
        rw [decide_eq_true_iff, hq] at hrange
        exact ⟨hn, hpending, pre, f, post, hframes, hends, hid, hrange⟩
      · rintro ⟨-, hpending, pre, f, post, hframes, hends, hid, hrange⟩
        refine ⟨⟨((wireOf role (pre ++ [f])).length, id), ?_, rfl⟩, hpending⟩
        apply List.mem_filter.mpr
        refine ⟨(mem_endings _ _ _ _ _).mpr ⟨pre, f, post, hframes, hends, hid, ?_⟩,
          decide_eq_true hrange⟩
        exact List.length_append ..
  · rw [acknowledge_refused (not_le.mp hn)]
    exact iff_of_false List.not_mem_nil fun h => hn h.1

theorem nodup_reported (hw : WellFormed frames)
    (hsent : (history role inputs).sent <+: wireOf role frames) :
    (history role inputs).reported.Nodup := by
  have htracks := tracks role inputs
  exact (hw.nodup_out (htracks.acknowledged_prefix.trans hsent)).sublist htracks.reported

/-- For every well-formed output in any batches and any writes: a write reports just the awaited
streams whose ending frame it covers to the last octet, no stream is reported again, and where the
writes are cut does not matter. -/
theorem ends_reported (hw : WellFormed frames)
    (hsent : (history role inputs).sent <+: wireOf role frames) :
    (∀ n id, id ∈ ((history role inputs).output.acknowledge n).2.endedStreams ↔
      n ≤ (history role inputs).output.remaining.length ∧
        id ∈ (history role inputs).output.pendingEnds ∧
        ∃ pre f post, frames = pre ++ f :: post ∧ EndsStream pre f ∧ id = f.streamId ∧
          (history role inputs).acknowledged.length < (wireOf role (pre ++ [f])).length ∧
          (wireOf role (pre ++ [f])).length ≤ (history role inputs).acknowledged.length + n) ∧
      (history role inputs).reported.Nodup ∧
      ∀ inputs', (history role inputs').sent <+: wireOf role frames →
        (history role inputs').moments = (history role inputs).moments →
        (history role inputs').reported = (history role inputs).reported := by
  refine ⟨mem_acknowledge hw hsent, nodup_reported hw hsent, ?_⟩
  intro inputs' hsent' hmoments
  rw [(replay_history hw hsent').2, (replay_history hw hsent).2, hmoments]

def longRequest : List Frame :=
  [{ type := FrameType.hHeaders, flags := kEndStream, streamId := 1, payload := [0x82] },
    { type := FrameType.hContinuation, flags := kEndHeaders, streamId := 1, payload := [] }]

theorem wellFormed_longRequest : WellFormed longRequest := by
  have hfirst : WellFormed (longRequest.take 1) := .snoc [] _ .nil nofun (by decide) (by decide) (by decide)
  refine .snoc (longRequest.take 1) _ hfirst ?_ (by decide) (by decide) (by decide)
  rintro h hopen
  cases hopen
  exact ⟨rfl, rfl⟩

theorem ends_reported_long :
    1 ∈ ((history .hClient [.change (.submit 1),
      .nextBatch [] (.ok (wireOf .hClient longRequest))]).output.acknowledge 43).2.endedStreams := by
  refine ((ends_reported wellFormed_longRequest (List.prefix_refl _)).1 43 1).mpr ?_
  refine ⟨by decide, Finset.mem_insert_self _ _, longRequest.take 1, _, [], rfl, by decide, rfl, ?_, ?_⟩
  · decide
  · decide

end Output

end Hical.Http2
