import Hical.Http2.Output
import Hical.Lib.Transducer

namespace Hical.Http2

open Transducer

namespace Acknowledged

def endedBy (header : Bytes) (continuedEndStream : Int) : Option Int :=
  let type := header.getD 3 0
  let flags := header.getD 4 0
  if type = FrameType.hHeaders ∧ flags &&& kEndStream ≠ 0 then
    if flags &&& kEndHeaders ≠ 0 then some (headerStreamId header) else none
  else if type = FrameType.hContinuation ∧ flags &&& kEndHeaders ≠ 0
      ∧ continuedEndStream = headerStreamId header then some (headerStreamId header)
  else if type = FrameType.hData ∧ flags &&& kEndStream ≠ 0 then some (headerStreamId header)
  else none

def continuedBy (header : Bytes) (continuedEndStream : Int) : Int :=
  let type := header.getD 3 0
  let flags := header.getD 4 0
  if type = FrameType.hHeaders ∧ flags &&& kEndStream ≠ 0 then
    if flags &&& kEndHeaders ≠ 0 then continuedEndStream else headerStreamId header
  else if type = FrameType.hContinuation ∧ flags &&& kEndHeaders ≠ 0
      ∧ continuedEndStream = headerStreamId header then 0
  else continuedEndStream

theorem frameComplete_eq (pendingEnds : Finset Int) (header : Bytes) (c : Int) (ended : List Int) :
    frameComplete pendingEnds header c ended =
      (continuedBy header c, ended ++ (endedBy header c).toList.filter (· ∈ pendingEnds)) := by
  have hpush : (if headerStreamId header ∈ pendingEnds then ended ++ [headerStreamId header] else ended) =
      ended ++ (some (headerStreamId header)).toList.filter (· ∈ pendingEnds) := by
    by_cases hm : headerStreamId header ∈ pendingEnds
    · simp only [hm, ↓reduceIte, Option.toList_some, List.filter_cons, decide_true, List.filter_nil]
    · simp only [hm, ↓reduceIte, Option.toList_some, List.filter_cons, decide_false,
        Bool.false_eq_true, List.filter_nil, List.append_nil]
  simp only [frameComplete, continuedBy, endedBy, hpush]
  split
  · split
    · rfl
    · exact congrArg _ (List.append_nil _).symm
  · split
    · rfl
    · split
      · rfl
      · exact congrArg _ (List.append_nil _).symm

def inHeader (p : Acknowledged) (header : Bytes) (h : header.length < kFrameHeaderBytes) : Acknowledged :=
  { p with
    frameHeader := header
    header_le := h.le
    payload_pos := fun h' => absurd h' h.ne }

/-- The place in front of the last octets of a payload. -/
def inPayload (p : Acknowledged) (header : Bytes) (h : header.length ≤ kFrameHeaderBytes) (n : Nat)
    (hn : n ≠ 0) : Acknowledged :=
  { p with
    frameHeader := header
    payloadRemaining := n
    header_le := h
    payload_pos := fun _ => Nat.pos_of_ne_zero hn }

def octet (p : Acknowledged) (b : UInt8) : Move Acknowledged Int :=
  if p.prefaceRemaining ≠ 0 then .go { p with prefaceRemaining := p.prefaceRemaining - 1 } []
  else if p.frameHeader.length < kFrameHeaderBytes then
    if hf : (p.frameHeader ++ [b]).length < kFrameHeaderBytes then .go (p.inHeader _ hf) []
    else if h0 : framePayloadLength (p.frameHeader ++ [b]) = 0 then
      .go (between 0 (continuedBy (p.frameHeader ++ [b]) p.continuedEndStream))
        (endedBy (p.frameHeader ++ [b]) p.continuedEndStream).toList
    else if hl : (p.frameHeader ++ [b]).length ≤ kFrameHeaderBytes then
      .go (p.inPayload _ hl _ h0) []
    else .fail
  else if h0 : p.payloadRemaining - 1 = 0 then
    .go (between 0 (continuedBy p.frameHeader p.continuedEndStream))
      (endedBy p.frameHeader p.continuedEndStream).toList
  else .go (p.inPayload p.frameHeader p.header_le _ h0) []

theorem octet_go (p : Acknowledged) (b : UInt8) : ∃ p' out, octet p b = .go p' out := by
  unfold octet
  split
  · exact ⟨_, _, rfl⟩
  · split
    · rename_i hlt
      split
      · exact ⟨_, _, rfl⟩
      · split
        · exact ⟨_, _, rfl⟩
        · rw [dif_pos (by rw [List.length_append]; exact hlt)]
          exact ⟨_, _, rfl⟩
    · split
      · exact ⟨_, _, rfl⟩
      · exact ⟨_, _, rfl⟩

theorem run_append (p : Acknowledged) (u w : Bytes) :
    run octet p (u ++ w) = (run octet (run octet p u).state w).after (run octet p u).out :=
  run_append_incomplete (run_incomplete octet_go p u) w

theorem run_preface (h : w.length ≤ p.prefaceRemaining) :
    run octet p w = ⟨{ p with prefaceRemaining := p.prefaceRemaining - w.length }, [], .incomplete⟩ := by
  induction w generalizing p with
  | nil => rfl
  | cons b w ih =>
    rw [List.length_cons] at h
    have hstep : octet p b = .go { p with prefaceRemaining := p.prefaceRemaining - 1 } [] := by
      rw [octet, if_pos (by omega)]
    rw [run_go hstep, ih (Nat.le_sub_of_add_le h), after_nil]
    simp only [List.length_cons]
    congr 2
    omega

theorem run_header (hp : p.prefaceRemaining = 0)
    (h : (p.frameHeader ++ w).length < kFrameHeaderBytes) :
    run octet p w = ⟨p.inHeader _ h, [], .incomplete⟩ := by
  induction w generalizing p with
  | nil =>
    rw [run_nil]
    congr 1
    ext1
    · rfl
    · exact (List.append_nil _).symm
    · rfl
    · rfl
  | cons b w ih =>
    have hlt : (p.frameHeader ++ [b]).length < kFrameHeaderBytes := by
      rw [List.length_append, List.length_cons] at h
      rw [List.length_append, List.length_singleton]
      omega
    have hstep : octet p b = .go (p.inHeader _ hlt) [] := by
      rw [octet, if_neg (not_not_intro hp), if_pos (by rw [List.length_append] at hlt; omega)]
      exact dif_pos hlt
    have hrest : ((p.inHeader _ hlt).frameHeader ++ w).length < kFrameHeaderBytes := by
      rw [inHeader, List.append_assoc]
      exact h
    rw [run_go hstep, ih (p := p.inHeader _ hlt) hp hrest, after_nil]
    congr 1
    ext1
    · rfl
    · exact List.append_assoc _ _ _
    · rfl
    · rfl

theorem run_header_end (hp : p.prefaceRemaining = 0) (hlt : p.frameHeader.length < kFrameHeaderBytes)
    (hf : (p.frameHeader ++ w).length = kFrameHeaderBytes) :
    run octet p w =
      if h0 : framePayloadLength (p.frameHeader ++ w) = 0 then
        ⟨between 0 (continuedBy (p.frameHeader ++ w) p.continuedEndStream),
          (endedBy (p.frameHeader ++ w) p.continuedEndStream).toList, .incomplete⟩
      else ⟨p.inPayload _ hf.le _ h0, [], .incomplete⟩ := by
  obtain rfl | ⟨w, b, rfl⟩ := w.eq_nil_or_concat'
  · rw [List.append_nil] at hf
    exact absurd hf hlt.ne
  · have hw : (p.frameHeader ++ w).length < kFrameHeaderBytes := by
      simp only [List.length_append, List.length_singleton] at hf ⊢
      omega
    have hfull : ((p.inHeader _ hw).frameHeader ++ [b]).length = kFrameHeaderBytes := by
      rw [inHeader, List.append_assoc]
      exact hf
    have hstep : octet (p.inHeader _ hw) b =
        if h0 : framePayloadLength (p.frameHeader ++ (w ++ [b])) = 0 then
          .go (between 0 (continuedBy (p.frameHeader ++ (w ++ [b])) p.continuedEndStream))
            (endedBy (p.frameHeader ++ (w ++ [b])) p.continuedEndStream).toList
        else .go (p.inPayload _ hf.le _ h0) [] := by
      rw [octet, if_neg (show ¬ (p.inHeader _ hw).prefaceRemaining ≠ 0 from not_not_intro hp)]
      rw [if_pos (show (p.inHeader _ hw).frameHeader.length < kFrameHeaderBytes from hw)]
      rw [dif_neg hfull.not_lt]
      simp only [inHeader, List.append_assoc, dif_pos hf.le]
      rfl
    rw [Acknowledged.run_append, run_header hp hw, after_nil]
    by_cases h0 : framePayloadLength (p.frameHeader ++ (w ++ [b])) = 0
    · rw [dif_pos h0] at hstep ⊢
      rw [run_go hstep, run_nil, Run.after, List.append_nil]
    · rw [dif_neg h0] at hstep ⊢
      rw [run_go hstep, run_nil, after_nil]

theorem run_payload (hp : p.prefaceRemaining = 0) (hh : ¬ p.frameHeader.length < kFrameHeaderBytes)
    (h : p.payloadRemaining - w.length ≠ 0) :
    run octet p w = ⟨p.inPayload p.frameHeader p.header_le _ h, [], .incomplete⟩ := by
  induction w generalizing p with
  | nil => rfl
  | cons b w ih =>
    have h1 : p.payloadRemaining - 1 ≠ 0 := by
      rw [List.length_cons] at h
      omega
    have hstep : octet p b = .go (p.inPayload p.frameHeader p.header_le _ h1) [] := by
      rw [octet, if_neg (not_not_intro hp), if_neg hh]
      exact dif_neg h1
    have hrest : p.payloadRemaining - 1 - w.length ≠ 0 := by
      rw [List.length_cons] at h
      omega
    rw [run_go hstep, ih (p := p.inPayload p.frameHeader p.header_le _ h1) hp hh hrest, after_nil]
    congr 1
    ext1
    · rfl
    · rfl
    · show p.payloadRemaining - 1 - w.length = p.payloadRemaining - (w.length + 1)
      omega
    · rfl

theorem run_payload_end (hp : p.prefaceRemaining = 0)
    (hh : ¬ p.frameHeader.length < kFrameHeaderBytes) (h : w.length = p.payloadRemaining)
    (hw : w ≠ []) :
    run octet p w =
      ⟨between 0 (continuedBy p.frameHeader p.continuedEndStream),
        (endedBy p.frameHeader p.continuedEndStream).toList, .incomplete⟩ := by
  obtain rfl | ⟨w, b, rfl⟩ := w.eq_nil_or_concat'
  · exact absurd rfl hw
  · rw [List.length_append, List.length_singleton] at h
    have hlt : p.payloadRemaining - w.length ≠ 0 := by omega
    have hstep : octet (p.inPayload p.frameHeader p.header_le _ hlt) b =
        .go (between 0 (continuedBy p.frameHeader p.continuedEndStream))
          (endedBy p.frameHeader p.continuedEndStream).toList := by
      have hlast : p.payloadRemaining - w.length - 1 = 0 := by omega
      exact (if_neg (not_not_intro hp)).trans ((if_neg hh).trans (dif_pos hlast))
    rw [Acknowledged.run_append, run_payload hp hh hlt, after_nil]
    rw [run_go hstep, run_nil, Run.after, List.append_nil]

/-- The loop over an acknowledged piece does what the octets of the piece do one by one. -/
theorem parseAcknowledged_eq (pendingEnds : Finset Int) (p : Acknowledged) (bytes : Bytes)
    (ended : List Int) :
    parseAcknowledged pendingEnds p bytes ended =
      ((run octet p bytes).state,
        ended ++ (run octet p bytes).out.filter (· ∈ pendingEnds)) := by
  induction p, bytes, ended using parseAcknowledged.induct pendingEnds with
  | case1 p bytes ended hb =>
    rw [parseAcknowledged, dif_pos hb, List.length_eq_zero_iff.mp hb]
    exact congrArg _ (List.append_nil _).symm
  | case2 p bytes ended hb hp count ih =>
    have hcount : (bytes.take count).length = count := by
      rw [List.length_take, min_eq_left (Nat.min_le_right _ _)]
    have hrun := run_preface (p := p) (hcount.le.trans (Nat.min_le_left _ _))
    rw [parseAcknowledged, dif_neg hb, dif_pos hp, run_take hrun]
    simp only [hcount, after_nil]
    exact ih
  | case3 p bytes ended hb hp hh count header hf h0 completed ih =>
    have hrun := run_header_end (not_not.mp hp) hh hf
    rw [dif_pos h0] at hrun
    rw [parseAcknowledged, dif_neg hb, dif_neg hp, dif_pos hh]
    rw [run_take hrun, Run.after, List.filter_append]
    simp only [completed, frameComplete_eq, List.append_assoc] at ih
    exact (dif_pos hf).trans ((dif_pos h0).trans (by rw [frameComplete_eq]; exact ih))
  | case4 p bytes ended hb hp hh count header hf h0 ih =>
    have hrun := run_header_end (not_not.mp hp) hh hf
    rw [dif_neg h0] at hrun
    rw [parseAcknowledged, dif_neg hb, dif_neg hp, dif_pos hh, run_take hrun, after_nil]
    exact (dif_pos hf).trans ((dif_neg h0).trans ih)
  | case5 p bytes ended hb hp hh count header hf ih =>
    have hlt : header.length < kFrameHeaderBytes := by
      apply lt_of_le_of_ne _ hf
      rw [List.length_append, List.length_take]
      omega
    rw [parseAcknowledged, dif_neg hb, dif_neg hp, dif_pos hh]
    rw [run_take (run_header (not_not.mp hp) hlt), after_nil]
    exact (dif_neg hf).trans ih
  | case6 p bytes ended hb hp hh count h0 completed ih =>
    have hpos := p.payload_pos (le_antisymm p.header_le (not_lt.mp hh))
    have hcount : (bytes.take count).length = p.payloadRemaining := by
      rw [List.length_take]
      omega
    have hne : bytes.take count ≠ [] := by
      apply List.ne_nil_of_length_pos
      rw [hcount]
      exact hpos
    have hrun := run_payload_end (not_not.mp hp) hh hcount hne
    rw [parseAcknowledged, dif_neg hb, dif_neg hp, dif_neg hh]
    rw [run_take hrun, Run.after, List.filter_append]
    simp only [completed, frameComplete_eq, List.append_assoc] at ih
    exact (dif_pos h0).trans (by rw [frameComplete_eq]; exact ih)
  | case7 p bytes ended hb hp hh count h0 ih =>
    have hcount : (bytes.take count).length = count := by
      rw [List.length_take, min_eq_left (Nat.min_le_right _ _)]
    have hrun := run_payload (w := bytes.take count) (not_not.mp hp) hh (by rw [hcount]; exact h0)
    rw [parseAcknowledged, dif_neg hb, dif_neg hp, dif_neg hh, run_take hrun, after_nil]
    simp only [hcount]
    exact (dif_neg h0).trans ih

end Acknowledged

end Hical.Http2
