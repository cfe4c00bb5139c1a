import Hical.Http2.EndStream

namespace Hical.Http2

open Transducer Acknowledged

namespace FrameType

@[simp] theorem hContinuation_ne_hHeaders : hContinuation ≠ hHeaders := by decide

@[simp] theorem hContinuation_ne_hPushPromise : hContinuation ≠ hPushPromise := by decide

@[simp] theorem hContinuation_ne_hData : hContinuation ≠ hData := by decide

@[simp] theorem hHeaders_ne_hData : hHeaders ≠ hData := by decide

@[simp] theorem hHeaders_ne_hContinuation : hHeaders ≠ hContinuation := by decide

end FrameType

structure Frame where
  type : UInt8
  flags : UInt8
  /-- The bit in front of the stream identifier. -/
  reserved : Bool := false
  streamId : Nat
  payload : Bytes
  streamId_lt : streamId < 2 ^ 31 := by decide
  payload_lt : payload.length < 2 ^ 24 := by decide

namespace Frame

def header (f : Frame) : Bytes :=
  [.ofNat (f.payload.length / 2 ^ 16), .ofNat (f.payload.length / 2 ^ 8), .ofNat f.payload.length,
    f.type, f.flags,
    .ofNat (f.streamId / 2 ^ 24 + if f.reserved then 128 else 0), .ofNat (f.streamId / 2 ^ 16),
    .ofNat (f.streamId / 2 ^ 8), .ofNat f.streamId]

def encode (f : Frame) : Bytes := f.header ++ f.payload

def endStream (f : Frame) : Bool := f.flags &&& kEndStream ≠ 0

def endHeaders (f : Frame) : Bool := f.flags &&& kEndHeaders ≠ 0

end Frame

/-- The frame whose header block is open behind `f`. -/
def blockAfter (block : Option Frame) (f : Frame) : Option Frame :=
  if f.type = FrameType.hHeaders ∨ f.type = FrameType.hPushPromise then
    if f.endHeaders then none else some f
  else if f.type = FrameType.hContinuation ∧ f.endHeaders then none
  else block

def openBlock (frames : List Frame) : Option Frame := frames.foldl blockAfter none

def EndsStream (before : List Frame) (f : Frame) : Prop :=
  (f.type = FrameType.hData ∧ f.endStream) ∨
    (f.type = FrameType.hHeaders ∧ f.endStream ∧ f.endHeaders) ∨
    (f.type = FrameType.hContinuation ∧ f.endHeaders ∧
      (openBlock before).any fun h => decide (h.type = FrameType.hHeaders) && h.endStream)

instance (before : List Frame) (f : Frame) : Decidable (EndsStream before f) :=
  inferInstanceAs (Decidable (_ ∨ _))

/-- Where streams end in the octets of the frames, which start at `position`. -/
def endings (position : Nat) (before : List Frame) : List Frame → List (Nat × Int)
  | [] => []
  | f :: frames =>
    (if EndsStream before f then [(position + f.encode.length, (f.streamId : Int))] else []) ++
      endings (position + f.encode.length) (before ++ [f]) frames

/-- The frames come in an order that HTTP/2 allows: nothing stands between the frames of a header
block, and nothing ends a stream again. -/
inductive WellFormed : List Frame → Prop where
  | nil : WellFormed []
  | snoc (frames : List Frame) (f : Frame) (hframes : WellFormed frames)
      (hopen : ∀ h, openBlock frames = some h →
        f.type = FrameType.hContinuation ∧ f.streamId = h.streamId)
      (hclosed : openBlock frames = none → f.type ≠ FrameType.hContinuation)
      (hstream : f.type = FrameType.hData ∨ f.type = FrameType.hHeaders ∨
        f.type = FrameType.hPushPromise → f.streamId ≠ 0)
      (hended : f.type = FrameType.hData ∨ f.type = FrameType.hHeaders →
        (f.streamId : Int) ∉ (endings 0 [] frames).map Prod.snd) :
      WellFormed (frames ++ [f])

def clientPreface : Bytes := bytes "PRI * HTTP/2.0\r\n\r\nSM\r\n\r\n"

def prefaceOf (role : Role) : Bytes := if role = .hClient then clientPreface else []

/-- What a side puts out. -/
def wireOf (role : Role) (frames : List Frame) : Bytes :=
  prefaceOf role ++ frames.flatMap Frame.encode

theorem length_prefaceOf (role : Role) :
    (prefaceOf role).length = if role = .hClient then kClientPrefaceBytes else 0 := by
  cases role with
  | hClient => rfl
  | hServer => rfl

theorem wireOf_snoc (role : Role) (frames : List Frame) (f : Frame) :
    wireOf role (frames ++ [f]) = wireOf role frames ++ f.encode := by
  simp only [wireOf, List.flatMap_append, List.flatMap_cons, List.flatMap_nil, List.append_nil,
    List.append_assoc]

theorem shift_or (x : Nat) (h : y < 2 ^ 8) : x <<< 8 ||| y = x * 2 ^ 8 + y := by
  rw [← Nat.shiftLeft_add_eq_or_of_lt h, Nat.shiftLeft_eq]

theorem shift_shift (x : Nat) : x <<< 16 = x <<< 8 <<< 8 := (Nat.shiftLeft_add x 8 8)

theorem toNat_ofNat_lt (n : Nat) : (UInt8.ofNat n).toNat < 2 ^ 8 := UInt8.toNat_lt _

namespace Frame

theorem length_header (f : Frame) : f.header.length = kFrameHeaderBytes := rfl

theorem framePayloadLength_header (f : Frame) : framePayloadLength f.header = f.payload.length := by
  have hlt := f.payload_lt
  show (UInt8.ofNat _).toNat <<< 16 ||| (UInt8.ofNat _).toNat <<< 8 ||| (UInt8.ofNat _).toNat = _
  rw [shift_shift, ← Nat.shiftLeft_or_distrib, shift_or _ (toNat_ofNat_lt _),
    shift_or _ (toNat_ofNat_lt _)]
  simp only [UInt8.toNat_ofNat']
  omega

theorem headerStreamId_header (f : Frame) : headerStreamId f.header = f.streamId := by
  have hlt := f.streamId_lt
  have hfirst : (UInt8.ofNat (f.streamId / 2 ^ 24 + if f.reserved then 128 else 0) &&& 0x7f).toNat =
      f.streamId / 2 ^ 24 := by
    rw [UInt8.toNat_and]
    show _ &&& (2 ^ 7 - 1) = _
    rw [Nat.and_two_pow_sub_one_eq_mod, UInt8.toNat_ofNat']
    split
    · omega
    · omega
  show ((UInt8.ofNat _ &&& 0x7f).toNat <<< 24 ||| (UInt8.ofNat _).toNat <<< 16
    ||| (UInt8.ofNat _).toNat <<< 8 ||| (UInt8.ofNat _).toNat : Nat) = (f.streamId : Int)
  congr 1
  rw [hfirst, Nat.shiftLeft_add (f.streamId / 2 ^ 24) 16 8, shift_shift (UInt8.toNat _),
    shift_shift (f.streamId / 2 ^ 24)]
  rw [← Nat.shiftLeft_or_distrib, ← Nat.shiftLeft_or_distrib, ← Nat.shiftLeft_or_distrib,
    shift_or _ (toNat_ofNat_lt _), shift_or _ (toNat_ofNat_lt _), shift_or _ (toNat_ofNat_lt _)]
  simp only [UInt8.toNat_ofNat']
  omega

theorem run_header_of (f : Frame) (c : Int) :
    run octet (between 0 c) f.header =
      if h0 : f.payload.length = 0 then
        ⟨between 0 (continuedBy f.header c), (endedBy f.header c).toList, .incomplete⟩
      else ⟨(between 0 c).inPayload f.header f.length_header.le _ h0, [], .incomplete⟩ := by
  have hrun := run_header_end (p := between 0 c) (w := f.header) rfl (Nat.succ_pos 8) f.length_header
  simp only [between, List.nil_append, f.framePayloadLength_header] at hrun
  exact hrun

theorem run_encode (f : Frame) (c : Int) :
    run octet (between 0 c) f.encode =
      ⟨between 0 (continuedBy f.header c), (endedBy f.header c).toList, .incomplete⟩ := by
  have hheader := f.run_header_of c
  by_cases h0 : f.payload.length = 0
  · rw [encode, List.length_eq_zero_iff.mp h0, List.append_nil, hheader, dif_pos h0]
  · rw [dif_neg h0] at hheader
    have hpayload := run_payload_end (p := (between 0 c).inPayload f.header f.length_header.le _ h0)
      (w := f.payload) rfl f.length_header.not_lt rfl (mt List.length_eq_zero_iff.mpr h0)
    rw [encode, Acknowledged.run_append, hheader, hpayload]
    rfl

theorem run_part (f : Frame) (c : Int) (h : w <+: f.encode) (hne : w ≠ f.encode) :
    (run octet (between 0 c) w).out = [] := by
  obtain hlt | hle := Nat.lt_or_ge w.length kFrameHeaderBytes
  · rw [run_header (p := between 0 c) rfl hlt]
  · obtain ⟨w, rfl⟩ : f.header <+: w := List.prefix_of_prefix_length_le (List.prefix_append _ _) h hle
    have hpart : w <+: f.payload := (List.prefix_append_right_inj _).mp h
    have hlt : w.length < f.payload.length := by
      apply lt_of_le_of_ne hpart.length_le
      intro he
      exact hne (congrArg _ (hpart.eq_of_length he))
    have h0 : f.payload.length ≠ 0 := by omega
    have hheader := f.run_header_of c
    rw [dif_neg h0] at hheader
    have hpayload := run_payload (p := (between 0 c).inPayload f.header f.length_header.le _ h0)
      (w := w) rfl f.length_header.not_lt (Nat.sub_ne_zero_of_lt hlt)
    rw [Acknowledged.run_append, hheader, hpayload]
    rfl

end Frame

/-- What `continuedEndStream` is while this header block is open. -/
def continuedOf : Option Frame → Int
  | some h => if h.type = FrameType.hHeaders ∧ h.endStream then h.streamId else 0
  | none => 0

theorem openBlock_snoc (frames : List Frame) (f : Frame) :
    openBlock (frames ++ [f]) = blockAfter (openBlock frames) f := by
  rw [openBlock, List.foldl_append]
  rfl

namespace Frame

theorem continuedBy_header (f : Frame) (c : Int) :
    continuedBy f.header c =
      if f.type = FrameType.hHeaders ∧ f.endStream then if f.endHeaders then c else f.streamId
      else if f.type = FrameType.hContinuation ∧ f.endHeaders ∧ c = f.streamId then 0
      else c := by
  simp only [endStream, endHeaders, decide_eq_true_eq, ← f.headerStreamId_header]
  rfl

theorem endedBy_header (f : Frame) (c : Int) :
    endedBy f.header c =
      if f.type = FrameType.hHeaders ∧ f.endStream then
        if f.endHeaders then some (f.streamId : Int) else none
      else if f.type = FrameType.hContinuation ∧ f.endHeaders ∧ c = f.streamId then
        some (f.streamId : Int)
      else if f.type = FrameType.hData ∧ f.endStream then some (f.streamId : Int)
      else none := by
  simp only [endStream, endHeaders, decide_eq_true_eq, ← f.headerStreamId_header]
  rfl

end Frame

section Step
variable {frames : List Frame} {f : Frame}
  (hopen : ∀ h, openBlock frames = some h → f.type = FrameType.hContinuation ∧ f.streamId = h.streamId)
  (hclosed : openBlock frames = none → f.type ≠ FrameType.hContinuation)

include hopen in
theorem openBlock_none (h : f.type ≠ FrameType.hContinuation) : openBlock frames = none := by
  cases hb : openBlock frames with
  | none => rfl
  | some b => exact absurd (hopen b hb).1 h

include hopen hclosed in
theorem continued_step :
    continuedBy f.header (continuedOf (openBlock frames)) = continuedOf (openBlock (frames ++ [f])) := by
  rw [f.continuedBy_header, openBlock_snoc, blockAfter]
  by_cases hc : f.type = FrameType.hContinuation
  · obtain ⟨b, hb⟩ := Option.ne_none_iff_exists'.mp fun h => hclosed h hc
    have hid := (hopen b hb).2
    simp only [hb, hc, FrameType.hContinuation_ne_hHeaders, FrameType.hContinuation_ne_hPushPromise,
      false_and, or_self, true_and, ↓reduceIte]
    by_cases he : f.endHeaders
    · simp only [he, true_and, ↓reduceIte, continuedOf, hid]
      split
      · exact if_pos rfl
      · exact ite_self 0
    · simp only [he, false_and, ↓reduceIte, Bool.false_eq_true]
  · rw [openBlock_none hopen hc]
    by_cases hh : f.type = FrameType.hHeaders
    · simp only [hh, true_and, true_or, ↓reduceIte]
      by_cases he : f.endHeaders
      · simp only [he, ↓reduceIte, continuedOf]
        split
        · rfl
        · simp only [FrameType.hHeaders_ne_hContinuation, false_and, ↓reduceIte]
      · simp only [he, ↓reduceIte, continuedOf, hh, true_and, Bool.false_eq_true, false_and, and_false]
    · simp only [hh, hc, false_and, false_or, ↓reduceIte]
      split
      · split
        · rfl
        · exact (if_neg fun h => hh h.1).symm
      · rfl

include hopen hclosed in
theorem ended_step (hstream : ∀ h, openBlock frames = some h → h.streamId ≠ 0) :
    endedBy f.header (continuedOf (openBlock frames)) =
      if EndsStream frames f then some (f.streamId : Int) else none := by
  rw [f.endedBy_header]
  by_cases hc : f.type = FrameType.hContinuation
  · obtain ⟨b, hb⟩ := Option.ne_none_iff_exists'.mp fun h => hclosed h hc
    have hid := (hopen b hb).2
    have hends : EndsStream frames f ↔
        f.endHeaders ∧ b.type = FrameType.hHeaders ∧ b.endStream := by
      simp only [EndsStream, hc, hb, Option.any_some, Bool.and_eq_true, decide_eq_true_eq]
      simp only [true_and, FrameType.hContinuation_ne_hData, FrameType.hContinuation_ne_hHeaders,
        false_and, false_or]
    have hcont : continuedOf (some b) = f.streamId ↔ b.type = FrameType.hHeaders ∧ b.endStream := by
      have h0 := hstream b hb
      rw [continuedOf, hid]
      split
      · rename_i hsome
        exact iff_of_true rfl hsome
      · rename_i hnone
        apply iff_of_false _ hnone
        intro h
        exact h0 (by exact_mod_cast h.symm)
    simp only [hb, hc, hcont, hends, true_and, FrameType.hContinuation_ne_hData,
      FrameType.hContinuation_ne_hHeaders, false_and, ↓reduceIte]
  · have hends : EndsStream frames f ↔
        (f.type = FrameType.hData ∧ f.endStream) ∨
          (f.type = FrameType.hHeaders ∧ f.endStream ∧ f.endHeaders) := by
      simp only [EndsStream, hc, false_and, or_false]
    simp only [hends, hc, false_and, ↓reduceIte]
    by_cases hh : f.type = FrameType.hHeaders
    · simp only [hh, FrameType.hHeaders_ne_hData, true_and, false_and, false_or, ↓reduceIte]
      by_cases hs : f.endStream
      · simp only [hs, true_and, ↓reduceIte]
      · simp only [hs, false_and, ↓reduceIte, Bool.false_eq_true]
    · simp only [hh, false_and, or_false, ↓reduceIte]

end Step

theorem WellFormed.openBlock_ne (hw : WellFormed frames) (h : openBlock frames = some b) :
    b.streamId ≠ 0 := by
  induction hw generalizing b with
  | nil => cases h
  | snoc frames f hframes hopen hclosed hstream hended ih =>
    rw [openBlock_snoc, blockAfter] at h
    split at h
    · rename_i htype
      split at h
      · cases h
      · cases h
        exact hstream (.inr htype)
    · split at h
      · cases h
      · exact ih h

def encoded (frames : List Frame) : Bytes := frames.flatMap Frame.encode

theorem encoded_append (fs gs : List Frame) : encoded (fs ++ gs) = encoded fs ++ encoded gs :=
  List.flatMap_append

theorem endings_append (position : Nat) (before fs gs : List Frame) :
    endings position before (fs ++ gs) =
      endings position before fs ++ endings (position + (encoded fs).length) (before ++ fs) gs := by
  induction fs generalizing position before with
  | nil => simp only [List.nil_append, endings, encoded, List.flatMap_nil, List.length_nil,
      Nat.add_zero, List.append_nil]
  | cons f fs ih =>
    rw [List.cons_append, endings, ih, endings, List.append_assoc]
    simp only [encoded, List.flatMap_cons, List.length_append, Nat.add_assoc, List.append_assoc,
      List.singleton_append]

theorem endings_snoc (position : Nat) (frames : List Frame) (f : Frame) :
    endings position [] (frames ++ [f]) =
      endings position [] frames ++
        if EndsStream frames f then
          [(position + (encoded (frames ++ [f])).length, (f.streamId : Int))]
        else [] := by
  rw [endings_append, endings, endings, List.append_nil, List.nil_append]
  simp only [encoded, List.flatMap_append, List.flatMap_cons, List.flatMap_nil, List.append_nil,
    List.length_append, Nat.add_assoc]

theorem endings_snd (position position' : Nat) (before frames : List Frame) :
    (endings position before frames).map Prod.snd = (endings position' before frames).map Prod.snd := by
  induction frames generalizing position position' before with
  | nil => rfl
  | cons f frames ih =>
    rw [endings, endings, List.map_append, List.map_append]
    rw [ih _ (position' + f.encode.length)]
    congr 1
    split
    · rfl
    · rfl

theorem mem_endings (position : Nat) (before frames : List Frame) (q : Nat) (id : Int) :
    (q, id) ∈ endings position before frames ↔
      ∃ pre f post, frames = pre ++ f :: post ∧ EndsStream (before ++ pre) f ∧ id = f.streamId ∧
        q = position + (encoded (pre ++ [f])).length := by
  induction frames generalizing position before with
  | nil =>
    apply iff_of_false List.not_mem_nil
    rintro ⟨pre, f, post, h, -⟩
    exact List.append_ne_nil_of_right_ne_nil pre (List.cons_ne_nil f post) h.symm
  | cons g frames ih =>
    rw [endings, List.mem_append, ih]
    constructor
    · rintro (h | ⟨pre, f, post, rfl, hends, hid, hq⟩)
      · split at h
        · rename_i hends
          cases List.mem_singleton.mp h
          refine ⟨[], g, frames, rfl, by rw [List.append_nil]; exact hends, rfl, ?_⟩
          simp only [encoded, List.nil_append, List.flatMap_cons, List.flatMap_nil, List.append_nil]
        · cases h
      · refine ⟨g :: pre, f, post, rfl, by rw [List.append_cons]; exact hends, hid, ?_⟩
        rw [hq]
        simp only [encoded, List.cons_append, List.flatMap_cons, List.length_append, Nat.add_assoc]
    · rintro ⟨pre, f, post, h, hends, hid, hq⟩
      cases pre with
      | nil =>
        cases h
        left
        rw [List.append_nil] at hends
        rw [if_pos hends, List.mem_singleton, hid, hq]
        simp only [encoded, List.nil_append, List.flatMap_cons, List.flatMap_nil, List.append_nil]
      | cons g' pre =>
        cases h
        right
        refine ⟨pre, f, post, rfl, by rw [← List.append_cons]; exact hends, hid, ?_⟩
        rw [hq]
        simp only [encoded, List.cons_append, List.flatMap_cons, List.length_append, Nat.add_assoc]

theorem endings_le (h : x ∈ endings position [] frames) :
    x.1 ≤ position + (encoded frames).length := by
  obtain ⟨pre, f, post, rfl, -, -, hq⟩ := (mem_endings position [] frames x.1 x.2).mp h
  have hsplit : encoded (pre ++ f :: post) = encoded (pre ++ [f]) ++ encoded post := by
    rw [List.append_cons, encoded_append]
  rw [hq, hsplit, List.length_append]
  omega

theorem Frame.encode_ne_nil (f : Frame) : f.encode ≠ [] := List.cons_ne_nil _ _

theorem length_encoded_snoc (frames : List Frame) (f : Frame) :
    (encoded (frames ++ [f])).length = (encoded frames).length + f.encode.length := by
  simp only [encoded, List.flatMap_append, List.flatMap_cons, List.flatMap_nil, List.append_nil,
    List.length_append]

theorem pairwise_endings (position : Nat) (frames : List Frame) :
    (endings position [] frames).Pairwise fun x y => x.1 < y.1 := by
  induction frames using List.reverseRecOn with
  | nil => exact List.Pairwise.nil
  | append_singleton frames f ih =>
    rw [endings_snoc]
    split
    · apply List.pairwise_append.mpr
      refine ⟨ih, List.pairwise_singleton _ _, ?_⟩
      intro x hx y hy
      cases List.mem_singleton.mp hy
      have := endings_le hx
      have := List.length_pos_of_ne_nil f.encode_ne_nil
      rw [length_encoded_snoc]
      omega
    · rw [List.append_nil]
      exact ih

namespace WellFormed

theorem open_not_ended (hw : WellFormed frames) (h : openBlock frames = some b)
    (hb : b.type = FrameType.hHeaders) :
    (b.streamId : Int) ∉ (endings 0 [] frames).map Prod.snd := by
  induction hw generalizing b with
  | nil => cases h
  | snoc frames f hframes hopen hclosed hstream hended ih =>
    rw [openBlock_snoc, blockAfter] at h
    split at h
    · split at h
      · cases h
      · rename_i hnot
        cases h
        have hno : ¬ EndsStream frames f := by
          simp only [EndsStream, hb, hnot, FrameType.hHeaders_ne_hData,
            FrameType.hHeaders_ne_hContinuation, false_and, and_false, or_self, not_false_eq_true,
            Bool.false_eq_true]
        rw [endings_snoc, if_neg hno, List.append_nil]
        exact hended (.inr hb)
    · split at h
      · cases h
      · rename_i hnot
        have hcont := (hopen b h).1
        have hno : ¬ EndsStream frames f := by
          simp only [EndsStream, hcont, FrameType.hContinuation_ne_hData,
            FrameType.hContinuation_ne_hHeaders, false_and, false_or]
          exact fun he => hnot ⟨hcont, he.2.1⟩
        rw [endings_snoc, if_neg hno, List.append_nil]
        exact ih h hb

theorem nodup_endings (hw : WellFormed frames) : ((endings 0 [] frames).map Prod.snd).Nodup := by
  induction hw with
  | nil => exact List.nodup_nil
  | snoc frames f hframes hopen hclosed hstream hended ih =>
    rw [endings_snoc]
    split
    · rename_i hends
      have hnew : (f.streamId : Int) ∉ (endings 0 [] frames).map Prod.snd := by
        obtain h | h | ⟨hcont, -, hblock⟩ := hends
        · exact hended (.inl h.1)
        · exact hended (.inr h.1)
        · cases hb : openBlock frames with
          | none => exact absurd hcont (hclosed hb)
          | some b =>
            rw [hb, Option.any_some, Bool.and_eq_true, decide_eq_true_eq] at hblock
            rw [(hopen b hb).2]
            exact hframes.open_not_ended hb hblock.1
      rw [List.map_append]
      exact ih.append (List.nodup_singleton _) (List.disjoint_singleton.mpr hnew)
    · rw [List.append_nil]
      exact ih

theorem run_wire (hw : WellFormed frames) (role : Role) :
    run octet (Output.start role).parser (wireOf role frames) =
      ⟨between 0 (continuedOf (openBlock frames)), (endings 0 [] frames).map Prod.snd,
        .incomplete⟩ := by
  induction hw with
  | nil =>
    have hlen := length_prefaceOf role
    rw [wireOf, List.flatMap_nil, List.append_nil, run_preface hlen.le]
    congr 1
    ext1
    · show _ - _ = 0
      rw [hlen]
      exact Nat.sub_self _
    · rfl
    · rfl
    · rfl
  | snoc frames f hframes hopen hclosed hstream hended ih =>
    have hne := fun h hb => hframes.openBlock_ne (b := h) hb
    rw [wireOf_snoc, Acknowledged.run_append, ih, f.run_encode, Run.after,
      continued_step hopen hclosed, ended_step hopen hclosed hne, endings_snoc, List.map_append]
    congr 2
    split
    · rfl
    · rfl

end WellFormed

end Hical.Http2
