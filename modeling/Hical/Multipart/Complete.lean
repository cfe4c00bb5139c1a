import Hical.Multipart.Parser

namespace Hical.Multipart
open Search

/-- What stands behind a delimiter: the rest of the delimiter line, a complete part and the next delimiter
on a line of its own, and so on up to the dashes of the close delimiter. -/
inductive CompleteFrom (d : Bytes) : Bytes → List MultipartPart → Prop
  | close : dashes <+: rest → CompleteFrom d rest []
  | part : crlf <+: rest → cutAt d (rest.drop 2) = some (piece ++ crlf, next) →
      cutAt (crlf ++ crlf) piece = some (block, data) → CompleteFrom d next parts →
      CompleteFrom d rest ({ parsePartHeaders block {} with data := data } :: parts)

/-- The text in front of the first delimiter ends its line. -/
def LineStart (preamble : Bytes) : Prop := preamble = [] ∨ crlf <:+ preamble

/-- The body holds exactly these parts, and the close delimiter behind them. -/
def Complete (d body : Bytes) (parts : List MultipartPart) : Prop :=
  ∃ preamble rest, cutAt d body = some (preamble, rest) ∧ LineStart preamble ∧ CompleteFrom d rest parts

/-- Behind this dashed boundary, each one that ends a line is followed by another one at the start of a
line, until one has two dashes behind it. -/
inductive Closed (d : Bytes) : Bytes → Prop
  | close : dashes <+: rest → Closed d rest
  | next : crlf <+: rest → cutAt d (rest.drop 2) = some (piece ++ crlf, next) → Closed d next → Closed d rest

/-- The first dashed boundary that does not end its line has two dashes behind it, and every one up to
there starts a line. -/
def EndsProperly (d body : Bytes) : Prop :=
  ∃ preamble rest, cutAt d body = some (preamble, rest) ∧ LineStart preamble ∧ Closed d rest

theorem not_dashes (h : crlf <+: rest) : ¬ dashes <+: rest := by
  rintro ⟨t, ht⟩
  obtain ⟨u, hu⟩ := h
  rw [← ht] at hu
  exact absurd (List.cons.inj hu).1 (by decide)

section From
variable {d rest data content next : Bytes} {part : MultipartPart} {parts : List MultipartPart}

theorem cutAt_end (hd : d ≠ []) (hend : data = [] ∨ cutAt d data = none) : cutAt d data = none := by
  rcases hend with rfl | hcut
  · rw [cutAt, if_neg hd]
  · exact hcut

theorem completeFrom_closes (h : crlf <+: rest) : ¬ CompleteFrom d rest [] := by
  intro hc
  cases hc with
  | close hdash => exact not_dashes h hdash

theorem completeFrom_dashes (h : ¬ crlf <+: rest) : CompleteFrom d rest [] ↔ Closed d rest := by
  constructor
  · intro hc
    cases hc with
    | close hdash => exact .close hdash
  · intro hc
    cases hc with
    | close hdash => exact .close hdash
    | next hcrlf => exact absurd hcrlf h

theorem closed_ends (h : crlf <+: rest) (hcut : cutAt d (rest.drop 2) = none) : ¬ Closed d rest := by
  intro hc
  cases hc with
  | close hdash => exact not_dashes h hdash
  | next _ hnext =>
    rw [hcut] at hnext
    cases hnext

theorem closed_next (h : crlf <+: rest) (hcut : cutAt d (rest.drop 2) = some (content, next)) :
    Closed d rest ↔ crlf <:+ content ∧ Closed d next := by
  constructor
  · intro hc
    cases hc with
    | close hdash => exact absurd hdash (not_dashes h)
    | next _ hnext hc =>
      rw [hcut] at hnext
      cases hnext
      exact ⟨List.suffix_append _ _, hc⟩
  · rintro ⟨⟨piece, rfl⟩, hc⟩
    exact .next h hcut hc

theorem completeFrom_part (h : crlf <+: rest) (hcut : cutAt d (rest.drop 2) = some (content, next))
    (hread : readPart (stripLineEnd content) = some part) :
    CompleteFrom d rest (part :: parts) ↔ crlf <:+ content ∧ CompleteFrom d next parts := by
  constructor
  · intro hc
    cases hc with
    | part _ hnext hhead hc =>
      rw [hcut] at hnext
      cases hnext
      exact ⟨List.suffix_append _ _, hc⟩
  · rintro ⟨⟨piece, rfl⟩, hc⟩
    rw [stripLineEnd_append] at hread
    obtain ⟨block, data, hhead, rfl⟩ := readPart_eq_some hread
    exact .part h hcut hhead hc

end From

theorem partsLoop_complete (hd : d ≠ []) (hcrlf : crlf <+: rest)
    (h : partsLoop d room (rest.drop 2) = some parts) : CompleteFrom d rest parts ↔ Closed d rest := by
  induction room generalizing rest parts with
  | zero =>
    rcases partsLoop_cases h with ⟨rfl, hend⟩ | ⟨_, _, _, _, _, -, -, -, hroom, -⟩
    · exact iff_of_false (completeFrom_closes hcrlf) (closed_ends hcrlf (cutAt_end hd hend))
    · cases hroom
  | succ room ih =>
    rcases partsLoop_cases h with ⟨rfl, hend⟩ | ⟨content, next, part, ps, room', -, hcut, hread, hroom, rfl, hmore⟩
    · exact iff_of_false (completeFrom_closes hcrlf) (closed_ends hcrlf (cutAt_end hd hend))
    · cases hroom
      rw [completeFrom_part hcrlf hcut hread, closed_next hcrlf hcut]
      apply and_congr_right
      intro _
      rcases hmore with ⟨hnext, hps⟩ | ⟨hnext, rfl⟩
      · exact ih hnext hps
      · exact completeFrom_dashes hnext

theorem parseBody_complete (hd : d ≠ []) (h : parseBody d body = some parts) :
    parts.length ≤ hMaxMultipartParts ∧ (Complete d body parts ↔ EndsProperly d body) := by
  cases hcut : cutAt d body with
  | none => simp [parseBody, hcut] at h
  | some r =>
    obtain ⟨preamble, rest⟩ := r
    have hwhole : ∀ P : Bytes → Prop,
        (∃ pre next, cutAt d body = some (pre, next) ∧ LineStart pre ∧ P next) ↔ LineStart preamble ∧ P rest := by
      intro P
      rw [hcut]
      constructor
      · rintro ⟨pre, next, heq, hP⟩
        cases heq
        exact hP
      · intro hP
        exact ⟨preamble, rest, rfl, hP⟩
    rw [Complete, EndsProperly, hwhole, hwhole]
    rw [parseBody, hcut] at h
    dsimp only at h
    split at h
    · next hcrlf => exact ⟨partsLoop_length h, and_congr_right fun _ => partsLoop_complete hd hcrlf h⟩
    · next hcrlf =>
      split at h
      · cases h
        exact ⟨Nat.zero_le _, and_congr_right fun _ => completeFrom_dashes hcrlf⟩
      · cases h

/-- A returned list has at most 256 parts; they are complete and closed exactly when the first dashed
boundary that does not end its line has two dashes behind it, and every one up to there starts a line. -/
theorem parse_complete (req : Request) (parts : List MultipartPart) (h : parse req = some parts) :
    parts.length ≤ 256 ∧
      (Complete (delimiter req) req.body parts ↔ EndsProperly (delimiter req) req.body) := by
  rw [parse] at h
  split at h
  · cases h
  · split at h
    · cases h
    · exact parseBody_complete (List.append_ne_nil_of_left_ne_nil (by decide) _) h

def cutRequest : Request where
  method := .hPost
  target := bytes "/upload"
  httpVersionMinor := 1
  headers := [⟨bytes "Content-Type", bytes "multipart/form-data; boundary=b"⟩]
  body := unlines [bytes "--b", bytes "Content-Disposition: form-data; name=\"x\"", [], bytes "1", bytes "--b",
    bytes "Content-Disposition: form-data; name=\"y\"", [], bytes "2"]
  keepAlive := true
  expectContinue := false
  upgradePreScanned := none
  params := []

def cutPart : MultipartPart where
  headers := [(bytes "content-disposition", bytes "form-data; name=\"x\"")]
  name := bytes "x"
  data := bytes "1"

theorem parse_cutRequest : parse cutRequest = some [cutPart] := by decide +kernel

theorem Complete.closed (h : Complete d body parts) : d ++ dashes <:+: body := by
  obtain ⟨preamble, rest, hcut, -, hfrom⟩ := h
  have hclosed : ∀ rest parts, CompleteFrom d rest parts → d ++ dashes <:+: d ++ rest := by
    intro rest parts hfrom
    induction hfrom with
    | close hdash =>
      obtain ⟨t, rfl⟩ := hdash
      rw [← List.append_assoc]
      exact (List.prefix_append (d ++ dashes) t).isInfix
    | @part rest piece next block data parts hcrlf hcut hhead hfrom ih =>
      have hnext : d ++ next <:+: rest.drop 2 := by
        rw [cutAt_some hcut]
        exact (List.suffix_append _ _).isInfix
      exact ih.trans (hnext.trans ((List.drop_suffix 2 rest).isInfix.trans (List.suffix_append d rest).isInfix))
  rw [cutAt_some hcut]
  exact (hclosed rest parts hfrom).trans (List.suffix_append _ _).isInfix

/-- The upload stopped inside its second part; the first one is returned. -/
theorem parse_accepts_cut :
    parse cutRequest = some [cutPart] ∧ ¬ Complete (delimiter cutRequest) cutRequest.body [cutPart] :=
  ⟨parse_cutRequest, fun h => absurd h.closed (by decide +kernel)⟩

theorem parse_complete_cut :
    Complete (delimiter cutRequest) cutRequest.body [cutPart] ↔
      EndsProperly (delimiter cutRequest) cutRequest.body :=
  (parse_complete cutRequest [cutPart] parse_cutRequest).2

end Hical.Multipart
