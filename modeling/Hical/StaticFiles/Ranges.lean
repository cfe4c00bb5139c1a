import Hical.StaticFiles.Transparency

namespace Hical

namespace StaticFiles

/-- `1*DIGIT`. -/
def plainNumber (s : Bytes) : Option Nat :=
  if s ≠ [] ∧ s.all isDigit then some (s.foldl (fun n c => 10 * n + (c.toNat - 48)) 0) else none

/-- The forms of a single range in RFC 9110. -/
inductive RangeSpec where
  | between (first last : Nat)
  | starting (first : Nat)
  | suffix (length : Nat)

/-- The header is `bytes=` and one range. -/
def rangeSpec (header : Bytes) : Option RangeSpec :=
  if header.take 6 ≠ bytes "bytes=" then none
  else
    match cut minus (header.drop 6) with
    | (_, none) => none
    | ([], some length) => (plainNumber length).map .suffix
    | (first, some []) => (plainNumber first).map .starting
    | (first, some last) => (plainNumber first).bind fun first => (plainNumber last).map (.between first)

def RangeSpec.within (size : Nat) : RangeSpec → Option (Nat × Nat)
  | .between first last => if first ≤ last ∧ first < size then some (first, min last (size - 1)) else none
  | .starting first => if first < size then some (first, size - 1) else none
  | .suffix length => if 0 < length ∧ 0 < size then some (size - length, size - 1) else none

def prescribed (header : Bytes) (size : Nat) : Option (Nat × Nat) := (rangeSpec header).bind (·.within size)

/-- The numbers at the front of two texts are a range of the file. -/
def Fronts (size : Nat) (a b : Bytes) : Prop :=
  if a = [] then ∃ length, fromChars b = some length ∧ 0 < length ∧ 0 < size
  else ∃ first, fromChars a = some first ∧ first < size ∧
    (b = [] ∨ ∃ last, fromChars b = some last ∧ first ≤ last)

/-- The header is no range, but what stands at the front of its two parts is. -/
def Sloppy (header : Bytes) (size : Nat) : Prop :=
  rangeSpec header = none ∧ header.take 6 = bytes "bytes=" ∧ comma ∉ header.drop 6 ∧
    ∃ a b, cut minus (header.drop 6) = (a, some b) ∧ Fronts size a b

/-- A value of `int64_t`; none where the computation overflows. -/
def int64 (n : Int) : Option Int := if -2 ^ 63 ≤ n ∧ n < 2 ^ 63 then some n else none

/-- `clampRange` with the arithmetic of `int64_t`. -/
def clampRange64 (start last fileSize : Int) : Option (Option ByteRange) := do
  let last ← if fileSize ≤ last then int64 (fileSize - 1) else some last
  return if start < 0 ∨ last < start ∨ fileSize ≤ start then none else some ⟨start, last⟩

/-- `parseByteRange` with the arithmetic of `int64_t`. -/
def parseByteRange64 (header : Bytes) (fileSize : Int) : Option (Option ByteRange × Bool) :=
  if header.length < 7 ∨ header.take 6 ≠ bytes "bytes=" then return (none, false)
  else
    let rangeSpec := header.drop 6
    if rangeSpec.contains comma then return (none, true)
    else
      match cut minus rangeSpec with
      | (_, none) => return (none, false)
      | ([], some endStr) => do
        let last ← int64 (fileSize - 1)
        match fromChars endStr with
        | none => return (none, false)
        | some suffixLen =>
          if suffixLen ≤ 0 then return (none, false)
          else
            let start ← if fileSize ≤ suffixLen then some 0 else int64 (fileSize - suffixLen)
            return (← clampRange64 start last fileSize, false)
      | (startStr, some endStr) => do
        let last ← int64 (fileSize - 1)
        match fromChars startStr with
        | none => return (none, false)
        | some start =>
          if endStr = [] then return (← clampRange64 start last fileSize, false)
          else
            match fromChars endStr with
            | none => return (none, false)
            | some last => return (← clampRange64 start last fileSize, false)

def rangeLen64 (range : ByteRange) : Option Int := do
  let n ← int64 (range.last - range.start)
  int64 (n + 1)

section Parsing
variable {header s : Bytes} {size : Nat}

theorem int64_eq (hlo : -2 ^ 63 ≤ n) (hhi : n < 2 ^ 63) : int64 n = some n := if_pos ⟨hlo, hhi⟩

theorem takeWhile_digits (h : s.all isDigit = true) : s.takeWhile isDigit = s := by
  induction s with
  | nil => rfl
  | cons c s ih =>
    rw [List.all_cons, Bool.and_eq_true] at h
    rw [List.takeWhile_cons_of_pos h.1, ih h.2]

theorem fromChars_plain (h : plainNumber s = some n) (hf : fromChars s = some m) : m = n := by
  rw [plainNumber] at h
  split at h
  · next hs =>
    obtain ⟨hne, hall⟩ := hs
    have hsign : (s.head? == some minus) = false := by
      cases s with
      | nil => exact absurd rfl hne
      | cons c s =>
        rw [List.all_cons, Bool.and_eq_true] at hall
        apply beq_false_of_ne
        intro hc
        rw [Option.some.inj hc] at hall
        exact absurd hall.1 (by decide)
    rw [fromChars, hsign] at hf
    simp only [Bool.false_eq_true, ↓reduceIte, takeWhile_digits hall, if_neg hne] at hf
    split at hf
    · cases hf
    · cases h
      exact (Option.some.inj hf).symm
  · cases h

theorem fromChars_some (h : fromChars s = some n) :
    ∃ value : Nat, n = (if s.head? == some minus then -(value : Int) else value) ∧
      -2 ^ 63 ≤ n ∧ n < 2 ^ 63 := by
  rw [fromChars] at h
  generalize (s.head? == some minus) = negative at h ⊢
  generalize ((if negative then s.drop 1 else s).takeWhile isDigit) = digits at h
  generalize digits.foldl (fun n c => 10 * n + (c.toNat - 48)) 0 = value at h
  by_cases hdigits : digits = []
  · rw [if_pos hdigits] at h
    cases h
  · rw [if_neg hdigits] at h
    generalize hnumber : (if negative then -(value : Int) else value) = number at h
    split at h
    · cases h
    · next hfit =>
      rw [not_or, Int.not_lt, Int.not_le] at hfit
      cases h
      exact ⟨value, hnumber.symm, hfit⟩

theorem fromChars_nonneg (hsign : minus ∉ s) (h : fromChars s = some n) : 0 ≤ n := by
  have hhead : (s.head? == some minus) = false := by
    cases s with
    | nil => rfl
    | cons c s => exact beq_false_of_ne fun hc => hsign (Option.some.inj hc ▸ List.mem_cons_self ..)
  obtain ⟨value, hn, -⟩ := fromChars_some h
  rw [hhead, if_neg Bool.false_ne_true] at hn
  omega

theorem clampRange_eq_some {start last : Int} {range : ByteRange} :
    clampRange start last size = some range ↔
      0 ≤ start ∧ start ≤ last ∧ start < size ∧ range = ⟨start, min last (size - 1)⟩ := by
  have hlast : (if (size : Int) ≤ last then (size : Int) - 1 else last) = min last (size - 1) := by
    split
    · omega
    · omega
  rw [clampRange, hlast]
  constructor
  · intro h
    split at h
    · cases h
    · next hin =>
      cases h
      rw [not_or, not_or, Int.not_lt, Int.not_lt, Int.not_le] at hin
      obtain ⟨hstart, hend, hsize⟩ := hin
      exact ⟨hstart, by omega, hsize, rfl⟩
  · rintro ⟨hstart, hend, hsize, rfl⟩
    apply if_neg
    omega

theorem parseByteRange_single (hunit : header.take 6 = bytes "bytes=") (hcomma : comma ∉ header.drop 6)
    (hcut : cut minus (header.drop 6) = (a, some b)) (fileSize : Int) :
    parseByteRange header fileSize =
      if a = [] then
        match fromChars b with
        | none => (none, false)
        | some suffixLen =>
          if suffixLen ≤ 0 then (none, false)
          else (clampRange (if fileSize ≤ suffixLen then 0 else fileSize - suffixLen) (fileSize - 1) fileSize, false)
      else
        match fromChars a with
        | none => (none, false)
        | some start =>
          if b = [] then (clampRange start (fileSize - 1) fileSize, false)
          else
            match fromChars b with
            | none => (none, false)
            | some last => (clampRange start last fileSize, false) := by
  have hlength : ¬ (header.length < 7 ∨ header.take 6 ≠ bytes "bytes=") := by
    have hrest := congrArg List.length (cut_some hcut).1
    rw [List.length_drop, List.length_append, List.length_cons] at hrest
    rw [not_or, not_not]
    exact ⟨by omega, hunit⟩
  have hsingle : ¬ (header.drop 6).contains comma = true := fun h => hcomma (List.contains_iff_mem.1 h)
  rw [parseByteRange, if_neg hlength]
  dsimp only
  rw [if_neg hsingle, hcut]
  cases a with
  | nil => rfl
  | cons c a => rfl

theorem parseByteRange_some {fileSize : Int} (h : parseByteRange header fileSize = (some range, multi)) :
    header.take 6 = bytes "bytes=" ∧ comma ∉ header.drop 6 ∧
      ∃ a b, cut minus (header.drop 6) = (a, some b) := by
  rw [parseByteRange] at h
  split at h
  · cases h
  · next hlength =>
    rw [not_or, not_not] at hlength
    dsimp only at h
    split at h
    · cases h
    · next hsingle =>
      apply And.intro hlength.2
      apply And.intro fun hmem => hsingle (List.contains_iff_mem.2 hmem)
      cases hcut : cut minus (header.drop 6) with
      | mk a b =>
        cases b with
        | none =>
          rw [hcut] at h
          cases h
        | some b => exact ⟨a, b, rfl⟩

theorem rangeSpec_single (hunit : header.take 6 = bytes "bytes=")
    (hcut : cut minus (header.drop 6) = (a, some b)) :
    rangeSpec header =
      if a = [] then (plainNumber b).map .suffix
      else if b = [] then (plainNumber a).map .starting
      else (plainNumber a).bind fun first => (plainNumber b).map (.between first) := by
  rw [rangeSpec, if_neg (not_not.2 hunit), hcut]
  cases a with
  | nil => rfl
  | cons c a =>
    cases b with
    | nil => rfl
    | cons d b => rfl

theorem within_bounds {spec : RangeSpec} (h : spec.within size = some (first, last)) :
    first ≤ last ∧ last < size := by
  cases spec with
  | between start stop | starting start | suffix length =>
    rw [RangeSpec.within] at h
    split at h
    · cases h
      omega
    · cases h

theorem prescribed_bounds (h : prescribed header size = some (first, last)) : first ≤ last ∧ last < size := by
  obtain ⟨spec, -, hwithin⟩ := Option.bind_eq_some_iff.1 h
  exact within_bounds hwithin

/-- A range that is parsed is the prescribed one, or the header is sloppy. -/
theorem parseByteRange_prescribed (h : parseByteRange header size = (some range, multi)) :
    (∃ first last : Nat, prescribed header size = some (first, last) ∧ range = ⟨first, last⟩) ∨
      Sloppy header size := by
  obtain ⟨hunit, hcomma, a, b, hcut⟩ := parseByteRange_some h
  have hspec := rangeSpec_single hunit hcut
  have hsloppy : Fronts size a b → rangeSpec header = none → Sloppy header size :=
    fun hfront hnone => ⟨hnone, hunit, hcomma, a, b, hcut, hfront⟩
  rw [parseByteRange_single hunit hcomma hcut] at h
  by_cases ha : a = []
  · rw [if_pos ha] at h hspec
    rw [Fronts, if_pos ha] at hsloppy
    cases hb : fromChars b with
    | none =>
      rw [hb] at h
      cases h
    | some length =>
      rw [hb] at h
      dsimp only at h
      split at h
      · cases h
      · next hpos =>
        obtain ⟨-, hlast, hsize, hrange⟩ := clampRange_eq_some.1 (congrArg Prod.fst h)
        cases hplain : plainNumber b with
        | none =>
          apply Or.inr
          apply hsloppy ⟨length, hb, by omega, by omega⟩
          rw [hspec, hplain]
          rfl
        | some n =>
          have hn := fromChars_plain hplain hb
          apply Or.inl
          refine ⟨size - n, size - 1, ?_, ?_⟩
          · rw [prescribed, hspec, hplain]
            exact if_pos ⟨by omega, by omega⟩
          · rw [hrange]
            split
            · congr 1
              · omega
              · omega
            · congr 1
              · omega
              · omega
  · rw [if_neg ha] at h hspec
    rw [Fronts, if_neg ha] at hsloppy
    cases hfirst : fromChars a with
    | none =>
      rw [hfirst] at h
      cases h
    | some first =>
      rw [hfirst] at h
      dsimp only at h
      by_cases hb : b = []
      · rw [if_pos hb] at h hspec
        obtain ⟨hstart, -, hsize, hrange⟩ := clampRange_eq_some.1 (congrArg Prod.fst h)
        cases hplain : plainNumber a with
        | none =>
          apply Or.inr
          apply hsloppy ⟨first, hfirst, hsize, .inl hb⟩
          rw [hspec, hplain]
          rfl
        | some n =>
          have hn := fromChars_plain hplain hfirst
          apply Or.inl
          refine ⟨n, size - 1, ?_, ?_⟩
          · rw [prescribed, hspec, hplain]
            exact if_pos (by omega)
          · rw [hrange, hn]
            congr 1
            omega
      · rw [if_neg hb] at h hspec
        cases hlast : fromChars b with
        | none =>
          rw [hlast] at h
          cases h
        | some last =>
          rw [hlast] at h
          obtain ⟨hstart, horder, hsize, hrange⟩ := clampRange_eq_some.1 (congrArg Prod.fst h)
          have hnone := hsloppy ⟨first, hfirst, hsize, .inr ⟨last, hlast, horder⟩⟩
          cases hplain : plainNumber a with
          | none =>
            apply Or.inr (hnone _)
            rw [hspec, hplain]
            rfl
          | some n =>
            cases hplain' : plainNumber b with
            | none =>
              apply Or.inr (hnone _)
              rw [hspec, hplain, hplain']
              rfl
            | some m =>
              have hn := fromChars_plain hplain hfirst
              have hm := fromChars_plain hplain' hlast
              apply Or.inl
              refine ⟨n, min m (size - 1), ?_, ?_⟩
              · rw [prescribed, hspec, hplain, hplain']
                exact if_pos ⟨by omega, by omega⟩
              · rw [hrange, hn, hm]
                congr 1
                omega

theorem Sloppy.parse (h : Sloppy header size) : ∃ range, parseByteRange header size = (some range, false) := by
  obtain ⟨-, hunit, hcomma, a, b, hcut, hfront⟩ := h
  have hclamp : ∀ start last : Int, 0 ≤ start → start ≤ last → start < size →
      ∃ range, (clampRange start last size, false) = (some range, false) := by
    intro start last hstart horder hsize
    have hsome := clampRange_eq_some.2 ⟨hstart, horder, hsize, rfl⟩
    exact ⟨_, congrArg (·, false) hsome⟩
  rw [parseByteRange_single hunit hcomma hcut]
  by_cases ha : a = []
  · rw [Fronts, if_pos ha] at hfront
    rw [if_pos ha]
    obtain ⟨length, hb, hpos, hsize⟩ := hfront
    rw [hb]
    dsimp only
    rw [if_neg (Int.not_le.2 hpos)]
    apply hclamp
    · omega
    · omega
    · omega
  · rw [Fronts, if_neg ha] at hfront
    rw [if_neg ha]
    obtain ⟨first, hfirst, hsize, hlast⟩ := hfront
    have hnonneg := fromChars_nonneg (cut_some hcut).2 hfirst
    rw [hfirst]
    dsimp only
    by_cases hb : b = []
    · rw [if_pos hb]
      exact hclamp _ _ hnonneg (by omega) hsize
    · rw [if_neg hb]
      obtain ⟨last, hl, horder⟩ := hlast.resolve_left hb
      rw [hl]
      exact hclamp _ _ hnonneg horder hsize

theorem clampRange64_eq {start last : Int} (hsize : (size : Int) < 2 ^ 63) :
    clampRange64 start last size = some (clampRange start last size) := by
  rw [clampRange64, clampRange]
  split
  · rw [int64_eq (by omega) (by omega)]
    rfl
  · rfl

theorem parseByteRange64_eq (header : Bytes) (hsize : (size : Int) < 2 ^ 63) :
    parseByteRange64 header size = some (parseByteRange header size) := by
  have hlast : int64 ((size : Int) - 1) = some ((size : Int) - 1) := int64_eq (by omega) (by omega)
  rw [parseByteRange64, parseByteRange]
  split
  · rfl
  · dsimp only
    split
    · rfl
    · obtain ⟨a, b⟩ := cut minus (header.drop 6)
      cases b with
      | none => rfl
      | some endStr =>
        cases a with
        | nil =>
          dsimp only
          rw [hlast]
          cases fromChars endStr with
          | none => rfl
          | some suffixLen =>
            by_cases hpos : suffixLen ≤ 0
            · simp only [if_pos hpos, Option.bind_eq_bind, Option.bind_some]
              rfl
            · by_cases hall : (size : Int) ≤ suffixLen
              · simp only [if_neg hpos, if_pos hall, Option.bind_eq_bind, Option.bind_some, clampRange64_eq hsize]
                rfl
              · have hstart : int64 (size - suffixLen) = some (size - suffixLen) :=
                  int64_eq (by omega) (by omega)
                simp only [if_neg hpos, if_neg hall, hstart, Option.bind_eq_bind, Option.bind_some,
                  clampRange64_eq hsize]
                rfl
        | cons c a =>
          dsimp only
          rw [hlast]
          cases fromChars (c :: a) with
          | none => rfl
          | some start =>
            by_cases hempty : endStr = []
            · simp only [if_pos hempty, Option.bind_eq_bind, Option.bind_some, clampRange64_eq hsize]
              rfl
            · cases fromChars endStr with
              | none =>
                simp only [if_neg hempty, Option.bind_eq_bind, Option.bind_some]
                rfl
              | some last =>
                simp only [if_neg hempty, Option.bind_eq_bind, Option.bind_some, clampRange64_eq hsize]
                rfl

theorem parseByteRange_bounds (h : parseByteRange header size = (some range, multi)) :
    0 ≤ range.start ∧ range.start ≤ range.last ∧ range.last < size := by
  obtain ⟨hunit, hcomma, a, b, hcut⟩ := parseByteRange_some h
  have hclamp : ∀ start last : Int, clampRange start last size = some range →
      0 ≤ range.start ∧ range.start ≤ range.last ∧ range.last < size := by
    intro start last hsome
    obtain ⟨hstart, horder, hsize, rfl⟩ := clampRange_eq_some.1 hsome
    exact ⟨hstart, by dsimp only; omega, by dsimp only; omega⟩
  rw [parseByteRange_single hunit hcomma hcut] at h
  have hfst := congrArg Prod.fst h
  split at hfst
  · split at hfst
    · cases hfst
    · split at hfst
      · cases hfst
      · exact hclamp _ _ hfst
  · split at hfst
    · cases hfst
    · split at hfst
      · exact hclamp _ _ hfst
      · split at hfst
        · cases hfst
        · exact hclamp _ _ hfst

theorem rangeLen64_eq (h : parseByteRange header size = (some range, multi)) (hsize : (size : Int) < 2 ^ 63) :
    rangeLen64 range = some (rangeLen range : Int) := by
  obtain ⟨hstart, horder, hlast⟩ := parseByteRange_bounds h
  rw [rangeLen64, int64_eq (by omega) (by omega)]
  show int64 (range.last - range.start + 1) = some (((range.last - range.start + 1).toNat : Nat) : Int)
  rw [int64_eq (by omega) (by omega), Int.toNat_of_nonneg (by omega)]

end Parsing

end StaticFiles

end Hical
