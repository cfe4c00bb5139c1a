import Hical.Lib.JsonText
import Hical.Response.Client
import Mathlib.Data.List.TakeWhile

namespace Hical
open Json

/-- What the two serialisers append to; `text` is what has been appended so far. -/
class JsonSink (σ : Type) where
  append : σ → Bytes → σ
  text : σ → Bytes
  text_append : ∀ sink data, text (append sink data) = text sink ++ data

open JsonSink (append text text_append)

/-- A `std::string`. -/
instance : JsonSink Bytes where
  append := List.append
  text := id
  text_append := fun _ _ => rfl

def kJsonEscapes : List Bytes :=
  [bytes "\\u0000", bytes "\\u0001", bytes "\\u0002", bytes "\\u0003", bytes "\\u0004", bytes "\\u0005",
    bytes "\\u0006", bytes "\\u0007", bytes "\\b", bytes "\\t", bytes "\\n", bytes "\\u000b", bytes "\\f",
    bytes "\\r", bytes "\\u000e", bytes "\\u000f", bytes "\\u0010", bytes "\\u0011", bytes "\\u0012",
    bytes "\\u0013", bytes "\\u0014", bytes "\\u0015", bytes "\\u0016", bytes "\\u0017", bytes "\\u0018",
    bytes "\\u0019", bytes "\\u001a", bytes "\\u001b", bytes "\\u001c", bytes "\\u001d", bytes "\\u001e",
    bytes "\\u001f"]

def needsJsonEscape (c : UInt8) : Bool := c < 0x20 || c == 34 || c == 92 || c == 47

/-- The `switch` of `appendJsonString`. -/
def jsonEscape (c : UInt8) : Bytes :=
  if c = 34 then [92, 34]
  else if c = 92 then [92, 92]
  else if c = 47 then [92, 47]
  else kJsonEscapes.getD c.toNat []

section Appending
variable {σ : Type} [JsonSink σ]

/-- The loop of `appendJsonString`; `span` is what lies between `spanStart` and `p`. -/
def appendSpans (sink : σ) (span : Bytes) : Bytes → σ
  | [] => if span = [] then sink else append sink span
  | c :: str =>
    if needsJsonEscape c then
      appendSpans (append (if span = [] then sink else append sink span) (jsonEscape c)) [] str
    else appendSpans sink (span ++ [c]) str

def appendJsonString (sink : σ) (str : Bytes) : σ := appendSpans sink [] str

/-- What a byte of a string becomes. -/
def escaped (c : UInt8) : Bytes := if needsJsonEscape c then jsonEscape c else [c]

theorem text_flush (sink : σ) (span : Bytes) :
    text (if span = [] then sink else append sink span) = text sink ++ span := by
  split
  · next h => rw [h, List.append_nil]
  · exact text_append ..

theorem text_appendSpans (sink : σ) (span str : Bytes) :
    text (appendSpans sink span str) = text sink ++ (span ++ str.flatMap escaped) := by
  induction str generalizing sink span with
  | nil => rw [appendSpans, text_flush, List.flatMap_nil, List.append_nil]
  | cons c str ih =>
    rw [appendSpans, List.flatMap_cons, escaped]
    split
    · rw [ih, text_append, text_flush]
      simp only [List.append_assoc, List.nil_append]
    · rw [ih]
      simp only [List.append_assoc]

theorem text_appendJsonString (sink : σ) (str : Bytes) :
    text (appendJsonString sink str) = text sink ++ str.flatMap escaped :=
  text_appendSpans sink [] str

theorem appendJsonString_bytes (out str : Bytes) : appendJsonString out str = out ++ str.flatMap escaped :=
  text_appendJsonString out str

end Appending

section Escapes

/-- A `\uXXXX` or a short escape that stands for that byte. -/
def standsFor (c : UInt8) : Bytes → Bool
  | [92, e] => e != 117 && shortEscape e == some c
  | [92, 117, a, b, d, f] => codeUnit a b d f == some c.toNat && c < 0x80
  | _ => false

theorem chars_standsFor {e : Bytes} (h : standsFor c e = true) (s : Bytes) :
    chars (e ++ s) = (chars s).map fun p => (c :: p.1, p.2) := by
  rw [standsFor.eq_def] at h
  split at h
  · next e =>
    rw [Bool.and_eq_true, bne_iff_ne, beq_iff_eq] at h
    rw [List.cons_append, List.singleton_append, chars.eq_def]
    simp only [h.2, if_neg h.1]
    rfl
  · next a b d f =>
    rw [Bool.and_eq_true, beq_iff_eq, decide_eq_true_eq] at h
    have hlt : c.toNat < 0x80 := UInt8.lt_iff_toNat_lt.1 h.2
    have hone : utf8 c.toNat = [c] := by rw [utf8, if_pos hlt, UInt8.ofNat_toNat]
    have hhigh : ¬ (0xD800 ≤ c.toNat ∧ c.toNat < 0xDC00) := by omega
    have hlow : ¬ (0xDC00 ≤ c.toNat ∧ c.toNat < 0xE000) := by omega
    change chars (92 :: 117 :: a :: b :: d :: f :: s) = _
    rw [chars.eq_def]
    simp only [h.1, if_neg hhigh, if_neg hlow, hone]
    rfl
  · cases h

theorem jsonEscape_standsFor (h : needsJsonEscape c = true) : standsFor c (jsonEscape c) = true := by
  have hall : ∀ i < 256, needsJsonEscape (.ofNat i) = true →
      standsFor (.ofNat i) (jsonEscape (.ofNat i)) = true := by decide +kernel
  have hc := hall c.toNat c.toNat_lt
  rw [UInt8.ofNat_toNat] at hc
  exact hc h

theorem escaped_reads (c : UInt8) (s : Bytes) :
    chars (escaped c ++ s) = (chars s).map fun p => (c :: p.1, p.2) := by
  rw [escaped]
  split
  · next h => exact chars_standsFor (jsonEscape_standsFor h) s
  · next h =>
    apply chars_plain
    simp only [needsJsonEscape, Bool.or_eq_true, decide_eq_true_eq, beq_iff_eq, not_or] at h
    simp only [plain, bne_iff_ne, ne_eq, Bool.and_eq_true, decide_eq_true_eq]
    exact ⟨⟨h.1.1.2, h.1.2⟩, UInt8.not_lt.1 h.1.1.1⟩

theorem escaped_spells (s : Bytes) : Spells (List.flatMap escaped) s := spells_flatMap escaped_reads s

theorem readable_escaped (t : Doc) : Readable (List.flatMap escaped) (List.flatMap escaped) t := by
  induction t using Tree.induct with
  | null => exact .null
  | bool b => exact .bool b
  | number l => exact .number l
  | string s => exact .string (escaped_spells s)
  | array xs ih => exact .array ih
  | object ms ih => exact .object (fun m _ => escaped_spells m.1) ih

end Escapes

section Integers
open ResponseClient

/-- `std::to_chars` of a signed integer. -/
def decimalInt (n : Int) : Bytes := if n < 0 then 45 :: decimal n.natAbs else decimal n.toNat

theorem decimal_head (n : Nat) (hn : 0 < n) : (decimal n).head? ≠ some 48 := by
  induction n using Nat.strongRecOn with
  | ind n ih =>
    rw [decimal_step]
    split
    · next h =>
      have hall : ∀ k < 10, 0 < k → some (UInt8.ofNat (Nat.digitChar k).toNat) ≠ some 48 := by decide
      exact hall n h hn
    · next h =>
      have hpos : 0 < n / 10 := by omega
      rw [List.head?_append_of_ne_nil _ (decimal_digits (n / 10)).1]
      exact ih (n / 10) (by omega) hpos

theorem isUnsigned_decimal (n : Nat) : isUnsigned (decimal n) = true := by
  obtain ⟨hne, hdigits, -⟩ := decimal_digits n
  have htake : (decimal n).takeWhile isDigit = decimal n :=
    List.takeWhile_eq_self_iff.2 hdigits
  have hdrop : (decimal n).dropWhile isDigit = [] :=
    List.dropWhile_eq_nil_iff.2 hdigits
  have hzero : (decimal n == [48] || (decimal n).head? != some 48) = true := by
    rcases Nat.eq_zero_or_pos n with rfl | hpos
    · rfl
    · rw [Bool.or_eq_true]
      exact .inr (bne_iff_ne.2 (decimal_head n hpos))
  rw [isUnsigned, htake, hdrop]
  simp only [hzero, bne_iff_ne.2 hne, Bool.true_and]
  rfl

theorem decimal_cons (n : Nat) : ∃ c s, decimal n = c :: s ∧ c ≠ 45 := by
  obtain ⟨hne, hdigits, -⟩ := decimal_digits n
  cases hd : decimal n with
  | nil => exact absurd hd hne
  | cons c s =>
    have hc := hdigits c (hd ▸ List.mem_cons_self)
    refine ⟨c, s, rfl, ?_⟩
    rintro rfl
    cases hc

theorem isNumber_decimal (n : Nat) : isNumber (decimal n) = true := by
  obtain ⟨c, s, hd, hc⟩ := decimal_cons n
  rw [hd, isNumber, if_neg hc, ← hd]
  exact isUnsigned_decimal n

/-- The value of a number token that is an integer. -/
def intValue : Bytes → Option Int
  | [] => none
  | c :: s => if c = 45 then (decimalValue s).map fun n : Nat => -(n : Int) else (decimalValue (c :: s)).map Int.ofNat

theorem intValue_decimalInt (n : Int) : intValue (decimalInt n) = some n := by
  rw [decimalInt]
  split
  · rw [intValue, if_pos rfl, decimalValue_decimal, Option.map_some]
    congr
    omega
  · obtain ⟨c, s, hd, hc⟩ := decimal_cons n.toNat
    rw [hd, intValue, if_neg hc, ← hd, decimalValue_decimal, Option.map_some]
    congr
    exact Int.toNat_of_nonneg (by omega)

theorem isNumber_decimalInt (n : Int) : isNumber (decimalInt n) = true := by
  rw [decimalInt]
  split
  · exact isUnsigned_decimal n.natAbs
  · exact isNumber_decimal n.toNat

def intLexeme (n : Int) : Lexeme := ⟨decimalInt n, isNumber_decimalInt n⟩

end Integers

end Hical
