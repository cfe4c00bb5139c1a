import Hical.Response.Chunked

namespace Hical.ResponseClient

/-! How a client reads a response by RFC 9112. -/

def contentLengthName : Bytes := bytes "Content-Length"

def transferEncodingName : Bytes := bytes "Transfer-Encoding"

def fieldValue (text : Bytes) : Bytes := trimWith isBlank text

def readField (line : Bytes) : Bytes × Bytes :=
  ((cut colon line).1, fieldValue ((cut colon line).2.getD []))

def valuesOf (name : Bytes) (ls : List Bytes) : List Bytes :=
  ((ls.map readField).filter fun f => iequals f.1 name).map (·.2)

def isDecimal (b : UInt8) : Bool := decide (48 ≤ b) && decide (b ≤ 57)

/-- The value of `1*DIGIT`. -/
def decimalValue (s : Bytes) : Option Nat :=
  if s ≠ [] ∧ s.all isDecimal then some (s.foldl (fun n b => n * 10 + (b.toNat - 48)) 0) else none

def headLines (wire : Bytes) : List Bytes := (lines wire).takeWhile (· != [])

/-- What is behind the empty line. -/
def contentOf (wire : Bytes) : Bytes := wire.drop ((unlines (headLines wire)).length + 2)

def statusOf (line : Bytes) : Bytes := (line.drop 9).take 3

/-- The status does not go with content. -/
def bodyless (status : Bytes) : Bool := status == bytes "204" || status == bytes "304"

/-- The values of Content-Length and Transfer-Encoding say where the content ends, or what it would be. -/
def Tells (isHead : Bool) (lengths codings : List Bytes) (content : Bytes) : Prop :=
  (codings = [] ∧ ∃ value n, lengths = [value] ∧ decimalValue value = some n ∧
    (isHead = true ∨ content.length = n)) ∨
  (lengths = [] ∧ ∃ value, codings = [value] ∧ iequals value (bytes "chunked") = true ∧
    (isHead = true ∨ ∃ data, DecodesTo content data))

section Reading

theorem headLines_unlines (hls : ∀ l ∈ ls, l ≠ [] ∧ CR ∉ l) (content : Bytes) :
    headLines (unlines ls ++ (crlf ++ content)) = ls := by
  rw [headLines, lines_unlines (fun l hl => (hls l hl).2), lines_crlf, List.takeWhile_append_of_pos]
  · rw [List.takeWhile_cons_of_neg (by decide), List.append_nil]
  · intro l hl
    exact bne_iff_ne.2 (hls l hl).1

theorem contentOf_unlines (hls : ∀ l ∈ ls, l ≠ [] ∧ CR ∉ l) (content : Bytes) :
    contentOf (unlines ls ++ (crlf ++ content)) = content := by
  have hlength : (unlines ls).length + 2 = (unlines ls ++ crlf).length := by
    rw [List.length_append]
    rfl
  rw [contentOf, headLines_unlines hls, hlength, ← List.append_assoc, List.drop_left]

theorem decimal_step (n : Nat) : decimal n =
    if n < 10 then [UInt8.ofNat n.digitChar.toNat] else decimal (n / 10) ++ [UInt8.ofNat (n % 10).digitChar.toNat] := by
  have hdigits (n : Nat) : decimal n = (Nat.toDigits 10 n).map fun c => UInt8.ofNat c.toNat := by
    rw [decimal, bytes]
    exact congrArg (List.map _) Nat.toList_repr
  rw [hdigits, hdigits, Nat.toDigits_eq_if (by decide)]
  split
  · rfl
  · rw [List.map_append]
    rfl

theorem isDecimal_digitChar (h : n < 10) :
    isDecimal (UInt8.ofNat n.digitChar.toNat) = true ∧ (UInt8.ofNat n.digitChar.toNat).toNat - 48 = n := by
  have hall : ∀ k < 10, isDecimal (UInt8.ofNat (Nat.digitChar k).toNat) = true ∧
      (UInt8.ofNat (Nat.digitChar k).toNat).toNat - 48 = k := by decide
  exact hall n h

theorem decimal_digits (n : Nat) : decimal n ≠ [] ∧ (∀ b ∈ decimal n, isDecimal b = true) ∧
    (decimal n).foldl (fun n b => n * 10 + (b.toNat - 48)) 0 = n := by
  induction n using Nat.strongRecOn with
  | ind n ih =>
    rw [decimal_step]
    split
    · next hn =>
      obtain ⟨hdigit, hvalue⟩ := isDecimal_digitChar hn
      refine ⟨List.cons_ne_nil _ _, ?_, ?_⟩
      · intro b hb
        rw [List.mem_singleton.1 hb]
        exact hdigit
      · rw [List.foldl_cons, List.foldl_nil, hvalue, Nat.zero_mul, Nat.zero_add]
    · next hn =>
      obtain ⟨hdigit, hvalue⟩ := isDecimal_digitChar (Nat.mod_lt n (by decide : 0 < 10))
      obtain ⟨-, hall, hfold⟩ := ih (n / 10) (by omega)
      refine ⟨List.append_ne_nil_of_right_ne_nil _ (List.cons_ne_nil _ _), ?_, ?_⟩
      · intro b hb
        rcases List.mem_append.1 hb with hb | hb
        · exact hall b hb
        · rw [List.mem_singleton.1 hb]
          exact hdigit
      · rw [List.foldl_append, hfold, List.foldl_cons, List.foldl_nil, hvalue]
        exact Nat.div_add_mod' n 10

theorem decimalValue_decimal (n : Nat) : decimalValue (decimal n) = some n := by
  obtain ⟨hne, hall, hfold⟩ := decimal_digits n
  rw [decimalValue, if_pos ⟨hne, List.all_eq_true.2 hall⟩, hfold]

end Reading

end Hical.ResponseClient
