import Mathlib.Algebra.Group.Int.Defs
import Mathlib.Algebra.GroupWithZero.Nat
import Mathlib.Data.List.Basic

namespace Hical

/-- Octets as they travel through sockets, buffers and `std::string`. -/
abbrev Bytes := List UInt8

instance : LawfulBEq Bytes := inferInstanceAs (LawfulBEq (List UInt8))

/-- The octets of an ASCII literal of the source. -/
def bytes (s : String) : Bytes :=
  s.toList.map fun c => UInt8.ofNat c.toNat

def CR : UInt8 := 13

def LF : UInt8 := 10

def SP : UInt8 := 32

def HT : UInt8 := 9

/-- The line terminator of HTTP/1. -/
def crlf : Bytes := [CR, LF]

def slash : UInt8 := 47

def colon : UInt8 := 58

def semicolon : UInt8 := 59

def isBlank (b : UInt8) : Bool := b == SP || b == HT

def isEol (b : UInt8) : Bool := b == CR || b == LF

/-- The value of a hexadecimal digit. -/
def hexDigit (c : UInt8) : Option Nat :=
  if 48 ≤ c ∧ c ≤ 57 then some (c.toNat - 48)
  else if 65 ≤ c ∧ c ≤ 70 then some (c.toNat - 65 + 10)
  else if 97 ≤ c ∧ c ≤ 102 then some (c.toNat - 97 + 10)
  else none

/-- `find(c)` together with the two `substr` calls around it: the text before the first `c`, and
the text after it when there is one. -/
def cut (c : UInt8) : Bytes → Bytes × Option Bytes
  | [] => ([], none)
  | b :: s => if b = c then ([], some s) else (b :: (cut c s).1, (cut c s).2)

@[simp] theorem cut_nil (c : UInt8) : cut c [] = ([], none) := rfl

theorem cut_cons_self (c : UInt8) (s : Bytes) : cut c (c :: s) = ([], some s) := by
  simp only [cut, ↓reduceIte]

theorem cut_cons_ne (h : b ≠ c) (s : Bytes) :
    cut c (b :: s) = (b :: (cut c s).1, (cut c s).2) := by
  simp only [cut, h, ↓reduceIte]

theorem not_mem_cut (c : UInt8) (s : Bytes) : c ∉ (cut c s).1 := by
  induction s with
  | nil => exact List.not_mem_nil
  | cons b s ih =>
    by_cases h : b = c
    · subst h
      rw [cut_cons_self]
      exact List.not_mem_nil
    · rw [cut_cons_ne h]
      exact List.not_mem_cons_of_ne_of_not_mem (Ne.symm h) ih

/-- A text without `c` in front stays in front of the first cut. -/
theorem cut_append (h : c ∉ p) (s : Bytes) :
    cut c (p ++ s) = (p ++ (cut c s).1, (cut c s).2) := by
  induction p with
  | nil => rfl
  | cons b p ih =>
    have hb : b ≠ c := fun e => h (e ▸ List.mem_cons_self)
    rw [List.cons_append, cut_cons_ne hb, ih (fun hm => h (List.mem_cons_of_mem _ hm))]
    rfl

theorem cut_append_sep (h : c ∉ p) (s : Bytes) : cut c (p ++ c :: s) = (p, some s) := by
  rw [cut_append h, cut_cons_self, List.append_nil]

theorem cut_some (h : cut c s = (p, some q)) : s = p ++ c :: q ∧ c ∉ p := by
  induction s generalizing p with
  | nil => cases h
  | cons b s ih =>
    by_cases hb : b = c
    · subst hb
      rw [cut_cons_self] at h
      cases h
      exact ⟨rfl, List.not_mem_nil⟩
    · rw [cut_cons_ne hb] at h
      injection h with hp hq
      obtain ⟨hs, hn⟩ := ih (Prod.ext rfl hq)
      subst hp
      exact ⟨congrArg (b :: ·) hs, List.not_mem_cons_of_ne_of_not_mem (Ne.symm hb) hn⟩

theorem cut_none (h : cut c s = (p, none)) : s = p ∧ c ∉ s := by
  induction s generalizing p with
  | nil =>
    cases h
    exact ⟨rfl, List.not_mem_nil⟩
  | cons b s ih =>
    by_cases hb : b = c
    · subst hb
      rw [cut_cons_self] at h
      cases h
    · rw [cut_cons_ne hb] at h
      injection h with hp hq
      obtain ⟨hs, hn⟩ := ih (Prod.ext rfl hq)
      subst hp
      exact ⟨congrArg (b :: ·) hs, List.not_mem_cons_of_ne_of_not_mem (Ne.symm hb) hn⟩

theorem cut_eq_self (h : c ∉ p) : cut c p = (p, none) := by
  simpa only [List.append_nil, cut_nil] using cut_append h []

/-- The pieces of a text between its line ends. -/
def lines : Bytes → List Bytes
  | [] => [[]]
  | b :: s =>
    match b, s with
    | 13, 10 :: s => [] :: lines s
    | b, s => (b :: (lines s).headD []) :: (lines s).tail

/-- Lines, each with its line end. -/
def unlines (ls : List Bytes) : Bytes := ls.flatMap (· ++ crlf)

@[simp] theorem unlines_nil : unlines [] = [] := rfl

theorem unlines_cons (l : Bytes) (ls : List Bytes) : unlines (l :: ls) = l ++ (crlf ++ unlines ls) := by
  rw [unlines, List.flatMap_cons, List.append_assoc]
  rfl

theorem unlines_append (ls ls' : List Bytes) : unlines (ls ++ ls') = unlines ls ++ unlines ls' :=
  List.flatMap_append ..

theorem lines_crlf (s : Bytes) : lines (crlf ++ s) = [] :: lines s := by
  simp only [crlf, CR, LF, List.cons_append, List.nil_append, lines]

theorem lines_ne_nil (s : Bytes) : lines s ≠ [] := by
  fun_cases lines s with
  | case1 => exact List.cons_ne_nil _ _
  | case2 s => exact List.cons_ne_nil _ _
  | case3 b s h => exact List.cons_ne_nil _ _

theorem lines_cons (h : ∀ t, b :: s ≠ crlf ++ t) :
    lines (b :: s) = (b :: (lines s).headD []) :: (lines s).tail := by
  rw [lines]
  rintro t rfl rfl
  exact h t rfl

theorem lines_append (s t : Bytes) : lines (s ++ (crlf ++ t)) = lines s ++ lines t := by
  induction s using lines.induct with
  | case1 => exact lines_crlf t
  | case2 s ih =>
    have hs : (13 : UInt8) :: 10 :: s = crlf ++ s := rfl
    rw [hs, List.append_assoc, lines_crlf, lines_crlf, ih]
    rfl
  | case3 b s h ih =>
    have hone : ∀ u, b :: s ≠ crlf ++ u := by
      intro u heq
      cases heq
      exact h u rfl rfl
    have hmore : ∀ u, b :: (s ++ (crlf ++ t)) ≠ crlf ++ u := by
      intro u heq
      cases s with
      | nil => cases heq
      | cons c s =>
        cases heq
        exact h s rfl rfl
    rw [List.cons_append, lines_cons hone, lines_cons hmore, ih]
    cases hl : lines s with
    | nil => exact absurd hl (lines_ne_nil s)
    | cons l ls => rfl

theorem lines_of_not_mem (h : CR ∉ l) : lines l = [l] := by
  induction l with
  | nil => rfl
  | cons b l ih =>
    have hb : ∀ t, b :: l ≠ crlf ++ t := by
      intro t heq
      cases heq
      exact h (List.mem_cons_self ..)
    rw [lines_cons hb, ih (fun hm => h (List.mem_cons_of_mem _ hm))]
    rfl

theorem lines_unlines (h : ∀ l ∈ ls, CR ∉ l) (s : Bytes) : lines (unlines ls ++ s) = ls ++ lines s := by
  induction ls with
  | nil => rfl
  | cons l ls ih =>
    rw [unlines_cons, List.append_assoc, List.append_assoc, lines_append,
      lines_of_not_mem (h l (List.mem_cons_self ..)), ih (fun l hl => h l (List.mem_cons_of_mem _ hl))]
    rfl

theorem unlines_lines (s : Bytes) : unlines (lines s) = s ++ crlf := by
  induction s using lines.induct with
  | case1 => rfl
  | case2 s ih =>
    have hs : (13 : UInt8) :: 10 :: s = crlf ++ s := rfl
    rw [hs, lines_crlf, unlines_cons, ih]
    rfl
  | case3 b s h ih =>
    have hone : ∀ u, b :: s ≠ crlf ++ u := by
      intro u heq
      cases heq
      exact h u rfl rfl
    rw [lines_cons hone, List.cons_append, ← ih]
    cases hl : lines s with
    | nil => exact absurd hl (lines_ne_nil s)
    | cons l ls =>
      rw [unlines_cons, unlines_cons]
      rfl

theorem lines_texts (ts : List Bytes) (s : Bytes) : lines (unlines ts ++ s) = ts.flatMap lines ++ lines s := by
  induction ts with
  | nil => rfl
  | cons t ts ih =>
    rw [unlines_cons, List.append_assoc, List.append_assoc, lines_append, ih, List.flatMap_cons,
      List.append_assoc]

end Hical
