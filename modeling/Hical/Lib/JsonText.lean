import Mathlib.Algebra.GroupWithZero.Nat
import Mathlib.Data.List.Basic

namespace Json

def isDigit (c : UInt8) : Bool := 48 ≤ c && c ≤ 57

def isExponent : List UInt8 → Bool
  | [] => true
  | c :: s =>
    (c == 101 || c == 69) &&
      match s with
      | [] => false
      | d :: s => if d = 43 ∨ d = 45 then s != [] && s.all isDigit else (d :: s).all isDigit

/-- A fraction, or nothing, and what may follow it. -/
def isFraction : List UInt8 → Bool
  | [] => true
  | c :: s =>
    if c = 46 then s.takeWhile isDigit != [] && isExponent (s.dropWhile isDigit) else isExponent (c :: s)

/-- An integer part without superfluous zeros, and what may follow it. -/
def isUnsigned (s : List UInt8) : Bool :=
  let digits := s.takeWhile isDigit
  digits != [] && (digits == [48] || digits.head? != some 48) && isFraction (s.dropWhile isDigit)

def isNumber : List UInt8 → Bool
  | [] => false
  | c :: s => if c = 45 then isUnsigned s else isUnsigned (c :: s)

/-- The number tokens. -/
abbrev Lexeme := { l : List UInt8 // isNumber l = true }

/-- JSON trees over byte strings and some sort of numbers, members in order. -/
inductive Tree (ν : Type) where
  | null
  | bool (b : Bool)
  | number (n : ν)
  | string (s : List UInt8)
  | array (xs : List (Tree ν))
  | object (members : List (List UInt8 × Tree ν))

/-- What a JSON text says, each number as it is written there. -/
abbrev Doc := Tree Lexeme

@[elab_as_elim]
theorem Tree.induct {ν : Type} {P : Tree ν → Prop} (null : P .null) (bool : ∀ b, P (.bool b))
    (number : ∀ n, P (.number n)) (string : ∀ s, P (.string s))
    (array : ∀ xs, (∀ x ∈ xs, P x) → P (.array xs))
    (object : ∀ ms, (∀ m ∈ ms, P m.2) → P (.object ms)) : ∀ t, P t
  | .null => null
  | .bool b => bool b
  | .number n => number n
  | .string s => string s
  | .array xs => array xs fun x _ => Tree.induct null bool number string array object x
  | .object ms => object ms fun m _ => Tree.induct null bool number string array object m.2
  termination_by t => sizeOf t
  decreasing_by
    · have := List.sizeOf_lt_of_mem ‹x ∈ xs›
      simp only [Tree.array.sizeOf_spec]
      omega
    · have hm := List.sizeOf_lt_of_mem ‹m ∈ ms›
      have hp : sizeOf m.2 < sizeOf m := by
        cases m
        simp only [Prod.mk.sizeOf_spec]
        omega
      simp only [Tree.object.sizeOf_spec]
      omega

mutual

def Tree.map (f : ν → μ) : Tree ν → Tree μ
  | .null => .null
  | .bool b => .bool b
  | .number n => .number (f n)
  | .string s => .string s
  | .array xs => .array (mapElements f xs)
  | .object ms => .object (mapMembers f ms)

def mapElements (f : ν → μ) : List (Tree ν) → List (Tree μ)
  | [] => []
  | x :: xs => x.map f :: mapElements f xs

def mapMembers (f : ν → μ) : List (List UInt8 × Tree ν) → List (List UInt8 × Tree μ)
  | [] => []
  | (k, x) :: ms => (k, x.map f) :: mapMembers f ms

end

theorem mapElements_eq (f : ν → μ) (xs : List (Tree ν)) : mapElements f xs = xs.map (Tree.map f) := by
  induction xs with
  | nil => rfl
  | cons x xs ih => rw [mapElements, ih, List.map_cons]

theorem mapMembers_eq (f : ν → μ) (ms : List (List UInt8 × Tree ν)) :
    mapMembers f ms = ms.map fun m => (m.1, m.2.map f) := by
  induction ms with
  | nil => rfl
  | cons m ms ih =>
    obtain ⟨k, x⟩ := m
    rw [mapMembers, ih, List.map_cons]

section Reading

def isWs (c : UInt8) : Bool := c == 32 || c == 9 || c == 10 || c == 13

def skipWs (s : List UInt8) : List UInt8 := s.dropWhile isWs

/-- White space and then that byte. -/
def expect (c : UInt8) (s : List UInt8) : Option (List UInt8) :=
  match skipWs s with
  | [] => none
  | b :: s => if b = c then some s else none

def hexValue (c : UInt8) : Option Nat :=
  if 48 ≤ c ∧ c ≤ 57 then some (c.toNat - 48)
  else if 65 ≤ c ∧ c ≤ 70 then some (c.toNat - 55)
  else if 97 ≤ c ∧ c ≤ 102 then some (c.toNat - 87)
  else none

/-- The sixteen bits after `\u`. -/
def codeUnit (a b c d : UInt8) : Option Nat := do
  let a ← hexValue a
  let b ← hexValue b
  let c ← hexValue c
  let d ← hexValue d
  return ((a * 16 + b) * 16 + c) * 16 + d

def utf8 (n : Nat) : List UInt8 :=
  if n < 0x80 then [.ofNat n]
  else if n < 0x800 then [.ofNat (0xC0 + n / 0x40), .ofNat (0x80 + n % 0x40)]
  else if n < 0x10000 then
    [.ofNat (0xE0 + n / 0x1000), .ofNat (0x80 + n / 0x40 % 0x40), .ofNat (0x80 + n % 0x40)]
  else
    [.ofNat (0xF0 + n / 0x40000), .ofNat (0x80 + n / 0x1000 % 0x40), .ofNat (0x80 + n / 0x40 % 0x40),
      .ofNat (0x80 + n % 0x40)]

/-- The byte that a backslash and one more byte stand for. -/
def shortEscape (c : UInt8) : Option UInt8 :=
  if c = 34 ∨ c = 92 ∨ c = 47 then some c
  else if c = 98 then some 8
  else if c = 102 then some 12
  else if c = 110 then some 10
  else if c = 114 then some 13
  else if c = 116 then some 9
  else none

/-- What a string holds, from behind its opening quote, and what follows its closing one. A half of
a surrogate pair on its own is no character. -/
def chars : List UInt8 → Option (List UInt8 × List UInt8)
  | [] => none
  | c :: s =>
    if c = 34 then some ([], s)
    else if c < 32 then none
    else if c = 92 then
      match s with
      | [] => none
      | e :: s =>
        if e = 117 then
          match s with
          | h₁ :: h₂ :: h₃ :: h₄ :: s =>
            match codeUnit h₁ h₂ h₃ h₄ with
            | none => none
            | some n =>
              if 0xD800 ≤ n ∧ n < 0xDC00 then
                match s with
                | b :: u :: l₁ :: l₂ :: l₃ :: l₄ :: s =>
                  match codeUnit l₁ l₂ l₃ l₄ with
                  | none => none
                  | some m =>
                    if b = 92 ∧ u = 117 ∧ 0xDC00 ≤ m ∧ m < 0xE000 then
                      (chars s).map fun p => (utf8 (0x10000 + (n - 0xD800) * 0x400 + (m - 0xDC00)) ++ p.1, p.2)
                    else none
                | _ => none
              else if 0xDC00 ≤ n ∧ n < 0xE000 then none
              else (chars s).map fun p => (utf8 n ++ p.1, p.2)
          | _ => none
        else
          match shortEscape e with
          | none => none
          | some x => (chars s).map fun p => (x :: p.1, p.2)
    else (chars s).map fun p => (c :: p.1, p.2)

/-- The bytes that a number is made of. -/
def numeric (c : UInt8) : Bool := isDigit c || c == 43 || c == 45 || c == 46 || c == 69 || c == 101

def number (s : List UInt8) : Option (Doc × List UInt8) :=
  if h : isNumber (s.takeWhile numeric) = true then some (.number ⟨s.takeWhile numeric, h⟩, s.dropWhile numeric) else none

def literal (word : List UInt8) (t : Doc) (s : List UInt8) : Option (Doc × List UInt8) :=
  if word.isPrefixOf s then some (t, s.drop word.length) else none

mutual

def value : Nat → List UInt8 → Option (Doc × List UInt8)
  | 0, _ => none
  | n + 1, s =>
    match skipWs s with
    | [] => none
    | c :: s =>
      if c = 34 then (chars s).map fun p => (.string p.1, p.2)
      else if c = 91 then
        match expect 93 s with
        | some s => some (.array [], s)
        | none => (elements n s).map fun p => (.array p.1, p.2)
      else if c = 123 then
        match expect 125 s with
        | some s => some (.object [], s)
        | none => (members n s).map fun p => (.object p.1, p.2)
      else if c = 116 then literal [114, 117, 101] (.bool true) s
      else if c = 102 then literal [97, 108, 115, 101] (.bool false) s
      else if c = 110 then literal [117, 108, 108] .null s
      else number (c :: s)

/-- The elements of an array up to its closing bracket, one of them at least. -/
def elements : Nat → List UInt8 → Option (List Doc × List UInt8)
  | 0, _ => none
  | n + 1, s =>
    match value n s with
    | none => none
    | some (x, s) =>
      match expect 44 s with
      | some s => (elements n s).map fun p => (x :: p.1, p.2)
      | none => (expect 93 s).map fun s => ([x], s)

/-- The members of an object up to its closing brace, one of them at least. -/
def members : Nat → List UInt8 → Option (List (List UInt8 × Doc) × List UInt8)
  | 0, _ => none
  | n + 1, s =>
    match (expect 34 s).bind chars with
    | none => none
    | some (k, s) =>
      match (expect 58 s).bind (value n) with
      | none => none
      | some (x, s) =>
        match expect 44 s with
        | some s => (members n s).map fun p => ((k, x) :: p.1, p.2)
        | none => (expect 125 s).map fun s => ([(k, x)], s)

end

/-- The tree of a JSON text: one value with white space around it. Every call takes a byte or
follows one that did, so that the fuel never runs out on a JSON text. -/
def parse (s : List UInt8) : Option Doc :=
  match value (2 * s.length + 1) s with
  | none => none
  | some (t, rest) => if skipWs rest = [] then some t else none

end Reading

section Rendering
variable (key str : List UInt8 → List UInt8)

def quote (s : List UInt8) : List UInt8 := 34 :: s ++ [34]

mutual

/-- The text of a tree without white space, its member names spelt by `key` and its strings by
`str`. -/
def render : Doc → List UInt8
  | .null => [110, 117, 108, 108]
  | .bool true => [116, 114, 117, 101]
  | .bool false => [102, 97, 108, 115, 101]
  | .number l => l.1
  | .string s => quote (str s)
  | .array xs => 91 :: [44].intercalate (renders xs) ++ [93]
  | .object ms => 123 :: [44].intercalate (renderMembers ms) ++ [125]

def renders : List Doc → List (List UInt8)
  | [] => []
  | x :: xs => render x :: renders xs

def renderMembers : List (List UInt8 × Doc) → List (List UInt8)
  | [] => []
  | (k, x) :: ms => (quote (key k) ++ 58 :: render x) :: renderMembers ms

end

def renderMember (m : List UInt8 × Doc) : List UInt8 := quote (key m.1) ++ 58 :: render key str m.2

theorem renders_eq (xs : List Doc) : renders key str xs = xs.map (render key str) := by
  induction xs with
  | nil => rfl
  | cons x xs ih => rw [renders, ih, List.map_cons]

theorem renderMembers_eq (ms : List (List UInt8 × Doc)) :
    renderMembers key str ms = ms.map (renderMember key str) := by
  induction ms with
  | nil => rfl
  | cons m ms ih =>
    obtain ⟨k, x⟩ := m
    rw [renderMembers, ih, List.map_cons, renderMember]

theorem render_array (xs : List Doc) :
    render key str (.array xs) = 91 :: [44].intercalate (xs.map (render key str)) ++ [93] := by
  rw [render, renders_eq]

theorem render_object (ms : List (List UInt8 × Doc)) :
    render key str (.object ms) = 123 :: [44].intercalate (ms.map (renderMember key str)) ++ [125] := by
  rw [render, renderMembers_eq]

end Rendering

theorem intercalate_cons_cons (c : UInt8) (x y : List UInt8) (l : List (List UInt8)) :
    [c].intercalate (x :: y :: l) = x ++ c :: [c].intercalate (y :: l) := by
  simp [List.intercalate]

theorem intercalate_cons (c : UInt8) (x : List UInt8) (l : List (List UInt8)) :
    [c].intercalate (x :: l) = x ++ l.flatMap (c :: ·) := by
  induction l generalizing x with
  | nil => simp [List.intercalate]
  | cons y l ih => rw [intercalate_cons_cons, ih, List.flatMap_cons, List.cons_append]

@[simp] theorem intercalate_one (c : UInt8) (x : List UInt8) : [c].intercalate [x] = x := by
  simp [List.intercalate]

theorem intercalate_snoc (c : UInt8) (l : List (List UInt8)) (x : List UInt8) :
    [c].intercalate (l ++ [x]) = [c].intercalate l ++ (if l = [] then [] else [c]) ++ x := by
  induction l with
  | nil => simp [List.intercalate]
  | cons y l ih =>
    cases l with
    | nil => simp [List.intercalate]
    | cons z l =>
      rw [List.cons_append, List.cons_append, intercalate_cons_cons, ← List.cons_append, ih,
        intercalate_cons_cons]
      simp

/-- The spelling `f s` between quotes is read as `s`. -/
def Spells (f : List UInt8 → List UInt8) (s : List UInt8) : Prop :=
  ∀ rest, chars (f s ++ 34 :: rest) = some (s, rest)

/-- A tree whose names and strings are read back. -/
inductive Readable (key str : List UInt8 → List UInt8) : Doc → Prop where
  | null : Readable key str .null
  | bool (b : Bool) : Readable key str (.bool b)
  | number (l : Lexeme) : Readable key str (.number l)
  | string (h : Spells str s) : Readable key str (.string s)
  | array (h : ∀ x ∈ xs, Readable key str x) : Readable key str (.array xs)
  | object (hk : ∀ m ∈ ms, Spells key m.1) (h : ∀ m ∈ ms, Readable key str m.2) : Readable key str (.object ms)

section Spelling

@[simp] theorem chars_quote (s : List UInt8) : chars (34 :: s) = some ([], s) := by
  rw [chars.eq_def]
  rfl

theorem spells_flatMap {e : UInt8 → List UInt8}
    (h : ∀ c s, chars (e c ++ s) = (chars s).map fun p => (c :: p.1, p.2)) (s : List UInt8) :
    Spells (List.flatMap e) s := by
  intro rest
  induction s with
  | nil => exact chars_quote rest
  | cons c s ih => rw [List.flatMap_cons, List.append_assoc, h, ih, Option.map_some]

/-- The bytes that stand for themselves. -/
def plain (c : UInt8) : Bool := c != 34 && c != 92 && 32 ≤ c

theorem chars_plain (h : plain c = true) (s : List UInt8) :
    chars (c :: s) = (chars s).map fun p => (c :: p.1, p.2) := by
  simp only [plain, bne_iff_ne, ne_eq, Bool.and_eq_true, decide_eq_true_eq] at h
  obtain ⟨⟨hquote, hback⟩, hlow⟩ := h
  rw [chars.eq_def]
  simp only [if_neg hquote, if_neg (UInt8.not_lt.2 hlow), if_neg hback]

theorem spells_plain (h : s.all plain = true) : Spells id s := by
  intro rest
  induction s with
  | nil => exact chars_quote rest
  | cons c s ih =>
    rw [List.all_cons, Bool.and_eq_true] at h
    change chars (c :: (s ++ 34 :: rest)) = _
    rw [chars_plain h.1]
    have hs : chars (s ++ 34 :: rest) = some (s, rest) := ih h.2
    rw [hs, Option.map_some]

end Spelling

section Numbers

theorem all_numeric {s : List UInt8} (h : s.all isDigit = true) : s.all numeric = true := by
  apply List.all_eq_true.2
  intro c hc
  have hdigit := List.all_eq_true.1 h c hc
  simp [numeric, hdigit]

theorem isExponent_numeric (h : isExponent s = true) : s.all numeric = true := by
  cases s with
  | nil => rfl
  | cons c s =>
    rw [isExponent.eq_def] at h
    simp only [Bool.and_eq_true, Bool.or_eq_true, beq_iff_eq] at h
    obtain ⟨hc, hs⟩ := h
    have hhead : numeric c = true := by rcases hc with rfl | rfl <;> rfl
    rw [List.all_cons, hhead, Bool.true_and]
    cases s with
    | nil => rfl
    | cons d s =>
      simp only at hs
      split at hs
      · next hd =>
        rw [Bool.and_eq_true] at hs
        rw [List.all_cons, all_numeric hs.2, Bool.and_true]
        rcases hd with rfl | rfl <;> rfl
      · exact all_numeric hs

theorem isFraction_numeric (h : isFraction s = true) : s.all numeric = true := by
  cases s with
  | nil => rfl
  | cons c s =>
    rw [isFraction] at h
    split at h
    · next hc =>
      subst hc
      rw [Bool.and_eq_true] at h
      rw [← List.takeWhile_append_dropWhile (p := isDigit) (l := s), List.all_cons, List.all_append,
        isExponent_numeric h.2, Bool.and_true]
      exact all_numeric List.all_takeWhile
    · exact isExponent_numeric h

theorem isUnsigned_numeric (h : isUnsigned s = true) : s.all numeric = true := by
  rw [isUnsigned, Bool.and_eq_true] at h
  rw [← List.takeWhile_append_dropWhile (p := isDigit) (l := s), List.all_append,
    isFraction_numeric h.2, Bool.and_true]
  exact all_numeric List.all_takeWhile

theorem isNumber_numeric (h : isNumber l = true) : l.all numeric = true := by
  cases l with
  | nil => rfl
  | cons c s =>
    rw [isNumber] at h
    split at h
    · next hc =>
      subst hc
      rw [List.all_cons, isUnsigned_numeric h]
      rfl
    · exact isUnsigned_numeric h

/-- Nothing that would go on a number. -/
def Stops (rest : List UInt8) : Prop := ∀ c s, rest = c :: s → numeric c = false

theorem number_append (l : Lexeme) (hstop : Stops rest) : number (l.1 ++ rest) = some (.number l, rest) := by
  have hall := List.all_eq_true.1 (isNumber_numeric l.2)
  have htake : (l.1 ++ rest).takeWhile numeric = l.1 := by
    rw [List.takeWhile_append_of_pos hall]
    cases rest with
    | nil => simp
    | cons c s => simp [hstop c s rfl]
  have hdrop : (l.1 ++ rest).dropWhile numeric = rest := by
    rw [List.dropWhile_append_of_pos hall]
    cases rest with
    | nil => rfl
    | cons c s => simp [hstop c s rfl]
  have hnumber : isNumber ((l.1 ++ rest).takeWhile numeric) = true := by
    rw [htake]
    exact l.2
  rw [number, dif_pos hnumber, hdrop]
  simp only [htake]

theorem isNumber_head (h : isNumber l = true) : ∃ c s, l = c :: s ∧ numeric c = true := by
  cases l with
  | nil => cases h
  | cons c s =>
    have hall := isNumber_numeric h
    rw [List.all_cons, Bool.and_eq_true] at hall
    exact ⟨c, s, rfl, hall.1⟩

end Numbers

section Reading
variable {key str : List UInt8 → List UInt8}

theorem skipWs_cons (h : isWs c = false) (s : List UInt8) : skipWs (c :: s) = c :: s := by
  rw [skipWs, List.dropWhile_cons, h]
  rfl

theorem expect_self (h : isWs c = false) (s : List UInt8) : expect c (c :: s) = some s := by
  rw [expect, skipWs_cons h]
  exact if_pos rfl

theorem expect_other (h : isWs b = false) (hne : b ≠ c) (s : List UInt8) : expect c (b :: s) = none := by
  rw [expect, skipWs_cons h]
  exact if_neg hne

theorem stops_cons (h : numeric c = false) (s : List UInt8) : Stops (c :: s) := by
  intro b t heq
  cases heq
  exact h

theorem stops_nil : Stops [] := by
  intro c s heq
  cases heq

/-- The text of a value begins with a byte that is neither white space nor one of `,:]}`. -/
theorem render_head (h : Readable key str t) :
    ∃ c s, render key str t = c :: s ∧ isWs c = false ∧ c ≠ 93 ∧ c ≠ 125 := by
  cases h with
  | null | string h => exact ⟨_, _, rfl, rfl, by decide, by decide⟩
  | bool b =>
    cases b with
    | false | true => exact ⟨_, _, rfl, rfl, by decide, by decide⟩
  | number l =>
    obtain ⟨c, s, hcs, hc⟩ := isNumber_head l.2
    refine ⟨c, s, hcs, ?_, ?_, ?_⟩
    · cases hws : isWs c with
      | false => rfl
      | true =>
        simp only [isWs, Bool.or_eq_true, beq_iff_eq] at hws
        rcases hws with ((rfl | rfl) | rfl) | rfl <;> cases hc
    · rintro rfl
      cases hc
    · rintro rfl
      cases hc
  | array h => exact ⟨_, _, render_array .., rfl, by decide, by decide⟩
  | object hk h => exact ⟨_, _, render_object .., rfl, by decide, by decide⟩

theorem literal_append (word rest : List UInt8) (t : Doc) : literal word t (word ++ rest) = some (t, rest) := by
  rw [literal, if_pos (List.isPrefixOf_iff_prefix.2 (List.prefix_append ..)), List.drop_left]

theorem skipWs_render (h : Readable key str t) (rest : List UInt8) :
    skipWs (render key str t ++ rest) = render key str t ++ rest := by
  obtain ⟨c, s, hs, hc, -⟩ := render_head h
  rw [hs]
  exact skipWs_cons hc _

theorem value_bracket (n : Nat) (s : List UInt8) : value (n + 1) (91 :: s) =
    match expect 93 s with
    | some s => some (.array [], s)
    | none => (elements n s).map fun p => (.array p.1, p.2) := by
  rw [value, skipWs_cons rfl]
  rfl

theorem value_brace (n : Nat) (s : List UInt8) : value (n + 1) (123 :: s) =
    match expect 125 s with
    | some s => some (.object [], s)
    | none => (members n s).map fun p => (.object p.1, p.2) := by
  rw [value, skipWs_cons rfl]
  rfl

/-- What reading is proved of: the text of the tree is read with fuel enough for its length. -/
def Returns (key str : List UInt8 → List UInt8) (t : Doc) : Prop :=
  ∀ n rest, 2 * (render key str t).length ≤ n → Stops rest → value n (render key str t ++ rest) = some (t, rest)

theorem elements_render (x : Doc) (xs : List Doc) (hr : ∀ y ∈ x :: xs, Returns key str y) (n : Nat)
    (rest : List UInt8) (hn : 2 * ([44].intercalate ((x :: xs).map (render key str))).length + 1 ≤ n) :
    elements n ([44].intercalate ((x :: xs).map (render key str)) ++ 93 :: rest) = some (x :: xs, rest) := by
  induction xs generalizing x n with
  | nil =>
    obtain ⟨n, rfl⟩ : ∃ m, n = m + 1 := ⟨n - 1, by omega⟩
    simp only [List.map_cons, List.map_nil, intercalate_one] at hn ⊢
    rw [elements, hr x (List.mem_cons_self ..) n _ (by omega) (stops_cons rfl _)]
    simp only
    rw [expect_other rfl (by decide), expect_self rfl]
    rfl
  | cons y ys ih =>
    obtain ⟨n, rfl⟩ : ∃ m, n = m + 1 := ⟨n - 1, by omega⟩
    rw [List.map_cons, List.map_cons, intercalate_cons_cons, ← List.map_cons, List.length_append,
      List.length_cons] at hn
    rw [List.map_cons, List.map_cons, intercalate_cons_cons, ← List.map_cons, List.append_assoc,
      List.cons_append, elements, hr x (List.mem_cons_self ..) n _ (by omega) (stops_cons rfl _)]
    simp only
    rw [expect_self rfl]
    simp only
    rw [ih y (fun z hz => hr z (List.mem_cons_of_mem _ hz)) n (by omega), Option.map_some]

theorem members_render (m : List UInt8 × Doc) (ms : List (List UInt8 × Doc))
    (hk : ∀ k ∈ m :: ms, Spells key k.1) (hr : ∀ k ∈ m :: ms, Returns key str k.2) (n : Nat) (rest : List UInt8)
    (hn : 2 * ([44].intercalate ((m :: ms).map (renderMember key str))).length + 1 ≤ n) :
    members n ([44].intercalate ((m :: ms).map (renderMember key str)) ++ 125 :: rest) = some (m :: ms, rest) := by
  have hone (m : List UInt8 × Doc) (hk : Spells key m.1) (hr : Returns key str m.2) (n : Nat)
      (hn : 2 * (renderMember key str m).length ≤ n) (c : UInt8) (tail : List UInt8) (hc : numeric c = false) :
      ∃ s, (expect 34 (renderMember key str m ++ c :: tail)).bind chars = some (m.1, s) ∧
        (expect 58 s).bind (value n) = some (m.2, c :: tail) := by
    refine ⟨58 :: (render key str m.2 ++ c :: tail), ?_, ?_⟩
    · simp only [renderMember, quote, List.cons_append, List.append_assoc]
      rw [expect_self rfl]
      exact hk _
    · rw [expect_self rfl]
      apply hr n _ _ (stops_cons hc _)
      have hlen : (render key str m.2).length ≤ (renderMember key str m).length := by
        simp only [renderMember, List.length_append, List.length_cons]
        omega
      omega
  induction ms generalizing m n with
  | nil =>
    obtain ⟨n, rfl⟩ : ∃ m, n = m + 1 := ⟨n - 1, by omega⟩
    simp only [List.map_cons, List.map_nil, intercalate_one] at hn ⊢
    obtain ⟨s, hs, hv⟩ := hone m (hk m (List.mem_cons_self ..)) (hr m (List.mem_cons_self ..)) n (by omega) 125
      rest rfl
    rw [members, hs]
    simp only
    rw [hv]
    simp only
    rw [expect_other rfl (by decide), expect_self rfl]
    rfl
  | cons m' ms ih =>
    obtain ⟨n, rfl⟩ : ∃ m, n = m + 1 := ⟨n - 1, by omega⟩
    rw [List.map_cons, List.map_cons, intercalate_cons_cons, ← List.map_cons, List.length_append,
      List.length_cons] at hn
    rw [List.map_cons, List.map_cons, intercalate_cons_cons, ← List.map_cons, List.append_assoc, List.cons_append]
    obtain ⟨s, hs, hv⟩ := hone m (hk m (List.mem_cons_self ..)) (hr m (List.mem_cons_self ..)) n (by omega) 44
      ([44].intercalate ((m' :: ms).map (renderMember key str)) ++ 125 :: rest) rfl
    rw [members, hs]
    simp only
    rw [hv]
    simp only
    rw [expect_self rfl]
    simp only
    rw [ih m' (fun k hm => hk k (List.mem_cons_of_mem _ hm)) (fun k hm => hr k (List.mem_cons_of_mem _ hm)) n
      (by omega), Option.map_some]

theorem value_render (h : Readable key str t) : Returns key str t := by
  induction t using Tree.induct with
  | null =>
    intro n rest hn hstop
    obtain ⟨n, rfl⟩ : ∃ m, n = m + 1 := ⟨n - 1, by simp only [render, List.length_cons] at hn; omega⟩
    rw [value, skipWs_render h]
    exact literal_append [117, 108, 108] rest .null
  | bool b =>
    intro n rest hn hstop
    cases b with
    | false =>
      obtain ⟨n, rfl⟩ : ∃ m, n = m + 1 := ⟨n - 1, by simp only [render, List.length_cons] at hn; omega⟩
      rw [value, skipWs_render h]
      exact literal_append [97, 108, 115, 101] rest (.bool false)
    | true =>
      obtain ⟨n, rfl⟩ : ∃ m, n = m + 1 := ⟨n - 1, by simp only [render, List.length_cons] at hn; omega⟩
      rw [value, skipWs_render h]
      exact literal_append [114, 117, 101] rest (.bool true)
  | number l =>
    intro n rest hn hstop
    obtain ⟨c, s, hcs, hc⟩ := isNumber_head l.2
    obtain ⟨n, rfl⟩ : ∃ m, n = m + 1 := ⟨n - 1, by simp only [render, hcs, List.length_cons] at hn; omega⟩
    have hother (d : UInt8) (hd : numeric d = false) : c ≠ d := by
      rintro rfl
      rw [hc] at hd
      cases hd
    rw [value, skipWs_render (.number l)]
    simp only [render, hcs, List.cons_append]
    rw [if_neg (hother _ rfl), if_neg (hother _ rfl), if_neg (hother _ rfl), if_neg (hother _ rfl),
      if_neg (hother _ rfl), if_neg (hother _ rfl), ← List.cons_append, ← hcs]
    exact number_append l hstop
  | string s =>
    intro n rest hn hstop
    cases h with
    | string hs =>
      obtain ⟨n, rfl⟩ : ∃ m, n = m + 1 := ⟨n - 1, by simp only [render, quote, List.cons_append, List.length_cons] at hn; omega⟩
      rw [value, skipWs_render (.string hs)]
      simp only [render, quote, List.cons_append, List.append_assoc, if_true, List.nil_append]
      rw [hs rest]
      rfl
  | array xs ih =>
    intro n rest hn hstop
    cases h with
    | array hxs =>
      rw [render_array, List.cons_append, List.length_cons, List.length_append] at hn
      obtain ⟨n, rfl⟩ : ∃ m, n = m + 1 := ⟨n - 1, by omega⟩
      rw [render_array, List.cons_append, List.cons_append, List.append_assoc, List.singleton_append, value_bracket]
      cases xs with
      | nil =>
        have hend : expect 93 ([44].intercalate (([] : List Doc).map (render key str)) ++ 93 :: rest) = some rest :=
          expect_self rfl rest
        rw [hend]
      | cons x xs =>
        obtain ⟨c, s, hcs, hc, hne, -⟩ := render_head (hxs x (List.mem_cons_self ..))
        have hfirst : ∃ tail, [44].intercalate ((x :: xs).map (render key str)) = c :: tail := by
          cases xs with
          | nil => exact ⟨s, by rw [List.map_cons, List.map_nil, intercalate_one, hcs]⟩
          | cons y ys => exact ⟨_, by rw [List.map_cons, List.map_cons, intercalate_cons_cons, hcs]; rfl⟩
        obtain ⟨tail, htail⟩ := hfirst
        have hnone : expect 93 ([44].intercalate ((x :: xs).map (render key str)) ++ 93 :: rest) = none := by
          rw [htail]
          exact expect_other hc hne _
        rw [hnone]
        simp only
        rw [elements_render x xs (fun y hy => ih y hy (hxs y hy)) n rest (by simp only [List.length_cons, List.length_nil] at hn; omega),
          Option.map_some]
  | object ms ih =>
    intro n rest hn hstop
    cases h with
    | object hk hms =>
      rw [render_object, List.cons_append, List.length_cons, List.length_append] at hn
      obtain ⟨n, rfl⟩ : ∃ m, n = m + 1 := ⟨n - 1, by omega⟩
      rw [render_object, List.cons_append, List.cons_append, List.append_assoc, List.singleton_append, value_brace]
      cases ms with
      | nil =>
        have hend : expect 125 ([44].intercalate (([] : List (List UInt8 × Doc)).map (renderMember key str)) ++
            125 :: rest) = some rest :=
          expect_self rfl rest
        rw [hend]
      | cons m ms =>
        have hfirst : ∃ tail, [44].intercalate ((m :: ms).map (renderMember key str)) = 34 :: tail := by
          cases ms with
          | nil => exact ⟨_, by rw [List.map_cons, List.map_nil, intercalate_one, renderMember, quote]; rfl⟩
          | cons y ys => exact ⟨_, by rw [List.map_cons, List.map_cons, intercalate_cons_cons, renderMember, quote]; rfl⟩
        obtain ⟨tail, htail⟩ := hfirst
        have hnone : expect 125 ([44].intercalate ((m :: ms).map (renderMember key str)) ++ 125 :: rest) = none := by
          rw [htail]
          exact expect_other rfl (by decide) _
        rw [hnone]
        simp only
        rw [members_render m ms hk (fun k hm => ih k hm (hms k hm)) n rest (by simp only [List.length_cons, List.length_nil] at hn; omega),
          Option.map_some]

theorem parse_render (h : Readable key str t) : parse (render key str t) = some t := by
  have hv := value_render h (2 * (render key str t).length + 1) [] (by omega) stops_nil
  rw [List.append_nil] at hv
  rw [parse, hv]
  rfl

end Reading

end Json
