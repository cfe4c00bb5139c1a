import Mathlib.Data.List.Basic
import Mathlib.Data.List.TakeDrop

namespace Buffer

section Buffer
variable {α : Type}

/-- `resize(n)`: what does not fit is cut off, new places hold the fill value. -/
def resize (fill : α) (out : List α) (n : Nat) : List α :=
  out.take n ++ List.replicate (n - out.length) fill

/-- `memcpy` into a buffer at a place. -/
def copy (out : List α) (i : Nat) (src : List α) : List α :=
  out.take i ++ src ++ out.drop (i + src.length)

/-- A region of a buffer rewritten in place. -/
def update (out : List α) (i n : Nat) (f : List α → List α) : List α :=
  copy out i (f ((out.drop i).take n))

theorem resize_grow (fill : α) (out : List α) (k : Nat) :
    resize fill out (out.length + k) = out ++ List.replicate k fill := by
  rw [resize, List.take_of_length_le (Nat.le_add_right _ _), Nat.add_sub_cancel_left]

theorem copy_between {old : List α} (h : old.length = src.length) (before after : List α) :
    copy (before ++ old ++ after) before.length src = before ++ src ++ after := by
  rw [copy, List.append_assoc before old, List.take_left, ← h, ← List.length_append,
    ← List.append_assoc, List.drop_left]

theorem copy_length (h : i + src.length ≤ out.length) : (copy out i src).length = out.length := by
  simp only [copy, List.length_append, List.length_take, List.length_drop]
  omega

theorem set_eq_copy (h : i < out.length) (b : α) : out.set i b = copy out i [b] := by
  rw [List.set_eq_take_append_cons_drop, if_pos h, copy, List.append_assoc]
  rfl

theorem copy_copy {out : List α} (h : i + first.length ≤ out.length) (second : List α) :
    copy (copy out i first) (i + first.length) second = copy out i (first ++ second) := by
  have hlen : (out.take i ++ first).length = i + first.length := by
    rw [List.length_append, List.length_take, Nat.min_eq_left (by omega)]
  rw [copy, copy, copy, ← hlen, List.take_left, List.drop_append, hlen, List.length_append]
  rw [List.drop_of_length_le (by rw [hlen]; omega), List.nil_append, List.drop_drop,
    Nat.add_sub_cancel_left, List.append_assoc (out.take i), Nat.add_assoc]

theorem set_copy {out : List α} (hk : first.length = k) (h : i + k < out.length) (b : α) :
    (copy out i first).set (i + k) b = copy out i (first ++ [b]) := by
  subst hk
  rw [set_eq_copy, copy_copy (Nat.le_of_lt h)]
  rw [copy_length (Nat.le_of_lt h)]
  exact h

theorem update_between {old : List α} (f : List α → List α) (h : (f old).length = old.length)
    (before after : List α) :
    update (before ++ old ++ after) before.length old.length f = before ++ f old ++ after := by
  have hread : ((before ++ old ++ after).drop before.length).take old.length = old := by
    rw [List.append_assoc, List.drop_left, List.take_left]
  rw [update, hread, copy_between h.symm]

/-- The elements from a place on. -/
def slice (out : List α) (i n : Nat) : List α := (out.drop i).take n

theorem resize_length (fill : α) (out : List α) (n : Nat) : (resize fill out n).length = n := by
  rw [resize, List.length_append, List.length_take, List.length_replicate]
  omega

theorem slice_length (h : i + n ≤ out.length) : (slice out i n).length = n := by
  rw [slice, List.length_take, List.length_drop, Nat.min_eq_left (by omega)]

theorem slice_append (h : i + n ≤ out.length) (more : List α) : slice (out ++ more) i n = slice out i n := by
  rw [slice, slice, List.drop_append_of_le_length (by omega), List.take_append_of_le_length (by rw [List.length_drop]; omega)]

theorem slice_split (out : List α) (i m n : Nat) : slice out i (m + n) = slice out i m ++ slice out (i + m) n := by
  rw [slice, List.take_add, List.drop_drop]
  rfl

theorem slice_drop (out : List α) (i n d : Nat) : (slice out i n).drop d = slice out (i + d) (n - d) := by
  rw [slice, slice, List.drop_take, List.drop_drop]

theorem slice_take (h : d ≤ n) (out : List α) : (slice out i n).take d = slice out i d := by
  rw [slice, slice, List.take_take, Nat.min_eq_left h]

theorem slice_copy_front (h : j + n ≤ i) (hi : i ≤ out.length) : slice (copy out i src) j n = slice out j n := by
  have hlen : (out.take i).length = i := by rw [List.length_take, Nat.min_eq_left hi]
  have hfront : j + n ≤ (out.take i).length := by rw [hlen]; exact h
  have hsplit := slice_append hfront (out.drop i)
  rw [List.take_append_drop] at hsplit
  rw [copy, List.append_assoc, slice_append hfront, hsplit]

theorem slice_copy (hi : i ≤ out.length) : slice (copy out i src) i src.length = src := by
  have hlen : (out.take i).length = i := by rw [List.length_take, Nat.min_eq_left hi]
  have hdrop : (out.take i ++ src ++ out.drop (i + src.length)).drop i = src ++ out.drop (i + src.length) := by
    rw [List.append_assoc]
    exact List.drop_left' hlen
  rw [copy, slice, hdrop, List.take_left]

theorem slice_copy_behind (h : i + src.length ≤ j) (hi : i ≤ out.length) : slice (copy out i src) j n = slice out j n := by
  have hlen : (out.take i ++ src).length = i + src.length := by
    rw [List.length_append, List.length_take, Nat.min_eq_left hi]
  rw [copy, slice, List.drop_append, List.drop_of_length_le (by omega), hlen, List.nil_append, List.drop_drop, slice,
    Nat.add_sub_cancel' h]

end Buffer

end Buffer

/-! Parts of a growing text, kept as positions in it. -/

namespace Spans

structure Span where
  start : Nat
  size : Nat
  deriving DecidableEq, Repr

variable {τ : Type}

def Span.text (s : Span) (whole : List τ) : List τ := (whole.drop s.start).take s.size

def Span.Within (s : Span) (whole : List τ) : Prop := s.start + s.size ≤ whole.length

theorem Span.Within.append {whole : List τ} {s : Span} (h : s.Within whole) (more : List τ) :
    s.Within (whole ++ more) := by
  rw [Within, List.length_append]
  exact Nat.le_trans h (Nat.le_add_right _ _)

theorem Span.Within.text_append {whole : List τ} {s : Span} (h : s.Within whole) (more : List τ) :
    s.text (whole ++ more) = s.text whole := by
  rw [Within] at h
  rw [text, text, List.drop_append_of_le_length (by omega),
    List.take_append_of_le_length (by rw [List.length_drop]; omega)]

def next (whole part : List τ) : Span := ⟨whole.length, part.length⟩

theorem next_within (whole part : List τ) : (next whole part).Within (whole ++ part) := by
  rw [Span.Within, List.length_append]
  exact Nat.le_refl _

theorem next_text (whole part : List τ) : (next whole part).text (whole ++ part) = part := by
  rw [Span.text, next, List.drop_left, List.take_length]

end Spans
