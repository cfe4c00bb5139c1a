import Hical.Json.Escape
import Hical.Lib.JsonSize
import Hical.Members
import Mathlib.Data.List.Forall2

namespace Hical
open Json

/-- The number kinds of `boost::json::value`, a double by its bits. -/
inductive Number where
  | int64 (n : Int64)
  | uint64 (n : UInt64)
  | double (bits : UInt64)
  deriving DecidableEq

def Number.isFinite : Number → Bool
  | .int64 _ | .uint64 _ => true
  | .double bits => (bits >>> 52) &&& 0x7ff != 0x7ff

/-- The integer of a number of one of the two integer kinds. -/
def Number.int? : Number → Option Int
  | .int64 n => some n.toInt
  | .uint64 n => some n.toNat
  | .double _ => none

/-- How a number is printed, a double somehow. -/
def Number.lexeme (printDouble : UInt64 → Lexeme) : Number → Lexeme
  | .int64 n => intLexeme n.toInt
  | .uint64 n => intLexeme n.toNat
  | .double bits => printDouble bits

abbrev Value := Json.Tree Number

/-- The values that there are: no object has a name twice, and no number is infinite. -/
inductive SoundValue : Value → Prop where
  | null : SoundValue .null
  | bool (b : Bool) : SoundValue (.bool b)
  | number (h : n.isFinite = true) : SoundValue (.number n)
  | string (s : Bytes) : SoundValue (.string s)
  | array (h : ∀ x ∈ xs, SoundValue x) : SoundValue (.array xs)
  | object (hd : Distinct ms) (h : ∀ m ∈ ms, SoundValue m.2) : SoundValue (.object ms)

section Settling

mutual

/-- What a JSON text means: of the members of one name the last one counts. -/
def settle : Doc → Doc
  | .array xs => .array (settleElements xs)
  | .object ms => .object (settleMembers ms [])
  | t => t

def settleElements : List Doc → List Doc
  | [] => []
  | x :: xs => settle x :: settleElements xs

def settleMembers : List (Bytes × Doc) → List (Bytes × Doc) → List (Bytes × Doc)
  | [], settled => settled
  | (k, x) :: ms, settled => settleMembers ms (setMember k (settle x) settled)

end

theorem settleElements_eq (xs : List Doc) : settleElements xs = xs.map settle := by
  induction xs with
  | nil => rfl
  | cons x xs ih => rw [settleElements, ih, List.map_cons]

def settleMember (m : Bytes × Doc) : Bytes × Doc := (m.1, settle m.2)

theorem settleMembers_distinct (ms settled : List (Bytes × Doc)) (h : Distinct (settled ++ ms)) :
    settleMembers ms settled = settled ++ ms.map settleMember := by
  induction ms generalizing settled with
  | nil => rw [settleMembers, List.map_nil, List.append_nil]
  | cons m ms ih =>
    obtain ⟨k, x⟩ := m
    have hnames : (settled.map (·.1) ++ k :: ms.map (·.1)).Nodup := by
      have hd : ((settled ++ (k, x) :: ms).map (·.1)).Nodup := h
      rwa [List.map_append, List.map_cons] at hd
    have hk : k ∉ settled.map (·.1) := fun hk =>
      (List.nodup_append.1 hnames).2.2 k hk k (List.mem_cons_self ..) rfl
    have hnext : Distinct ((settled ++ [(k, settle x)]) ++ ms) := by
      rw [Distinct, List.append_assoc, List.map_append]
      exact hnames
    rw [settleMembers, setMember_new k (settle x) settled hk, ih _ hnext, List.append_assoc, List.map_cons]
    rfl

theorem memberSizes_set (name : Bytes) (x : Doc) (ms : List (Bytes × Doc)) :
    memberSizes (setMember name x ms) ≤ memberSizes ms + (textSize name + x.size + 4) := by
  induction ms with
  | nil =>
    simp only [setMember, memberSizes]
    omega
  | cons m ms ih =>
    obtain ⟨k, y⟩ := m
    rw [setMember]
    split
    · next hk =>
      subst hk
      simp only [memberSizes]
      omega
    · simp only [memberSizes]
      omega

theorem setMember_ne_nil (name : Bytes) (x : α) (ms : List (Bytes × α)) : setMember name x ms ≠ [] := by
  cases ms with
  | nil => exact List.cons_ne_nil _ _
  | cons m ms =>
    rw [setMember]
    split <;> exact List.cons_ne_nil _ _

theorem settleElements_size (xs : List Doc) (h : ∀ x ∈ xs, (settle x).size ≤ x.size) :
    sizes (settleElements xs) ≤ sizes xs ∧ (settleElements xs).isEmpty = xs.isEmpty := by
  induction xs with
  | nil => exact ⟨Nat.le_refl _, rfl⟩
  | cons x xs ih =>
    have hx := h x (List.mem_cons_self ..)
    have hxs := (ih fun y hy => h y (List.mem_cons_of_mem _ hy)).1
    simp only [settleElements, sizes]
    exact ⟨by omega, rfl⟩

theorem settleMembers_size (ms settled : List (Bytes × Doc)) (h : ∀ m ∈ ms, (settle m.2).size ≤ m.2.size) :
    memberSizes (settleMembers ms settled) ≤ memberSizes ms + memberSizes settled ∧
      ((settleMembers ms settled).isEmpty = (ms.isEmpty && settled.isEmpty)) := by
  induction ms generalizing settled with
  | nil => exact ⟨by simp [settleMembers, memberSizes], by simp [settleMembers]⟩
  | cons m ms ih =>
    obtain ⟨k, x⟩ := m
    have hx : (settle x).size ≤ x.size := h (k, x) (List.mem_cons_self ..)
    have hset := memberSizes_set k (settle x) settled
    obtain ⟨hsize, hempty⟩ := ih (setMember k (settle x) settled) fun m hm => h m (List.mem_cons_of_mem _ hm)
    have hnonempty : (setMember k (settle x) settled).isEmpty = false :=
      List.isEmpty_eq_false_iff.2 (setMember_ne_nil k (settle x) settled)
    simp only [settleMembers, memberSizes]
    refine ⟨by omega, ?_⟩
    rw [hempty, hnonempty, Bool.and_false]
    rfl

theorem settle_size (t : Doc) : (settle t).size ≤ t.size := by
  induction t using Tree.induct with
  | null | bool b | number n | string s => exact Nat.le_refl _
  | array xs ih =>
    obtain ⟨hsize, hempty⟩ := settleElements_size xs ih
    simp only [settle, Tree.size, hempty]
    omega
  | object ms ih =>
    obtain ⟨hsize, hempty⟩ := settleMembers_size ms [] ih
    rw [List.isEmpty_nil, Bool.and_true] at hempty
    simp only [memberSizes, Nat.add_zero] at hsize
    simp only [settle, Tree.size, hempty]
    omega

end Settling

section Outcomes

theorem bind_ok_iff {x : Except ε α} {f : α → Except ε β} : x.bind f = .ok b ↔ ∃ a, x = .ok a ∧ f a = .ok b := by
  cases x with
  | error e => simp [Except.bind]
  | ok a => simp [Except.bind]

theorem map_ok_iff {x : Except ε α} {f : α → β} : x.map f = .ok b ↔ ∃ a, x = .ok a ∧ f a = b := by
  cases x with
  | error e => simp [Except.map]
  | ok a => simp [Except.map]

theorem mapM_ok_iff {f : α → Except ε β} : xs.mapM f = .ok ys ↔ List.Forall₂ (fun x y => f x = .ok y) xs ys := by
  induction xs generalizing ys with
  | nil =>
    rw [List.mapM_nil, List.forall₂_nil_left_iff]
    constructor
    · intro h
      cases h
      rfl
    · rintro rfl
      rfl
  | cons x xs ih =>
    rw [List.mapM_cons, List.forall₂_cons_left_iff]
    constructor
    · intro h
      obtain ⟨y, hy, h⟩ := bind_ok_iff.1 h
      obtain ⟨zs, hzs, h⟩ := bind_ok_iff.1 h
      cases h
      exact ⟨y, zs, hy, ih.1 hzs, rfl⟩
    · rintro ⟨y, zs, hy, hzs, rfl⟩
      apply bind_ok_iff.2
      exact ⟨y, hy, bind_ok_iff.2 ⟨zs, ih.2 hzs, rfl⟩⟩

end Outcomes

end Hical
