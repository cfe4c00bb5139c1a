import Mathlib.Data.List.Forall2
import Hical.Router.Table

namespace Hical

def dropTrailing (parts : List Bytes) : List Bytes :=
  if parts.getLast? = some [] then parts.dropLast else parts

def splitSegments (s : Bytes) : List Bytes := dropTrailing (s.splitOn slash)

def segments (path : Bytes) : List Bytes := splitSegments (dropSlash path)

/-- What one segment of a pattern takes. -/
def Faces (patSeg reqSeg : Bytes) : Prop :=
  if isParamSegment patSeg then reqSeg.length ≤ kMaxParamValueLength else patSeg = reqSeg

/-- The parameter segments with what they face. -/
def captured (pairs : List (Bytes × Bytes)) : ParamList :=
  pairs.filterMap fun e => if isParamSegment e.1 then some (e.1.tail.dropLast, e.2) else none

def Fits (pattern path : Bytes) : Prop :=
  (segments pattern).length ≤ kMaxPathSegments ∧ List.Forall₂ Faces (segments pattern) (segments path)

theorem splitSegments_nil : splitSegments [] = [] := rfl

theorem splitSegments_cut (h : s ≠ []) :
    splitSegments s = (cut slash s).1 :: splitSegments (((cut slash s).2).getD []) := by
  cases hc : cut slash s with
  | mk seg rest =>
    cases rest with
    | none =>
      obtain ⟨rfl, hmem⟩ := cut_none hc
      rw [splitSegments, List.splitOn_eq_singleton hmem]
      simp only [dropTrailing, List.getLast?_singleton, Option.some.injEq, if_neg h]
      rfl
    | some rest =>
      obtain ⟨rfl, hmem⟩ := cut_some hc
      rw [splitSegments, List.splitOn_append_cons_self_of_not_mem hmem]
      have hne := List.splitOn_ne_nil slash rest
      simp only [Option.getD_some, splitSegments, dropTrailing, List.getLast?_cons,
        List.dropLast_cons_of_ne_nil hne]
      rw [List.getLast?_eq_some_getLast hne, Option.getD_some]
      split
      · rfl
      · rfl

theorem splitSegments_ne_nil (h : s ≠ []) : splitSegments s ≠ [] := by
  rw [splitSegments_cut h]
  exact List.cons_ne_nil _ _

/-- What the loop's answer means, over the segments that are left. -/
def FitsWithin (budget : Nat) (pattern path : Bytes) (params : ParamList) : Prop :=
  (splitSegments pattern).length ≤ budget ∧
    List.Forall₂ Faces (splitSegments pattern) (splitSegments path) ∧
    params = captured ((splitSegments pattern).zip (splitSegments path))

theorem matchSegments_exhausted (h : pattern = [] ∨ path = []) :
    matchSegments budget pattern path = some params ↔ FitsWithin budget pattern path params := by
  rw [matchSegments.eq_def]
  dsimp only
  rw [if_pos h]
  by_cases hboth : pattern = [] ∧ path = []
  · obtain ⟨rfl, rfl⟩ := hboth
    rw [if_pos ⟨rfl, rfl⟩]
    constructor
    · intro heq
      cases heq
      exact ⟨Nat.zero_le _, .nil, rfl⟩
    · intro hp
      rw [hp.2.2]
      rfl
  · rw [if_neg hboth]
    constructor
    · intro heq
      cases heq
    · rintro ⟨-, hfaces, -⟩
      exfalso
      rcases h with rfl | rfl
      · have hpath : path ≠ [] := fun hpath => hboth ⟨rfl, hpath⟩
        rw [splitSegments_nil] at hfaces
        exact splitSegments_ne_nil hpath (List.forall₂_nil_left_iff.1 hfaces)
      · have hpattern : pattern ≠ [] := fun hpattern => hboth ⟨hpattern, rfl⟩
        rw [splitSegments_nil] at hfaces
        exact splitSegments_ne_nil hpattern (List.forall₂_nil_right_iff.1 hfaces)

theorem matchSegments_eq_some {budget : Nat} {pattern path : Bytes} {params : ParamList} :
    matchSegments budget pattern path = some params ↔ FitsWithin budget pattern path params := by
  induction budget generalizing pattern path params with
  | zero =>
    by_cases h : pattern = [] ∨ path = []
    · exact matchSegments_exhausted h
    · rw [matchSegments.eq_def]
      dsimp only
      rw [if_neg h]
      have hpattern := List.length_pos_iff.2 (splitSegments_ne_nil fun hp => h (.inl hp))
      constructor
      · intro heq
        cases heq
      · intro hp
        exact absurd hp.1 (Nat.not_le.2 hpattern)
  | succ budget ih =>
    by_cases h : pattern = [] ∨ path = []
    · exact matchSegments_exhausted h
    · obtain ⟨hpattern, hpath⟩ := not_or.1 h
      rw [matchSegments.eq_def]
      dsimp only
      rw [if_neg h, FitsWithin, splitSegments_cut hpattern, splitSegments_cut hpath]
      simp only [List.forall₂_cons, List.zip_cons_cons, List.length_cons, Nat.add_le_add_iff_right]
      by_cases hparam : isParamSegment (cut slash pattern).1
      · rw [if_pos hparam, Faces, if_pos hparam, captured, List.filterMap_cons, if_pos hparam]
        by_cases hlong : kMaxParamValueLength < (cut slash path).1.length
        · rw [if_pos hlong]
          constructor
          · intro heq
            cases heq
          · intro hp
            exact absurd hp.2.1.1 (Nat.not_le.2 hlong)
        · rw [if_neg hlong, Option.map_eq_some_iff]
          constructor
          · rintro ⟨rest, hrest, rfl⟩
            obtain ⟨hlen, hfaces, rfl⟩ := ih.1 hrest
            exact ⟨hlen, ⟨Nat.le_of_not_lt hlong, hfaces⟩, rfl⟩
          · rintro ⟨hlen, ⟨-, hfaces⟩, rfl⟩
            exact ⟨_, ih.2 ⟨hlen, hfaces, rfl⟩, rfl⟩
      · rw [if_neg hparam, Faces, if_neg hparam, captured, List.filterMap_cons, if_neg hparam]
        by_cases hsame : (cut slash pattern).1 = (cut slash path).1
        · rw [if_neg (not_not.2 hsame), ih, FitsWithin]
          constructor
          · rintro ⟨hlen, hfaces, rfl⟩
            exact ⟨hlen, ⟨hsame, hfaces⟩, rfl⟩
          · rintro ⟨hlen, ⟨-, hfaces⟩, rfl⟩
            exact ⟨hlen, hfaces, rfl⟩
        · rw [if_pos hsame]
          constructor
          · intro heq
            cases heq
          · intro hp
            exact absurd hp.2.1.1 hsame

theorem matchParamPath_eq_some {pattern path : Bytes} {params : ParamList} :
    matchParamPath pattern path = some params ↔
      Fits pattern path ∧ params = captured ((segments pattern).zip (segments path)) := by
  rw [matchParamPath, matchSegments_eq_some, FitsWithin, Fits, and_assoc]
  rfl

theorem matchParamPath_isSome {pattern path : Bytes} :
    (matchParamPath pattern path).isSome = true ↔ Fits pattern path := by
  rw [Option.isSome_iff_exists]
  constructor
  · rintro ⟨params, h⟩
    exact (matchParamPath_eq_some.1 h).1
  · intro h
    exact ⟨_, matchParamPath_eq_some.2 ⟨h, rfl⟩⟩

end Hical
