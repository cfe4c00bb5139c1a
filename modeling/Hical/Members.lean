import Hical.Bytes
import Mathlib.Data.List.Nodup

/-! Maps as lists of named members, in the order of their insertion. -/

namespace Hical

/-- `object[name] = value`: a member that is there keeps its place. -/
def setMember (name : Bytes) (x : α) : List (Bytes × α) → List (Bytes × α)
  | [] => [(name, x)]
  | (k, y) :: ms => if k = name then (k, x) :: ms else (k, y) :: setMember name x ms

def findMember (name : Bytes) (ms : List (Bytes × α)) : Option α := (ms.find? fun m => m.1 == name).map (·.2)

def Distinct (ms : List (Bytes × α)) : Prop := (ms.map (·.1)).Nodup

theorem findMember_cons (name k : Bytes) (x : α) (ms : List (Bytes × α)) :
    findMember name ((k, x) :: ms) = if k = name then some x else findMember name ms := by
  rw [findMember, List.find?_cons]
  by_cases h : k = name
  · rw [beq_iff_eq.2 h, if_pos h]
    rfl
  · rw [beq_eq_false_iff_ne.2 h, if_neg h]
    rfl

theorem findMember_set (name name' : Bytes) (x : α) (ms : List (Bytes × α)) :
    findMember name' (setMember name x ms) = if name = name' then some x else findMember name' ms := by
  induction ms with
  | nil => rw [setMember, findMember_cons]
  | cons m ms ih =>
    obtain ⟨k, y⟩ := m
    rw [setMember]
    by_cases hk : k = name
    · subst hk
      rw [if_pos rfl, findMember_cons, findMember_cons]
      split <;> rfl
    · rw [if_neg hk, findMember_cons, findMember_cons, ih]
      by_cases hn : name = name'
      · subst hn
        rw [if_neg hk, if_pos rfl, if_pos rfl]
      · rw [if_neg hn, if_neg hn]

theorem mem_setMember {m : Bytes × α} (h : m ∈ setMember name x ms) : m = (name, x) ∨ m ∈ ms := by
  induction ms with
  | nil =>
    rw [setMember, List.mem_singleton] at h
    exact .inl h
  | cons m' ms ih =>
    obtain ⟨k, y⟩ := m'
    rw [setMember] at h
    split at h
    · next hk =>
      subst hk
      rcases List.mem_cons.1 h with rfl | h
      · exact .inl rfl
      · exact .inr (List.mem_cons_of_mem _ h)
    · rcases List.mem_cons.1 h with rfl | h
      · exact .inr (List.mem_cons_self ..)
      · cases ih h with
        | inl h => exact .inl h
        | inr h => exact .inr (List.mem_cons_of_mem _ h)

theorem names_setMember (name : Bytes) (x : α) (ms : List (Bytes × α)) :
    (setMember name x ms).map (·.1) = if name ∈ ms.map (·.1) then ms.map (·.1) else ms.map (·.1) ++ [name] := by
  induction ms with
  | nil => rfl
  | cons m ms ih =>
    obtain ⟨k, y⟩ := m
    rw [setMember]
    by_cases hk : k = name
    · subst hk
      simp
    · have hne : ¬ name = k := fun h => hk h.symm
      rw [if_neg hk, List.map_cons, ih, List.map_cons]
      simp only [List.mem_cons, hne, false_or]
      split <;> rfl

theorem distinct_setMember {ms : List (Bytes × α)} (h : Distinct ms) (name : Bytes) (x : α) :
    Distinct (setMember name x ms) := by
  rw [Distinct, names_setMember]
  split
  · exact h
  · next hn =>
    apply List.nodup_append.2
    refine ⟨h, List.nodup_singleton _, ?_⟩
    rintro a ha b hb rfl
    exact hn (List.mem_singleton.1 hb ▸ ha)

theorem setMember_new (name : Bytes) (x : α) (ms : List (Bytes × α)) (h : name ∉ ms.map (·.1)) :
    setMember name x ms = ms ++ [(name, x)] := by
  induction ms with
  | nil => rfl
  | cons m ms ih =>
    obtain ⟨k, y⟩ := m
    rw [List.map_cons, List.mem_cons, not_or] at h
    rw [setMember, if_neg (Ne.symm h.1), ih h.2, List.cons_append]

theorem findMember_mem {ms : List (Bytes × α)} (hd : Distinct ms) (h : (name, x) ∈ ms) : findMember name ms = some x := by
  induction ms with
  | nil => cases h
  | cons m ms ih =>
    obtain ⟨k, y⟩ := m
    obtain ⟨hk, hd⟩ := List.nodup_cons.1 hd
    rw [findMember_cons]
    rcases List.mem_cons.1 h with heq | h
    · cases heq
      rw [if_pos rfl]
    · have hne : ¬ k = name := fun heq => hk (heq ▸ List.mem_map.2 ⟨_, h, rfl⟩)
      rw [if_neg hne, ih hd h]

theorem findMember_none_iff {ms : List (Bytes × α)} : findMember name ms = none ↔ name ∉ ms.map (·.1) := by
  rw [findMember, Option.map_eq_none_iff, List.find?_eq_none, List.mem_map]
  constructor
  · rintro h ⟨m, hm, rfl⟩
    exact h m hm (beq_self_eq_true _)
  · intro h m hm heq
    exact h ⟨m, hm, beq_iff_eq.1 heq⟩

theorem findMember_append (name : Bytes) (ms ms' : List (Bytes × α)) :
    findMember name (ms ++ ms') = (findMember name ms).or (findMember name ms') := by
  rw [findMember, List.find?_append, findMember, findMember]
  cases ms.find? fun m => m.1 == name <;> rfl

theorem setMember_map (f : α → β) (name : Bytes) (x : α) (ms : List (Bytes × α)) :
    (setMember name x ms).map (fun m => (m.1, f m.2)) = setMember name (f x) (ms.map fun m => (m.1, f m.2)) := by
  induction ms with
  | nil => rfl
  | cons m ms ih =>
    obtain ⟨k, y⟩ := m
    rw [setMember, List.map_cons, setMember]
    split
    · rw [List.map_cons]
    · rw [List.map_cons, ih]

end Hical
