import Hical.Response.Client

namespace Hical.Response
open ResponseClient

section Headers
variable {h : Fields} {name name' value : Bytes}

def named (name : Bytes) (h : Fields) : Fields := h.filter fun f => iequals f.name name

def own (name : Bytes) (h : Fields) : Option Bytes := (named name h).head?.map (·.value)

def Unique (name : Bytes) (h : Fields) : Prop := (named name h).length ≤ 1

/-- A client takes a field of another name for one of this name. -/
def Hides (name : Bytes) (h : Fields) : Prop := ∃ f ∈ h, colon ∈ f.name ∧ iequals (cut colon f.name).1 name = true

/-- No field breaks its line. -/
def Clean (h : Fields) : Prop := ∀ f ∈ h, containsCRLF f.name = false ∧ containsCRLF f.value = false

theorem named_same (he : iequals e.name name = true) (h : Fields) : named name (e :: h) = e :: named name h :=
  List.filter_cons_of_pos (p := fun f : Field => iequals f.name name) he

theorem named_other (he : iequals e.name name = false) (h : Fields) : named name (e :: h) = named name h :=
  List.filter_cons_of_neg (p := fun f : Field => iequals f.name name) (by rw [he]; decide)

theorem named_set_other (hne : iequals name name' = false) (h : Fields) (value : Bytes) :
    named name' (h.set name value) = named name' h := by
  induction h with
  | nil => exact named_other hne []
  | cons e h ih =>
    rw [Fields.set]
    by_cases he : iequals e.name name = true
    · have hother := iequals_other he hne
      have hset : named name' (⟨e.name, value⟩ :: h) = named name' h := named_other (e := ⟨e.name, value⟩) hother h
      rw [if_pos he, hset, named_other hother]
    · rw [if_neg he]
      cases hsame : iequals e.name name' with
      | true => rw [named_same hsame, named_same hsame, ih]
      | false => rw [named_other hsame, named_other hsame, ih]

theorem named_set_self (hunique : Unique name h) (value : Bytes) :
    ∃ f, named name (h.set name value) = [f] ∧ f.value = value := by
  induction h with
  | nil => exact ⟨⟨name, value⟩, named_same (iequals_self name) [], rfl⟩
  | cons e h ih =>
    rw [Fields.set]
    by_cases he : iequals e.name name = true
    · rw [Unique, named_same he, List.length_cons] at hunique
      have hset : named name (⟨e.name, value⟩ :: h) = ⟨e.name, value⟩ :: named name h :=
        named_same (e := ⟨e.name, value⟩) he h
      have hnone : named name h = [] := List.length_eq_zero_iff.1 (Nat.le_zero.1 (Nat.le_of_succ_le_succ hunique))
      refine ⟨⟨e.name, value⟩, ?_, rfl⟩
      rw [if_pos he, hset, hnone]
    · rw [Bool.not_eq_true] at he
      rw [Unique, named_other he] at hunique
      rw [he, if_neg Bool.false_ne_true, named_other he]
      exact ih hunique

theorem named_erase_self (h : Fields) (name : Bytes) : named name (h.erase name) = [] := by
  rw [Fields.erase, named, List.filter_filter]
  apply List.filter_eq_nil_iff.2
  intro f _
  cases iequals f.name name with
  | false => decide
  | true => decide

theorem named_erase_other (hne : iequals name name' = false) (h : Fields) :
    named name' (h.erase name) = named name' h := by
  rw [Fields.erase, named, named, List.filter_filter]
  apply List.filter_congr
  intro f _
  cases hf : iequals f.name name with
  | false => exact Bool.and_true _
  | true =>
    rw [iequals_other hf hne]
    rfl

theorem Unique.set (hunique : Unique name' h) (name value : Bytes) : Unique name' (h.set name value) := by
  by_cases hsame : iequals name name' = true
  · have hnamed : ∀ h, named name' h = named name h := by
      intro h
      apply List.filter_congr
      intro f _
      rw [Bool.eq_iff_iff, iequals_iff, iequals_iff, iequals_iff.1 hsame]
    rw [Unique, hnamed] at hunique ⊢
    obtain ⟨f, hf, -⟩ := named_set_self hunique value
    rw [hf]
    exact Nat.le_refl 1
  · rw [Unique, named_set_other (eq_false_of_ne_true hsame)]
    exact hunique

theorem Unique.erase (hunique : Unique name' h) (name : Bytes) : Unique name' (h.erase name) :=
  Nat.le_trans (List.Sublist.length_le (List.Sublist.filter _ List.filter_sublist)) hunique

theorem find_own (h : Fields) (name : Bytes) : h.find name = (own name h).getD [] := by
  induction h with
  | nil => rfl
  | cons e h ih =>
    rw [Fields.find_cons, own]
    cases he : iequals e.name name with
    | true =>
      rw [named_same he]
      rfl
    | false =>
      rw [named_other he]
      exact ih

theorem mem_set (hf : f ∈ h.set name value) : f ∈ h ∨ (f.value = value ∧ (f.name = name ∨ ∃ e ∈ h, f.name = e.name)) := by
  induction h with
  | nil =>
    rw [List.mem_singleton.1 hf]
    exact .inr ⟨rfl, .inl rfl⟩
  | cons e h ih =>
    rw [Fields.set] at hf
    split at hf
    · rcases List.mem_cons.1 hf with rfl | hf
      · exact .inr ⟨rfl, .inr ⟨e, List.mem_cons_self .., rfl⟩⟩
      · exact .inl (List.mem_cons_of_mem _ hf)
    · rcases List.mem_cons.1 hf with rfl | hf
      · exact .inl (List.mem_cons_self ..)
      · rcases ih hf with hf | ⟨hvalue, hname⟩
        · exact .inl (List.mem_cons_of_mem _ hf)
        · refine .inr ⟨hvalue, hname.imp_right ?_⟩
          rintro ⟨e', he', hname⟩
          exact ⟨e', List.mem_cons_of_mem _ he', hname⟩

theorem Clean.set (hclean : Clean h) (hname : containsCRLF name = false) (hvalue : containsCRLF value = false) :
    Clean (h.set name value) := by
  intro f hf
  rcases mem_set hf with hf | ⟨rfl, rfl | ⟨e, he, hname⟩⟩
  · exact hclean f hf
  · exact ⟨hname, hvalue⟩
  · rw [hname]
    exact ⟨(hclean e he).1, hvalue⟩

theorem Clean.erase (hclean : Clean h) (name : Bytes) : Clean (h.erase name) :=
  fun f hf => hclean f (List.mem_of_mem_filter hf)

theorem named_none (hother : ∀ f ∈ h, iequals f.name name = false) : named name h = [] := by
  apply List.filter_eq_nil_iff.2
  intro f hf
  rw [hother f hf]
  decide

theorem named_append (h h' : Fields) (name : Bytes) : named name (h ++ h') = named name h ++ named name h' :=
  List.filter_append ..

theorem Clean.append (hclean : Clean h) (hclean' : Clean h') : Clean (h ++ h') :=
  fun f hf => (List.mem_append.1 hf).elim (hclean f) (hclean' f)

end Headers

section Reading

theorem text_eq (f : Field) : f.text = f.name ++ colon :: SP :: f.value := by
  rw [Field.text, List.append_assoc]
  rfl

theorem readField_plain {f : Field} (hcolon : colon ∉ f.name) : readField f.text = (f.name, fieldValue f.value) := by
  rw [readField, text_eq, cut_append_sep hcolon]
  rfl

end Reading

end Hical.Response
