import Hical.Message

/-! How a browser reads an event stream. -/

namespace Hical.Sse

structure MessageEvent where
  type : Bytes
  data : Bytes
  lastEventId : Bytes
  deriving DecidableEq

/-- The parser of the HTML standard, fed with one byte at a time. -/
structure EventReader where
  line : Bytes := []
  /-- The last byte was a carriage return, and a line feed behind it ends no other line. -/
  cr : Bool := false
  type : Bytes := []
  data : Bytes := []
  lastEventId : Bytes := []
  fields : Fields := []
  events : List MessageEvent := []

def fieldOf (line : Bytes) : Option Field :=
  if line = [] ∨ line.head? = some colon then none
  else match cut colon line with
    | (name, none) => some ⟨name, []⟩
    | (name, some value) => some ⟨name, if value.head? = some SP then value.tail else value⟩

namespace EventReader

/-- The reconnection time that `retry` sets is no part of an event. -/
def field (r : EventReader) (f : Field) : EventReader :=
  let r := { r with fields := r.fields ++ [f] }
  if f.name = bytes "event" then { r with type := f.value }
  else if f.name = bytes "data" then { r with data := r.data ++ f.value ++ [LF] }
  else if f.name = bytes "id" ∧ 0 ∉ f.value then { r with lastEventId := f.value }
  else r

def dispatch (r : EventReader) : EventReader :=
  if r.data = [] then { r with type := [] }
  else { r with
    type := []
    data := []
    events := r.events ++
      [⟨if r.type = [] then bytes "message" else r.type,
        if r.data.getLast? = some LF then r.data.dropLast else r.data, r.lastEventId⟩] }

def endLine (r : EventReader) : EventReader :=
  let r' := if r.line = [] then r.dispatch else
    match fieldOf r.line with
    | none => r
    | some f => r.field f
  { r' with line := [] }

def byte (r : EventReader) (b : UInt8) : EventReader :=
  if b = LF ∧ r.cr then { r with cr := false }
  else if isEol b then { r.endLine with cr := b == CR }
  else { r with line := r.line ++ [b], cr := false }

def read (r : EventReader) (s : Bytes) : EventReader := s.foldl byte r

end EventReader

/-- A byte order mark in front is no part of the stream. -/
def eventStream (s : Bytes) : EventReader :=
  EventReader.read {} (if [0xEF, 0xBB, 0xBF].isPrefixOf s then s.drop 3 else s)

/-- No byte of the text ends a line. -/
def Unbroken (s : Bytes) : Prop := ∀ b ∈ s, isEol b = false

instance : Decidable (Unbroken s) := decidable_of_iff (s.all fun b => !isEol b) (by simp [Unbroken])

theorem unbroken_nil : Unbroken [] := fun _ h => nomatch h

theorem Unbroken.append (h : Unbroken s) (h' : Unbroken t) : Unbroken (s ++ t) := by
  intro b hb
  rcases List.mem_append.1 hb with hb | hb
  · exact h b hb
  · exact h' b hb

theorem unbroken_cons (hb : isEol b = false) (h : Unbroken s) : Unbroken (b :: s) := by
  intro b' hb'
  rcases List.mem_cons.1 hb' with rfl | hb'
  · exact hb
  · exact h b' hb'

theorem value_of_fieldOf (h : fieldOf line = some f) : f.value.length < line.length ∧ f.value ⊆ line := by
  rw [fieldOf] at h
  split at h
  · cases h
  · next hline =>
    split at h
    · cases h
      apply And.intro (List.length_pos_of_ne_nil fun hnil => hline (.inl hnil))
      exact List.nil_subset _
    · next name value hcut =>
      cases h
      obtain ⟨rfl, -⟩ := cut_some hcut
      have htail : value.tail <:+ value := List.tail_suffix _
      have hvalue : value.length < (name ++ colon :: value).length := by
        rw [List.length_append, List.length_cons]
        omega
      have hsub : value ⊆ name ++ colon :: value := by
        intro b hb
        exact List.mem_append_right _ (List.mem_cons_of_mem _ hb)
      dsimp only
      split
      · exact ⟨Nat.lt_of_le_of_lt htail.length_le hvalue, fun b hb => hsub (htail.subset hb)⟩
      · exact ⟨hvalue, hsub⟩

namespace EventReader

variable {r : EventReader}

theorem byte_plain (hb : isEol b = false) : r.byte b = { r with line := r.line ++ [b], cr := false } := by
  have hlf : ¬(b = LF ∧ r.cr) := by
    rintro ⟨rfl, -⟩
    cases hb
  rw [byte, if_neg hlf, if_neg (by rw [hb]; exact Bool.false_ne_true)]

theorem fields_field (f : Field) : (r.field f).fields = r.fields ++ [f] := by
  rw [field]
  dsimp only
  split
  · rfl
  · split
    · rfl
    · split
      · rfl
      · rfl

theorem fields_dispatch : r.dispatch.fields = r.fields := by
  rw [dispatch]
  split
  · rfl
  · rfl

theorem fields_endLine : r.endLine.fields = r.fields ++ (fieldOf r.line).toList := by
  rw [endLine]
  by_cases hline : r.line = []
  · rw [if_pos hline, hline]
    exact fields_dispatch.trans (List.append_nil _).symm
  · rw [if_neg hline]
    cases fieldOf r.line with
    | none => exact (List.append_nil _).symm
    | some f => exact fields_field f

/-- What a reader never gives: a value of two lines, or an identifier with a zero byte. -/
structure Clean (r : EventReader) : Prop where
  line : Unbroken r.line
  fields : ∀ f ∈ r.fields, Unbroken f.value
  lastEventId : 0 ∉ r.lastEventId
  events : ∀ e ∈ r.events, 0 ∉ e.lastEventId

theorem Clean.field (h : Clean r) (hf : Unbroken f.value) : Clean (r.field f) := by
  have hfields : ∀ g ∈ r.fields ++ [f], Unbroken g.value := by
    intro g hg
    rcases List.mem_append.1 hg with hg | hg
    · exact h.fields g hg
    · rw [List.mem_singleton.1 hg]
      exact hf
  rw [EventReader.field]
  dsimp only
  split
  · exact ⟨h.line, hfields, h.lastEventId, h.events⟩
  · split
    · exact ⟨h.line, hfields, h.lastEventId, h.events⟩
    · split
      · next hid => exact ⟨h.line, hfields, hid.2, h.events⟩
      · exact ⟨h.line, hfields, h.lastEventId, h.events⟩

theorem Clean.dispatch (h : Clean r) : Clean r.dispatch := by
  rw [EventReader.dispatch]
  split
  · exact ⟨h.line, h.fields, h.lastEventId, h.events⟩
  · refine ⟨h.line, h.fields, h.lastEventId, fun e he => ?_⟩
    rcases List.mem_append.1 he with he | he
    · exact h.events e he
    · rw [List.mem_singleton.1 he]
      exact h.lastEventId

theorem Clean.endLine (h : Clean r) : Clean r.endLine := by
  have hnext : Clean (if r.line = [] then r.dispatch else
      match fieldOf r.line with
      | none => r
      | some f => r.field f) := by
    split
    · exact h.dispatch
    · split
      · exact h
      · next f hf => exact h.field fun b hb => h.line b ((value_of_fieldOf hf).2 hb)
  exact ⟨nofun, hnext.fields, hnext.lastEventId, hnext.events⟩

theorem Clean.read (h : Clean r) (s : Bytes) : Clean (r.read s) := by
  induction s generalizing r with
  | nil => exact h
  | cons b s ih =>
    apply ih (r := r.byte b)
    rw [byte]
    split
    · exact ⟨h.line, h.fields, h.lastEventId, h.events⟩
    · split
      · have hend := h.endLine
        exact ⟨hend.line, hend.fields, hend.lastEventId, hend.events⟩
      · next hb =>
        refine ⟨?_, h.fields, h.lastEventId, h.events⟩
        exact h.line.append (unbroken_cons (Bool.eq_false_iff.2 hb) unbroken_nil)

theorem read_keeps (r : EventReader) (s : Bytes) : r.fields <+: (r.read s).fields := by
  induction s generalizing r with
  | nil => exact List.prefix_refl _
  | cons b s ih =>
    apply List.IsPrefix.trans _ (ih (r.byte b))
    rw [byte]
    split
    · exact List.prefix_refl _
    · split
      · change r.fields <+: r.endLine.fields
        rw [fields_endLine]
        exact List.prefix_append _ _
      · exact List.prefix_refl _

def Fresh (r : EventReader) : Prop := r.line = [] ∧ r.cr = false

/-- The reader is between two events. -/
structure Idle (r : EventReader) : Prop where
  fresh : Fresh r
  data : r.data = []
  type : r.type = []

theorem field_line (f : Field) : (r.field f).line = r.line ∧ (r.field f).cr = r.cr := by
  rw [field]
  dsimp only
  split
  · exact ⟨rfl, rfl⟩
  · split
    · exact ⟨rfl, rfl⟩
    · split
      · exact ⟨rfl, rfl⟩
      · exact ⟨rfl, rfl⟩

theorem Fresh.field (h : Fresh r) (f : Field) : Fresh (r.field f) :=
  ⟨(field_line f).1.trans h.1, (field_line f).2.trans h.2⟩

end EventReader

end Hical.Sse
