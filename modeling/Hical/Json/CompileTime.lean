import Hical.Json.Meta

namespace Hical
open Json

/-- The bytes on the stack up to `used_`, and those on the heap once the stack was too small. -/
structure FixedBuffer (N : Nat) where
  stackBuf : Bytes := []
  overflowed : Bool := false
  heapBuf : Bytes := []
  fits : stackBuf.length ≤ N := by exact Nat.zero_le _

namespace FixedBuffer
variable {N : Nat}

def append (buf : FixedBuffer N) (data : Bytes) : FixedBuffer N :=
  if buf.overflowed = false then
    if h : buf.stackBuf.length + data.length ≤ N then
      { buf with stackBuf := buf.stackBuf ++ data, fits := by rw [List.length_append]; exact h }
    else { buf with heapBuf := buf.stackBuf ++ data, overflowed := true }
  else { buf with heapBuf := buf.heapBuf ++ data }

def view (buf : FixedBuffer N) : Bytes := if buf.overflowed then buf.heapBuf else buf.stackBuf

theorem view_append (buf : FixedBuffer N) (data : Bytes) : (buf.append data).view = buf.view ++ data := by
  rw [append]
  split
  · next h =>
    split
    · rw [view, view, h]
      rfl
    · rw [view, view, h]
      rfl
  · next h =>
    rw [Bool.not_eq_false] at h
    rw [view, view, h]
    rfl

instance : JsonSink (FixedBuffer N) where
  append := append
  text := view
  text_append := view_append

end FixedBuffer

section Serialising
variable {N : Nat}

/-- The loop over a vector. -/
def elementsToJsonBuffer (emit : FixedBuffer N → α → FixedBuffer N) (buf : FixedBuffer N) (first : Bool) :
    List α → FixedBuffer N
  | [] => buf
  | item :: val => elementsToJsonBuffer emit (emit (if first then buf else buf.append [44]) item) false val

mutual

def valueToJsonBuffer : (a : Ty) → FixedBuffer N → El a → FixedBuffer N
  | .string, buf, val => (appendJsonString (buf.append [34]) val).append [34]
  | .bool, buf, val => buf.append (cond val (bytes "true") (bytes "false"))
  | .integral _ _, buf, val => buf.append (decimalInt val.1)
  | .vector a, buf, val => (elementsToJsonBuffer (valueToJsonBuffer a) (buf.append [91]) true val).append [93]
  | .dto fs, buf, val => (emitFields fs (buf.append [123]) true val).append [125]

/-- `emitField` for one field after the other. -/
def emitFields : (fs : List (FieldDescriptor × Ty)) → FixedBuffer N → Bool → ElFields fs → FixedBuffer N
  | [], buf, _, _ => buf
  | (field, a) :: fs, buf, first, obj =>
    if field.ignored then emitFields fs buf first obj.2
    else
      let buf := if first then buf else buf.append [44]
      let buf := (((buf.append [34]).append field.name).append [34]).append [58]
      emitFields fs (valueToJsonBuffer a buf obj.1) false obj.2

end

def objectToJsonBuffer (fs : List (FieldDescriptor × Ty)) (buf : FixedBuffer N) (obj : ElFields fs) : FixedBuffer N :=
  valueToJsonBuffer (.dto fs) buf obj

def compileTimeToJson (fs : List (FieldDescriptor × Ty)) (obj : ElFields fs) : Bytes :=
  (objectToJsonBuffer fs ({} : FixedBuffer 512) obj).view

end Serialising

section Written

mutual

/-- The tree that `valueToJsonBuffer` has in mind, repeated names and all. -/
def writtenDoc : (a : Ty) → El a → Doc
  | .string, val => .string val
  | .bool, val => .bool val
  | .integral _ _, val => .number (intLexeme val.1)
  | .vector a, val => .array (val.map (writtenDoc a))
  | .dto fs, val => .object (writtenFields fs val)

def writtenFields : (fs : List (FieldDescriptor × Ty)) → ElFields fs → List (Bytes × Doc)
  | [], _ => []
  | (field, a) :: fs, obj =>
    if field.ignored then writtenFields fs obj.2 else (field.name, writtenDoc a obj.1) :: writtenFields fs obj.2

end

/-- Pieces with commas between them, and one before them unless `first`. -/
def separated (first : Bool) (pieces : List Bytes) : Bytes :=
  if first then [44].intercalate pieces else pieces.flatMap (44 :: ·)

@[simp] theorem separated_nil (first : Bool) : separated first [] = [] := by
  cases first <;> rfl

theorem separated_cons (first : Bool) (piece : Bytes) (pieces : List Bytes) :
    separated first (piece :: pieces) = (if first then [] else [44]) ++ piece ++ separated false pieces := by
  cases first with
  | true => exact intercalate_cons ..
  | false => rfl

/-- What `valueToJsonBuffer` adds is the text of the tree. -/
def Emits (N : Nat) (a : Ty) : Prop :=
  ∀ (buf : FixedBuffer N) (val : El a),
    (valueToJsonBuffer a buf val).view = buf.view ++ render id (List.flatMap escaped) (writtenDoc a val)

theorem view_comma {N : Nat} (buf : FixedBuffer N) (first : Bool) :
    (if first then buf else buf.append [44]).view = buf.view ++ if first then [] else [44] := by
  cases first with
  | true => exact (List.append_nil _).symm
  | false => exact FixedBuffer.view_append ..

theorem view_elements {N : Nat} {a : Ty} (h : Emits N a) (buf : FixedBuffer N) (first : Bool) (val : List (El a)) :
    (elementsToJsonBuffer (valueToJsonBuffer a) buf first val).view =
      buf.view ++ separated first (val.map fun item => render id (List.flatMap escaped) (writtenDoc a item)) := by
  induction val generalizing buf first with
  | nil => rw [elementsToJsonBuffer, List.map_nil, separated_nil, List.append_nil]
  | cons item val ih =>
    rw [elementsToJsonBuffer, ih, h, view_comma, List.map_cons, separated_cons]
    simp only [List.append_assoc]

theorem view_fields {N : Nat} (fs : List (FieldDescriptor × Ty)) (h : ∀ f ∈ fs, Emits N f.2) (buf : FixedBuffer N)
    (first : Bool) (obj : ElFields fs) :
    (emitFields fs buf first obj).view =
      buf.view ++ separated first ((writtenFields fs obj).map (renderMember id (List.flatMap escaped))) := by
  induction fs generalizing buf first with
  | nil => rw [emitFields, writtenFields, List.map_nil, separated_nil, List.append_nil]
  | cons f fs ih =>
    obtain ⟨field, a⟩ := f
    have ha : Emits N a := h (field, a) (List.mem_cons_self ..)
    have hfs (f) (hf : f ∈ fs) : Emits N f.2 := h f (List.mem_cons_of_mem _ hf)
    rw [emitFields, writtenFields]
    split
    · exact ih hfs buf first obj.2
    · rw [ih hfs, ha, List.map_cons, separated_cons, renderMember, quote]
      simp only [FixedBuffer.view_append, view_comma, List.append_assoc, List.cons_append, List.nil_append, id]

theorem emits (N : Nat) (a : Ty) : Emits N a := by
  induction a using Ty.induct with
  | string =>
    intro buf (val : Bytes)
    have hstr := text_appendJsonString (buf.append [34]) val
    change (appendJsonString (buf.append [34]) val).view = (buf.append [34]).view ++ _ at hstr
    change ((appendJsonString (buf.append [34]) val).append [34]).view = buf.view ++ quote (val.flatMap escaped)
    rw [FixedBuffer.view_append, hstr, FixedBuffer.view_append]
    simp only [quote, List.append_assoc, List.cons_append, List.nil_append]
  | bool =>
    intro buf (val : Bool)
    cases val <;> exact FixedBuffer.view_append ..
  | integral signed w =>
    intro buf val
    exact FixedBuffer.view_append ..
  | vector a ih =>
    intro buf (val : List (El a))
    have hval := view_elements ih (buf.append [91]) true val
    rw [FixedBuffer.view_append, separated, if_pos rfl] at hval
    change ((elementsToJsonBuffer (valueToJsonBuffer a) (buf.append [91]) true val).append [93]).view =
      buf.view ++ render id (List.flatMap escaped) (.array (val.map (writtenDoc a)))
    rw [FixedBuffer.view_append, hval, render_array, List.map_map]
    simp only [List.append_assoc, List.cons_append, List.nil_append]
    rfl
  | dto fs ih =>
    intro buf (val : ElFields fs)
    have hval := view_fields fs ih (buf.append [123]) true val
    rw [FixedBuffer.view_append, separated, if_pos rfl] at hval
    change ((emitFields fs (buf.append [123]) true val).append [125]).view =
      buf.view ++ render id (List.flatMap escaped) (.object (writtenFields fs val))
    rw [FixedBuffer.view_append, hval, render_object]
    simp only [List.append_assoc, List.cons_append, List.nil_append]

theorem compileTimeToJson_eq (fs : List (FieldDescriptor × Ty)) (obj : ElFields fs) :
    compileTimeToJson fs obj = render id (List.flatMap escaped) (writtenDoc (.dto fs) obj) :=
  emits 512 (.dto fs) {} obj

end Written

section Agreement
variable (printDouble : UInt64 → Lexeme)

/-- A member of the object that `toJson` builds, as it is read from the serialised text. -/
def shownMember (m : Bytes × Value) : Bytes × Doc := (m.1, settle (m.2.map (Number.lexeme printDouble)))

theorem sound_serializeFields (fs : List (FieldDescriptor × Ty)) (h : ∀ f ∈ fs, ∀ val, SoundValue (valueToJson f.2 val))
    (obj : ElFields fs) (jsonObj : List (Bytes × Value)) (hd : Distinct jsonObj) (hs : ∀ m ∈ jsonObj, SoundValue m.2) :
    Distinct (serializeFields fs obj jsonObj) ∧ ∀ m ∈ serializeFields fs obj jsonObj, SoundValue m.2 := by
  induction fs generalizing jsonObj with
  | nil => exact ⟨hd, hs⟩
  | cons f fs ih =>
    obtain ⟨field, a⟩ := f
    have ha : ∀ val, SoundValue (valueToJson a val) := h (field, a) (List.mem_cons_self ..)
    rw [serializeFields]
    apply ih fun f hf => h f (List.mem_cons_of_mem _ hf)
    · split
      · exact hd
      · exact distinct_setMember hd _ _
    · intro m hm
      split at hm
      · exact hs m hm
      · rcases mem_setMember hm with rfl | hm
        · exact ha obj.1
        · exact hs m hm

theorem sound_valueToJson (a : Ty) : ∀ val, SoundValue (valueToJson a val) := by
  induction a using Ty.induct with
  | string => exact fun val => .string val
  | bool => exact fun val => .bool val
  | integral signed w =>
    intro val
    cases signed <;> exact .number rfl
  | vector a ih =>
    intro (val : List (El a))
    apply SoundValue.array
    intro x hx
    obtain ⟨item, -, rfl⟩ := List.mem_map.1 hx
    exact ih item
  | dto fs ih =>
    intro val
    obtain ⟨hd, hs⟩ := sound_serializeFields fs ih val [] List.nodup_nil (fun m hm => nomatch hm)
    exact .object hd hs

theorem settle_serializeFields (fs : List (FieldDescriptor × Ty))
    (h : ∀ f ∈ fs, ∀ val, settle ((valueToJson f.2 val).map (Number.lexeme printDouble)) = settle (writtenDoc f.2 val))
    (obj : ElFields fs) (jsonObj : List (Bytes × Value)) :
    (serializeFields fs obj jsonObj).map (shownMember printDouble) =
      settleMembers (writtenFields fs obj) (jsonObj.map (shownMember printDouble)) := by
  induction fs generalizing jsonObj with
  | nil => rfl
  | cons f fs ih =>
    obtain ⟨field, a⟩ := f
    have ha := h (field, a) (List.mem_cons_self ..) obj.1
    have hfs := ih (fun f hf => h f (List.mem_cons_of_mem _ hf)) obj.2
    rw [serializeFields, hfs, writtenFields]
    split
    · rfl
    · have hset := setMember_map (fun v : Value => settle (v.map (Number.lexeme printDouble))) field.name
        (valueToJson a obj.1) jsonObj
      rw [settleMembers, ← ha]
      exact congrArg _ hset

theorem settle_mapMembers {ms : List (Bytes × Value)} (hd : Distinct ms) :
    settleMembers (mapMembers (Number.lexeme printDouble) ms) [] = ms.map (shownMember printDouble) := by
  have hd' : Distinct ([] ++ mapMembers (Number.lexeme printDouble) ms) := by
    rw [List.nil_append, Distinct, mapMembers_eq, List.map_map]
    exact hd
  rw [settleMembers_distinct _ _ hd', List.nil_append, mapMembers_eq, List.map_map]
  rfl

theorem settle_valueToJson (a : Ty) :
    ∀ val, settle ((valueToJson a val).map (Number.lexeme printDouble)) = settle (writtenDoc a val) := by
  induction a using Ty.induct with
  | string => exact fun _ => rfl
  | bool => exact fun _ => rfl
  | integral signed w =>
    intro ⟨n, hn⟩
    cases signed with
    | true =>
      have hint := congrArg (fun n => settle (.number (intLexeme n))) (toInt_int64 hn)
      exact hint
    | false =>
      have hint := congrArg (fun n => settle (.number (intLexeme n))) (toNat_uint64 hn)
      exact hint
  | vector a ih =>
    intro (val : List (El a))
    have hmap : (val.map (valueToJson a)).map (fun v => settle (v.map (Number.lexeme printDouble))) =
        (val.map (writtenDoc a)).map settle := by
      rw [List.map_map, List.map_map]
      exact List.map_congr_left fun item _ => ih item
    change Tree.array (settleElements (mapElements _ (val.map (valueToJson a)))) =
      .array (settleElements (val.map (writtenDoc a)))
    rw [settleElements_eq, settleElements_eq, mapElements_eq, ← hmap, List.map_map]
    rfl
  | dto fs ih =>
    intro (val : ElFields fs)
    have hd := (sound_valueToJson (.dto fs) val)
    change Tree.object (settleMembers (mapMembers _ (serializeFields fs val [])) []) =
      .object (settleMembers (writtenFields fs val) [])
    cases hd with
    | object hd _ => rw [settle_mapMembers printDouble hd, settle_serializeFields printDouble fs ih]; rfl

end Agreement

section Names

mutual

/-- The names that are written, at every depth, stand for themselves between quotes. -/
def PlainNames : Ty → Prop
  | .vector a => PlainNames a
  | .dto fs => PlainFields fs
  | _ => True

def PlainFields : List (FieldDescriptor × Ty) → Prop
  | [] => True
  | (field, a) :: fs => (field.ignored = false → field.name.all plain = true ∧ PlainNames a) ∧ PlainFields fs

end

theorem names_writtenFields {fs : List (FieldDescriptor × Ty)} {obj : ElFields fs} (h : m ∈ writtenFields fs obj) :
    ∃ f ∈ fs, f.1.ignored = false ∧ m.1 = f.1.name := by
  induction fs with
  | nil => cases h
  | cons f fs ih =>
    obtain ⟨field, a⟩ := f
    rw [writtenFields] at h
    split at h
    · obtain ⟨f, hf, hm⟩ := ih h
      exact ⟨f, List.mem_cons_of_mem _ hf, hm⟩
    · next hi =>
      rcases List.mem_cons.1 h with rfl | h
      · exact ⟨(field, a), List.mem_cons_self .., Bool.eq_false_iff.2 hi, rfl⟩
      · obtain ⟨f, hf, hm⟩ := ih h
        exact ⟨f, List.mem_cons_of_mem _ hf, hm⟩

theorem readable_writtenFields (fs : List (FieldDescriptor × Ty))
    (h : ∀ f ∈ fs, PlainNames f.2 → ∀ val, Readable id (List.flatMap escaped) (writtenDoc f.2 val))
    (hplain : PlainFields fs) (obj : ElFields fs) :
    ∀ m ∈ writtenFields fs obj, Spells id m.1 ∧ Readable id (List.flatMap escaped) m.2 := by
  induction fs with
  | nil => exact fun m hm => nomatch hm
  | cons f fs ih =>
    obtain ⟨field, a⟩ := f
    rw [PlainFields] at hplain
    have hfs := ih (fun f hf => h f (List.mem_cons_of_mem _ hf)) hplain.2 obj.2
    intro m hm
    rw [writtenFields] at hm
    split at hm
    · exact hfs m hm
    · next hi =>
      obtain ⟨hname, ha⟩ := hplain.1 (Bool.eq_false_iff.2 hi)
      rcases List.mem_cons.1 hm with rfl | hm
      · exact ⟨spells_plain hname, h (field, a) (List.mem_cons_self ..) ha obj.1⟩
      · exact hfs m hm

theorem readable_written (a : Ty) : PlainNames a → ∀ val, Readable id (List.flatMap escaped) (writtenDoc a val) := by
  induction a using Ty.induct with
  | string => exact fun _ val => .string (escaped_spells val)
  | bool => exact fun _ val => .bool val
  | integral signed w => exact fun _ val => .number _
  | vector a ih =>
    intro h (val : List (El a))
    apply Readable.array
    intro x hx
    obtain ⟨item, -, rfl⟩ := List.mem_map.1 hx
    exact ih h item
  | dto fs ih =>
    intro h val
    have hall := readable_writtenFields fs ih h val
    exact .object (fun m hm => (hall m hm).1) fun m hm => (hall m hm).2

theorem distinct_writtenFields {fs : List (FieldDescriptor × Ty)} (h : DistinctFields fs) (obj : ElFields fs) :
    Distinct (writtenFields fs obj) := by
  induction fs with
  | nil => exact List.nodup_nil
  | cons f fs ih =>
    obtain ⟨field, a⟩ := f
    rw [DistinctFields] at h
    have hfs := ih h.2 obj.2
    rw [writtenFields]
    split
    · exact hfs
    · next hi =>
      apply List.nodup_cons.2
      refine ⟨?_, hfs⟩
      intro hmem
      obtain ⟨m, hm, hname⟩ := List.mem_map.1 hmem
      obtain ⟨f, hf, hwritten, heq⟩ := names_writtenFields hm
      exact (h.1 (Bool.eq_false_iff.2 hi)).1 f hf hwritten (heq ▸ hname)

theorem settle_writtenFields (fs : List (FieldDescriptor × Ty))
    (h : ∀ f ∈ fs, DistinctNames f.2 → ∀ val, settle (writtenDoc f.2 val) = writtenDoc f.2 val)
    (hdistinct : DistinctFields fs) (obj : ElFields fs) :
    (writtenFields fs obj).map settleMember = writtenFields fs obj := by
  induction fs with
  | nil => rfl
  | cons f fs ih =>
    obtain ⟨field, a⟩ := f
    rw [DistinctFields] at hdistinct
    have hfs := ih (fun f hf => h f (List.mem_cons_of_mem _ hf)) hdistinct.2 obj.2
    rw [writtenFields]
    split
    · exact hfs
    · next hi =>
      have ha := h (field, a) (List.mem_cons_self ..) (hdistinct.1 (Bool.eq_false_iff.2 hi)).2 obj.1
      rw [List.map_cons, hfs, settleMember, ha]

theorem settle_written (a : Ty) : DistinctNames a → ∀ val, settle (writtenDoc a val) = writtenDoc a val := by
  induction a using Ty.induct with
  | string | bool | integral signed w => exact fun _ _ => rfl
  | vector a ih =>
    intro h (val : List (El a))
    change Tree.array (settleElements (val.map (writtenDoc a))) = .array (val.map (writtenDoc a))
    rw [settleElements_eq, List.map_map]
    exact congrArg _ (List.map_congr_left fun item _ => ih h item)
  | dto fs ih =>
    intro h (val : ElFields fs)
    change Tree.object (settleMembers (writtenFields fs val) []) = .object (writtenFields fs val)
    rw [settleMembers_distinct _ _ (distinct_writtenFields h val), List.nil_append, settle_writtenFields fs ih h]

end Names

section Sample

theorem inType_zero (signed : Bool) (w : IntWidth) : InType signed w 0 := by
  cases signed <;> cases w <;> decide

mutual

/-- A value in which every name occurs. -/
def sample : (a : Ty) → El a
  | .string => ([] : Bytes)
  | .bool => true
  | .integral signed w => ⟨0, inType_zero signed w⟩
  | .vector a => [sample a]
  | .dto fs => sampleFields fs

def sampleFields : (fs : List (FieldDescriptor × Ty)) → ElFields fs
  | [] => ()
  | (_, a) :: fs => (sample a, sampleFields fs)

end

/-- A text that is as long as its tree has to be has plain names only. -/
def Tight (a : Ty) : Prop :=
  (render id (List.flatMap escaped) (writtenDoc a (sample a))).length ≤ (writtenDoc a (sample a)).size ∧
    ((writtenDoc a (sample a)).size ≤ (render id (List.flatMap escaped) (writtenDoc a (sample a))).length → PlainNames a)

/-- The members and the commas between them, or before each of them. -/
def memberLength (first : Bool) (ms : List (Bytes × Doc)) : Nat :=
  (separated first (ms.map (renderMember id (List.flatMap escaped)))).length

theorem memberLength_cons (first : Bool) (k : Bytes) (x : Doc) (ms : List (Bytes × Doc)) :
    memberLength first ((k, x) :: ms) = (if first then 0 else 1) + k.length + 3 +
      (render id (List.flatMap escaped) x).length + memberLength false ms := by
  rw [memberLength, List.map_cons, separated_cons, renderMember, quote]
  simp only [List.length_append, List.length_cons, List.length_nil, id, memberLength]
  cases first with
  | true =>
    simp only [if_true, List.length_nil]
    omega
  | false =>
    simp only [Bool.false_eq_true, if_false, List.length_cons, List.length_nil]
    omega

theorem tight_fields (fs : List (FieldDescriptor × Ty)) (h : ∀ f ∈ fs, Tight f.2) :
    memberLength false (writtenFields fs (sampleFields fs)) ≤ memberSizes (writtenFields fs (sampleFields fs)) ∧
      (memberSizes (writtenFields fs (sampleFields fs)) ≤ memberLength false (writtenFields fs (sampleFields fs)) →
        PlainFields fs) := by
  induction fs with
  | nil => exact ⟨Nat.le_refl _, fun _ => trivial⟩
  | cons f fs ih =>
    obtain ⟨field, a⟩ := f
    obtain ⟨hle, hplain⟩ := ih fun f hf => h f (List.mem_cons_of_mem _ hf)
    obtain ⟨hale, haplain⟩ := h (field, a) (List.mem_cons_self ..)
    have hname := length_le_textSize field.name
    have hwritten : writtenFields ((field, a) :: fs) (sampleFields ((field, a) :: fs)) =
        if field.ignored then writtenFields fs (sampleFields fs)
        else (field.name, writtenDoc a (sample a)) :: writtenFields fs (sampleFields fs) := by
      rw [writtenFields]
      rfl
    rw [hwritten, PlainFields]
    split
    · next hi => exact ⟨hle, fun heq => ⟨fun hne => absurd hi (Bool.eq_false_iff.1 hne), hplain heq⟩⟩
    · simp only [memberLength_cons, memberSizes, Bool.false_eq_true, if_false] at hale haplain ⊢
      refine ⟨by omega, fun heq => ⟨fun _ => ⟨?_, haplain (by omega)⟩, hplain (by omega)⟩⟩
      apply (textSize_eq_length_iff _).1
      omega

theorem memberLength_first (ms : List (Bytes × Doc)) :
    memberLength true ms + (if ms.isEmpty then 0 else 1) = memberLength false ms := by
  cases ms with
  | nil => rfl
  | cons m ms =>
    obtain ⟨k, x⟩ := m
    simp only [memberLength_cons, List.isEmpty_cons, if_true, Bool.false_eq_true, if_false]
    omega

theorem tight (a : Ty) : Tight a := by
  induction a using Ty.induct with
  | string | bool | integral signed w => exact ⟨Nat.le_refl _, fun _ => trivial⟩
  | vector a ih =>
    obtain ⟨hle, hplain⟩ := ih
    have hlen : (render id (List.flatMap escaped) (.array [writtenDoc a (sample a)])).length =
        (render id (List.flatMap escaped) (writtenDoc a (sample a))).length + 2 := by
      rw [render_array, List.map_cons, List.map_nil, intercalate_one]
      simp only [List.length_append, List.length_cons, List.length_nil]
    have hsize : (Tree.array [writtenDoc a (sample a)]).size = (writtenDoc a (sample a)).size + 2 := by
      simp [Tree.size, sizes]
    change (render id (List.flatMap escaped) (.array [writtenDoc a (sample a)])).length ≤
        (Tree.array [writtenDoc a (sample a)]).size ∧
      ((Tree.array [writtenDoc a (sample a)]).size ≤
        (render id (List.flatMap escaped) (.array [writtenDoc a (sample a)])).length → PlainNames a)
    rw [hlen, hsize]
    exact ⟨by omega, fun h => hplain (by omega)⟩
  | dto fs ih =>
    obtain ⟨hle, hplain⟩ := tight_fields fs ih
    have hfirst := memberLength_first (writtenFields fs (sampleFields fs))
    have hlen : (render id (List.flatMap escaped) (.object (writtenFields fs (sampleFields fs)))).length =
        memberLength true (writtenFields fs (sampleFields fs)) + 2 := by
      rw [render_object, memberLength, separated, if_pos rfl]
      simp only [List.length_append, List.length_cons, List.length_nil]
    change (render id (List.flatMap escaped) (.object (writtenFields fs (sampleFields fs)))).length ≤
        (Tree.object (writtenFields fs (sampleFields fs))).size ∧
      ((Tree.object (writtenFields fs (sampleFields fs))).size ≤
        (render id (List.flatMap escaped) (.object (writtenFields fs (sampleFields fs)))).length → PlainFields fs)
    rw [hlen, Tree.size]
    cases hempty : (writtenFields fs (sampleFields fs)).isEmpty with
    | true =>
      simp only [hempty, if_true] at hfirst ⊢
      exact ⟨by omega, fun h => hplain (by omega)⟩
    | false =>
      simp only [hempty, Bool.false_eq_true, if_false] at hfirst ⊢
      exact ⟨by omega, fun h => hplain (by omega)⟩

end Sample

/-- How `boost::json::serialize` prints a value, so that the text is read as that value. -/
def Serialises (serialize : Value → Bytes) : Prop :=
  ∃ printDouble, ∀ v, SoundValue v → parse (serialize v) = some (v.map (Number.lexeme printDouble))

/-- Two JSON texts of one value. -/
def SameJson (s t : Bytes) : Prop := ∃ x y, parse s = some x ∧ parse t = some y ∧ settle x = settle y

section Results
variable (serialize : Value → Bytes) (fs : List (FieldDescriptor × Ty))

/-- Plain names are enough, whatever is repeated or ignored; and without repeated names nothing less
is. -/
theorem compileTimeToJson_agrees_iff (hs : Serialises serialize) :
    (PlainFields fs → ∀ obj, SameJson (compileTimeToJson fs obj) (serialize (.object (toJson fs obj)))) ∧
      (DistinctFields fs →
        ((∀ obj, SameJson (compileTimeToJson fs obj) (serialize (.object (toJson fs obj)))) ↔ PlainFields fs)) := by
  obtain ⟨printDouble, hs⟩ := hs
  have hread (obj : ElFields fs) : parse (serialize (.object (toJson fs obj))) =
      some ((Tree.object (toJson fs obj)).map (Number.lexeme printDouble)) :=
    hs _ (sound_valueToJson (.dto fs) obj)
  have hsettle (obj : ElFields fs) : settle ((Tree.object (toJson fs obj)).map (Number.lexeme printDouble)) =
      settle (writtenDoc (.dto fs) obj) := settle_valueToJson printDouble (.dto fs) obj
  have hplain (h : PlainFields fs) (obj : ElFields fs) :
      SameJson (compileTimeToJson fs obj) (serialize (.object (toJson fs obj))) := by
    refine ⟨_, _, ?_, hread obj, (hsettle obj).symm⟩
    rw [compileTimeToJson_eq]
    exact parse_render (readable_written (.dto fs) h obj)
  refine ⟨hplain, fun hdistinct => ⟨?_, hplain⟩⟩
  intro hsame
  obtain ⟨x, y, hx, hy, heq⟩ := hsame (sampleFields fs)
  rw [hread] at hy
  cases hy
  have hmeant : settle (writtenDoc (.dto fs) (sampleFields fs)) = writtenDoc (.dto fs) (sampleFields fs) :=
    settle_written (.dto fs) hdistinct (sampleFields fs)
  rw [hsettle, hmeant] at heq
  have hsize := settle_size x
  have hlen := parse_size hx
  rw [heq] at hsize
  rw [compileTimeToJson_eq] at hlen
  exact (tight (.dto fs)).2 (Nat.le_trans hsize hlen)

end Results

/-- A serialiser that escapes member names too. -/
def escapingSerialize (v : Value) : Bytes :=
  render (List.flatMap escaped) (List.flatMap escaped) (v.map (Number.lexeme fun _ => intLexeme 0))

theorem serialises_escaping : Serialises escapingSerialize := ⟨_, fun _ _ => parse_render (readable_escaped _)⟩

def aliased (name : Bytes) : List (FieldDescriptor × Ty) := [({ name }, .integral true .w32)]

def aliasedOne (name : Bytes) : ElFields (aliased name) := (castTo true .w32 1, ())

/-- The bound ten. -/
def ten : Double := .finite 10 0 0 (by decide)

def playerFields : List (FieldDescriptor × Ty) :=
  [({ name := bytes "name", notEmpty := true, lengthMax := some 8 }, .string),
    ({ name := bytes "level", maxVal := some ten }, .integral true .w32),
    ({ name := bytes "items" },
      .vector (.dto [({ name := bytes "id", required := true }, .integral false .w64), ({ name := bytes "worn" }, .bool)]))]

theorem distinct_playerFields : DistinctFields playerFields := by
  simp only [playerFields, DistinctFields, DistinctNames, forall_true_left, and_true]
  decide

theorem compileTimeToJson_agrees_player :
    Serialises escapingSerialize ∧ DistinctFields playerFields ∧
      ∀ obj, SameJson (compileTimeToJson playerFields obj) (escapingSerialize (.object (toJson playerFields obj))) := by
  have hplain : PlainFields playerFields := by
    simp only [playerFields, PlainFields, PlainNames, forall_true_left, and_true]
    decide
  exact ⟨serialises_escaping, distinct_playerFields,
    ((compileTimeToJson_agrees_iff escapingSerialize _ serialises_escaping).2 distinct_playerFields).2 hplain⟩

/-- An alias with a quote in it: the text is no JSON. -/
theorem compileTimeToJson_quote :
    parse (compileTimeToJson (aliased (bytes "a\"b")) (aliasedOne _)) = none ∧
      ¬ SameJson (compileTimeToJson (aliased (bytes "a\"b")) (aliasedOne _))
        (escapingSerialize (.object (toJson (aliased (bytes "a\"b")) (aliasedOne _)))) := by
  have hnone : parse (compileTimeToJson (aliased (bytes "a\"b")) (aliasedOne _)) = none := by
    have hisNone : (parse (compileTimeToJson (aliased (bytes "a\"b")) (aliasedOne (bytes "a\"b")))).isNone = true := by
      decide
    exact Option.isNone_iff_eq_none.1 hisNone
  refine ⟨hnone, ?_⟩
  rintro ⟨x, -, hx, -⟩
  rw [hnone] at hx
  cases hx

end Hical
