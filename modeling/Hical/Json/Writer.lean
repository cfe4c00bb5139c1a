import Hical.Json.Escape

namespace Hical
open Json

/-- The floating-point numbers and how `std::to_chars` prints the finite ones. -/
structure Doubles where
  Carrier : Type
  isfinite : Carrier → Bool
  toChars : Carrier → Bytes
  isNumber_toChars : ∀ x, isfinite x = true → isNumber (toChars x) = true

/-- The arguments of `value`; an integer keeps its value when it is widened. -/
inductive JsonScalar (D : Doubles) where
  | null
  | string (str : Bytes)
  | bool (val : Bool)
  | integer (val : Int)
  | floating (val : D.Carrier)

structure JsonWriter.Frame where
  isObject : Bool
  empty : Bool

/-- `frames` are the first `depth_` of `frames_`, the innermost in front. -/
structure JsonWriter where
  out : Bytes
  frames : List JsonWriter.Frame := []
  pendingKey : Bool := false
  rootWritten : Bool := false

inductive JsonCall (D : Doubles) where
  | beginObject
  | endObject
  | beginArray
  | endArray
  | key (name : Bytes)
  | value (val : JsonScalar D)

namespace JsonWriter
variable {D : Doubles}

def kMaxDepth : Nat := 32

def isComplete (w : JsonWriter) : Bool := w.frames.isEmpty && !w.pendingKey

/-- `none` is the answer `false`, which leaves the writer as it is. -/
def beforeValue (w : JsonWriter) : Option JsonWriter :=
  if w.pendingKey then some { w with pendingKey := false }
  else
    match w.frames with
    | [] => if w.rootWritten then none else some { w with rootWritten := true }
    | frame :: outer =>
      if frame.isObject then none
      else
        some { w with
          out := if frame.empty then w.out else w.out ++ bytes ","
          frames := { frame with empty := false } :: outer }

def beginContainer (isObject : Bool) (w : JsonWriter) : JsonWriter :=
  if kMaxDepth ≤ w.frames.length then w
  else
    match w.beforeValue with
    | none => w
    | some w =>
      { w with
        out := w.out ++ (if isObject then bytes "\x7b" else bytes "[")
        frames := { isObject := isObject, empty := true } :: w.frames }

/-- The `null` for a key that got no value. -/
def fillKey (w : JsonWriter) : JsonWriter :=
  if w.pendingKey then { w with out := w.out ++ bytes "null", pendingKey := false } else w

def endContainer (isObject : Bool) (w : JsonWriter) : JsonWriter :=
  match w.frames with
  | [] => w
  | frame :: outer =>
    if frame.isObject != isObject then w
    else
      let w := if isObject then w.fillKey else w
      { w with out := w.out ++ (if isObject then bytes "\x7d" else bytes "]"), frames := outer }

def key (name : Bytes) (w : JsonWriter) : JsonWriter :=
  match w.frames with
  | [] => w
  | frame :: outer =>
    if !frame.isObject then w
    else
      let w := w.fillKey
      let out := if frame.empty then w.out else w.out ++ bytes ","
      { w with
        out := appendJsonString (out ++ bytes "\"") name ++ bytes "\"" ++ bytes ":"
        frames := { frame with empty := false } :: outer
        pendingKey := true }

def appendDouble (out : Bytes) (val : D.Carrier) : Bytes :=
  if !D.isfinite val then out ++ bytes "null" else out ++ D.toChars val

def appendScalar (out : Bytes) : JsonScalar D → Bytes
  | .null => out ++ bytes "null"
  | .string str => appendJsonString (out ++ bytes "\"") str ++ bytes "\""
  | .bool val => out ++ (if val then bytes "true" else bytes "false")
  | .integer val => out ++ decimalInt val
  | .floating val => appendDouble out val

def value (val : JsonScalar D) (w : JsonWriter) : JsonWriter :=
  match w.beforeValue with
  | none => w
  | some w => { w with out := appendScalar w.out val }

def call (w : JsonWriter) : JsonCall D → JsonWriter
  | .beginObject => w.beginContainer true
  | .endObject => w.endContainer true
  | .beginArray => w.beginContainer false
  | .endArray => w.endContainer false
  | .key name => w.key name
  | .value val => w.value val

end JsonWriter

/-- The compact text of a tree with the escapes of the writer. -/
abbrev jsonText (t : Doc) : Bytes := render (List.flatMap escaped) (List.flatMap escaped) t

theorem parse_jsonText (t : Doc) : parse (jsonText t) = some t := parse_render (readable_escaped t)

def JsonScalar.tree {D : Doubles} : JsonScalar D → Doc
  | .null => .null
  | .string str => .string str
  | .bool val => .bool val
  | .integer val => .number (intLexeme val)
  | .floating val =>
    if h : D.isfinite val = true then .number ⟨D.toChars val, D.isNumber_toChars val h⟩ else .null

theorem appendScalar_eq {D : Doubles} (out : Bytes) (val : JsonScalar D) :
    JsonWriter.appendScalar out val = out ++ jsonText val.tree := by
  cases val with
  | null => rfl
  | string str =>
    rw [JsonWriter.appendScalar, appendJsonString_bytes, List.append_assoc, List.append_assoc]
    rfl
  | bool val => cases val <;> rfl
  | integer val => rfl
  | floating val =>
    rw [JsonWriter.appendScalar, JsonWriter.appendDouble, JsonScalar.tree]
    by_cases h : D.isfinite val = true
    · rw [dif_pos h, h]
      rfl
    · rw [dif_neg h, Bool.eq_false_iff.2 h]
      rfl

section Places

/-- A container around the place where the writer is. -/
inductive Hole where
  | element (xs : List Doc)
  | member (ms : List (Bytes × Doc)) (k : Bytes)

/-- Where a document is being written: in front of it, behind it, between the elements or the
members of a container, or behind a member name. -/
inductive Place where
  | start
  | done (t : Doc)
  | inArray (xs : List Doc) (up : List Hole)
  | inObject (ms : List (Bytes × Doc)) (up : List Hole)
  | afterKey (ms : List (Bytes × Doc)) (k : Bytes) (up : List Hole)

namespace Place

/-- A finished container is a value of the one around it. -/
def close (t : Doc) : List Hole → Place
  | [] => .done t
  | .element xs :: up => .inArray (xs ++ [t]) up
  | .member ms k :: up => .inObject (ms ++ [(k, t)]) up

def depth : Place → Nat
  | .start | .done _ => 0
  | .inArray _ up | .inObject _ up | .afterKey _ _ up => up.length + 1

/-- The containers around the next value, where one has its place. -/
def holes : Place → Option (List Hole)
  | .start => some []
  | .inArray xs up => some (.element xs :: up)
  | .afterKey ms k up => some (.member ms k :: up)
  | .done _ | .inObject _ _ => none

/-- A value that has no place is dropped. -/
def put (t : Doc) (p : Place) : Place :=
  match p.holes with
  | some up => close t up
  | none => p

def enter (isObject : Bool) (up : List Hole) : Place := if isObject then .inObject [] up else .inArray [] up

/-- A container opens where a value has its place. -/
def inner (isObject : Bool) (p : Place) : Place :=
  match p.holes with
  | some up => enter isObject up
  | none => p

/-- It does not open where it would be too deep. -/
def «open» (isObject : Bool) (p : Place) : Place :=
  if JsonWriter.kMaxDepth ≤ p.depth then p else p.inner isObject

/-- An end that fits the innermost container closes it; a key without a value gets a null. -/
def leave (isObject : Bool) : Place → Place
  | .inArray xs up => if isObject then .inArray xs up else close (.array xs) up
  | .inObject ms up => if isObject then close (.object ms) up else .inObject ms up
  | .afterKey ms k up => if isObject then close (.object (ms ++ [(k, .null)])) up else .afterKey ms k up
  | p => p

def name (k : Bytes) : Place → Place
  | .inObject ms up => .afterKey ms k up
  | .afterKey ms k' up => .afterKey (ms ++ [(k', .null)]) k up
  | p => p

def call {D : Doubles} (p : Place) : JsonCall D → Place
  | .beginObject => p.open true
  | .endObject => p.leave true
  | .beginArray => p.open false
  | .endArray => p.leave false
  | .key k => p.name k
  | .value val => p.put val.tree

end Place

end Places

namespace Place

section Texts

/-- Texts with commas between them. -/
def joined (l : List Bytes) : Bytes := [44].intercalate l

/-- The comma in front of one more. -/
def gap (l : List α) : Bytes := if l.isEmpty then [] else [44]

def elementTexts (xs : List Doc) : List Bytes := xs.map jsonText

def memberTexts (ms : List (Bytes × Doc)) : List Bytes :=
  ms.map (renderMember (List.flatMap escaped) (List.flatMap escaped))

def keyText (k : Bytes) : Bytes := quote (k.flatMap escaped) ++ [58]

def holeText : Hole → Bytes
  | .element xs => 91 :: joined (elementTexts xs) ++ gap xs
  | .member ms k => 123 :: joined (memberTexts ms) ++ gap ms ++ keyText k

def holeFrame : Hole → JsonWriter.Frame
  | .element _ => { isObject := false, empty := false }
  | .member _ _ => { isObject := true, empty := false }

def holesText : List Hole → Bytes
  | [] => []
  | h :: up => holesText up ++ holeText h

def text : Place → Bytes
  | .start => []
  | .done t => jsonText t
  | .inArray xs up => holesText up ++ 91 :: joined (elementTexts xs)
  | .inObject ms up => holesText up ++ 123 :: joined (memberTexts ms)
  | .afterKey ms k up => holesText (.member ms k :: up)

def frames : Place → List JsonWriter.Frame
  | .start | .done _ => []
  | .inArray xs up => { isObject := false, empty := xs.isEmpty } :: up.map holeFrame
  | .inObject ms up => { isObject := true, empty := ms.isEmpty } :: up.map holeFrame
  | .afterKey _ _ up => { isObject := true, empty := false } :: up.map holeFrame

def pendingKey : Place → Bool
  | .afterKey _ _ _ => true
  | _ => false

def rootWritten : Place → Bool
  | .start => false
  | _ => true

/-- The writer that is at that place of its document, behind what `out` held before. -/
def writer (out : Bytes) (p : Place) : JsonWriter where
  out := out ++ p.text
  frames := p.frames
  pendingKey := p.pendingKey
  rootWritten := p.rootWritten

theorem joined_snoc (l : List Bytes) (x : Bytes) : joined (l ++ [x]) = joined l ++ (gap l ++ x) := by
  rw [joined, intercalate_snoc, List.append_assoc]
  cases l <;> rfl

theorem gap_map (f : α → β) (l : List α) : gap (l.map f) = gap l := by
  cases l <;> rfl

theorem elements_snoc (xs : List Doc) (t : Doc) :
    joined (elementTexts (xs ++ [t])) = joined (elementTexts xs) ++ (gap xs ++ jsonText t) := by
  rw [elementTexts, List.map_append, List.map_singleton, joined_snoc, gap_map]
  rfl

theorem members_snoc (ms : List (Bytes × Doc)) (k : Bytes) (t : Doc) : joined (memberTexts (ms ++ [(k, t)])) =
    joined (memberTexts ms) ++ (gap ms ++ (keyText k ++ jsonText t)) := by
  rw [memberTexts, List.map_append, List.map_singleton, joined_snoc, gap_map, renderMember, keyText,
    List.append_assoc]
  rfl

theorem length_frames (p : Place) : p.frames.length = p.depth := by
  cases p <;> simp [frames, depth]

/-- The writer between `beforeValue` and the value. -/
def atHole (out : Bytes) (up : List Hole) : JsonWriter where
  out := out ++ holesText up
  frames := up.map holeFrame
  rootWritten := true

theorem beforeValue_eq (out : Bytes) (p : Place) : (p.writer out).beforeValue = p.holes.map (atHole out) := by
  cases p with
  | start => rfl
  | done t => rfl
  | inArray xs up =>
    cases xs with
    | nil => simp [writer, JsonWriter.beforeValue, holes, atHole, text, frames, holesText, holeText, holeFrame, gap,
        pendingKey, rootWritten]
    | cons x xs =>
      simp [writer, JsonWriter.beforeValue, holes, atHole, text, frames, holesText, holeText, holeFrame, gap,
        pendingKey, rootWritten]
      rfl
  | inObject ms up => rfl
  | afterKey ms k up => rfl

theorem writer_close (out : Bytes) (t : Doc) (up : List Hole) :
    (close t up).writer out = { atHole out up with out := out ++ holesText up ++ jsonText t } := by
  cases up with
  | nil => simp [close, writer, atHole, text, frames, holesText, pendingKey, rootWritten]
  | cons h up =>
    cases h with
    | element xs =>
      simp [close, writer, atHole, text, frames, holesText, holeText, holeFrame, elements_snoc, pendingKey,
        rootWritten]
    | member ms k =>
      simp [close, writer, atHole, text, frames, holesText, holeText, holeFrame, members_snoc, pendingKey,
        rootWritten]

theorem writer_enter (out : Bytes) (isObject : Bool) (up : List Hole) : (enter isObject up).writer out =
    { atHole out up with
      out := out ++ holesText up ++ (if isObject then bytes "\x7b" else bytes "[")
      frames := { isObject := isObject, empty := true } :: up.map holeFrame } := by
  cases isObject with
  | false | true =>
    simp [enter, writer, atHole, text, frames, pendingKey, rootWritten]
    rfl

end Texts

section Calls
variable {D : Doubles}

theorem value_writer (out : Bytes) (p : Place) (val : JsonScalar D) :
    (p.writer out).value val = (p.put val.tree).writer out := by
  rw [JsonWriter.value, beforeValue_eq, put]
  cases p.holes with
  | none => rfl
  | some up =>
    rw [Option.map_some, writer_close]
    simp only [appendScalar_eq]
    rfl

theorem begin_writer (out : Bytes) (isObject : Bool) (p : Place) :
    (p.writer out).beginContainer isObject = (p.open isObject).writer out := by
  have hdepth : (p.writer out).frames.length = p.depth := p.length_frames
  rw [JsonWriter.beginContainer, hdepth, «open»]
  split
  · rfl
  · rw [beforeValue_eq, inner]
    cases p.holes with
    | none => rfl
    | some up =>
      rw [Option.map_some, writer_enter]
      rfl

theorem end_writer (out : Bytes) (isObject : Bool) (p : Place) :
    (p.writer out).endContainer isObject = (p.leave isObject).writer out := by
  cases p with
  | start => rfl
  | done t => rfl
  | inArray xs up =>
    cases isObject with
    | true => rfl
    | false =>
      rw [leave, if_neg Bool.false_ne_true, writer_close, jsonText, render_array]
      simp [JsonWriter.endContainer, writer, text, frames, pendingKey, rootWritten, atHole, joined, elementTexts]
      rfl
  | inObject ms up =>
    cases isObject with
    | false => rfl
    | true =>
      rw [leave, if_pos rfl, writer_close, jsonText, render_object]
      simp [JsonWriter.endContainer, JsonWriter.fillKey, writer, text, frames, pendingKey, rootWritten, atHole, joined,
        memberTexts]
      rfl
  | afterKey ms k up =>
    cases isObject with
    | false => rfl
    | true =>
      rw [leave, if_pos rfl, writer_close, jsonText, render_object]
      have hsnoc := members_snoc ms k .null
      rw [joined, joined, memberTexts, memberTexts] at hsnoc
      rw [hsnoc]
      simp [JsonWriter.endContainer, JsonWriter.fillKey, writer, text, frames, pendingKey, rootWritten, atHole, holesText,
        holeText, joined, memberTexts]
      rfl

theorem key_writer (out : Bytes) (k : Bytes) (p : Place) : (p.writer out).key k = (p.name k).writer out := by
  cases p with
  | start => rfl
  | done t => rfl
  | inArray xs up => rfl
  | inObject ms up =>
    cases ms with
    | nil | cons m ms =>
      simp [JsonWriter.key, JsonWriter.fillKey, appendJsonString_bytes, name, writer, text, frames, pendingKey,
        rootWritten, holesText, holeText, gap, keyText, quote]
      rfl
  | afterKey ms k' up =>
    simp [JsonWriter.key, JsonWriter.fillKey, appendJsonString_bytes, name, writer, text, frames, pendingKey,
      rootWritten, holesText, holeText, members_snoc, gap, keyText, quote]
    rfl

/-- Every call does to the text what it does to the place in the document. -/
theorem call_writer (out : Bytes) (p : Place) (c : JsonCall D) : (p.writer out).call c = (p.call c).writer out := by
  cases c with
  | beginObject => exact begin_writer out true p
  | endObject => exact end_writer out true p
  | beginArray => exact begin_writer out false p
  | endArray => exact end_writer out false p
  | key k => exact key_writer out k p
  | value val => exact value_writer out p val

theorem calls_writer (out : Bytes) (p : Place) (calls : List (JsonCall D)) :
    calls.foldl JsonWriter.call (p.writer out) = (calls.foldl call p).writer out := by
  induction calls generalizing p with
  | nil => rfl
  | cons c calls ih => rw [List.foldl_cons, call_writer, ih, List.foldl_cons]

end Calls

end Place

/-- The numbers of a document. -/
inductive JsonNumber (D : Doubles) where
  | integer (val : Int)
  | finite (val : D.Carrier) (h : D.isfinite val = true)

namespace JsonNumber
variable {D : Doubles}

def scalar : JsonNumber D → JsonScalar D
  | .integer val => .integer val
  | .finite val _ => .floating val

def lexeme : JsonNumber D → Lexeme
  | .integer val => intLexeme val
  | .finite val h => ⟨D.toChars val, D.isNumber_toChars val h⟩

theorem scalar_tree (n : JsonNumber D) : n.scalar.tree = .number n.lexeme := by
  cases n with
  | integer val => rfl
  | finite val h => exact dif_pos h

end JsonNumber

section Documents
variable {D : Doubles}

mutual

def writeCalls : Json.Tree (JsonNumber D) → List (JsonCall D)
  | .null => [.value .null]
  | .bool b => [.value (.bool b)]
  | .number n => [.value n.scalar]
  | .string str => [.value (.string str)]
  | .array xs => .beginArray :: elementCalls xs ++ [.endArray]
  | .object ms => .beginObject :: memberCalls ms ++ [.endObject]

def elementCalls : List (Json.Tree (JsonNumber D)) → List (JsonCall D)
  | [] => []
  | x :: xs => writeCalls x ++ elementCalls xs

def memberCalls : List (Bytes × Json.Tree (JsonNumber D)) → List (JsonCall D)
  | [] => []
  | (k, x) :: ms => .key k :: writeCalls x ++ memberCalls ms

end

mutual

/-- How deep the containers of a document are nested. -/
def depthOf : Json.Tree (JsonNumber D) → Nat
  | .array xs => elementsDepth xs + 1
  | .object ms => membersDepth ms + 1
  | _ => 0

def elementsDepth : List (Json.Tree (JsonNumber D)) → Nat
  | [] => 0
  | x :: xs => max (depthOf x) (elementsDepth xs)

def membersDepth : List (Bytes × Json.Tree (JsonNumber D)) → Nat
  | [] => 0
  | (_, x) :: ms => max (depthOf x) (membersDepth ms)

end

namespace Place

/-- What writing a document comes to: where a value has its place, its tree is put there. -/
def Writes (d : Json.Tree (JsonNumber D)) : Prop :=
  ∀ p up, holes p = some up → up.length + depthOf d ≤ JsonWriter.kMaxDepth →
    (writeCalls d).foldl call p = close (d.map JsonNumber.lexeme) up

theorem depth_of_holes {p : Place} (h : p.holes = some up) : p.depth = up.length := by
  cases p with
  | start | inArray xs up | afterKey ms k up =>
    cases h
    rfl
  | done t => cases h
  | inObject ms up => cases h

theorem open_of_holes {p : Place} (h : p.holes = some up) (hroom : up.length < JsonWriter.kMaxDepth)
    (isObject : Bool) : p.open isObject = enter isObject up := by
  rw [«open», depth_of_holes h, if_neg (Nat.not_le.2 hroom), inner, h]

theorem elementCalls_run (xs : List (Json.Tree (JsonNumber D))) (hw : ∀ x ∈ xs, Writes x) (done : List Doc)
    (up : List Hole) (hd : up.length + 1 + elementsDepth xs ≤ JsonWriter.kMaxDepth) :
    (elementCalls xs).foldl call (.inArray done up) = .inArray (done ++ mapElements JsonNumber.lexeme xs) up := by
  induction xs generalizing done with
  | nil => rw [elementCalls, mapElements, List.append_nil, List.foldl_nil]
  | cons x xs ih =>
    rw [elementsDepth] at hd
    rw [elementCalls, List.foldl_append, hw x (List.mem_cons_self ..) _ (.element done :: up) rfl
      (by rw [List.length_cons]; omega), close, ih (fun y hy => hw y (List.mem_cons_of_mem _ hy)) _ (by omega),
      mapElements, List.append_assoc]
    rfl

theorem memberCalls_run (ms : List (Bytes × Json.Tree (JsonNumber D))) (hw : ∀ m ∈ ms, Writes m.2)
    (done : List (Bytes × Doc)) (up : List Hole)
    (hd : up.length + 1 + membersDepth ms ≤ JsonWriter.kMaxDepth) :
    (memberCalls ms).foldl call (.inObject done up) = .inObject (done ++ mapMembers JsonNumber.lexeme ms) up := by
  induction ms generalizing done with
  | nil => rw [memberCalls, mapMembers, List.append_nil, List.foldl_nil]
  | cons m ms ih =>
    obtain ⟨k, x⟩ := m
    rw [membersDepth] at hd
    have hx : Writes x := hw (k, x) (List.mem_cons_self ..)
    rw [memberCalls, List.foldl_append, List.foldl_cons]
    change (memberCalls ms).foldl call ((writeCalls x).foldl call (.afterKey done k up)) = _
    rw [hx _ (.member done k :: up) rfl (by rw [List.length_cons]; omega), close,
      ih (fun m hm => hw m (List.mem_cons_of_mem _ hm)) _ (by omega), mapMembers, List.append_assoc]
    rfl

theorem writeCalls_run (d : Json.Tree (JsonNumber D)) : Writes d := by
  have hscalar (d : Json.Tree (JsonNumber D)) (val : JsonScalar D) (hcalls : writeCalls d = [.value val])
      (htree : val.tree = d.map JsonNumber.lexeme) : Writes d := by
    intro p up hp _
    rw [hcalls, List.foldl_cons, List.foldl_nil, ← htree, call, put, hp]
  induction d using Tree.induct with
  | null => exact hscalar _ .null rfl rfl
  | bool b => exact hscalar _ (.bool b) rfl rfl
  | number n => exact hscalar _ n.scalar rfl n.scalar_tree
  | string s => exact hscalar _ (.string s) rfl rfl
  | array xs ih =>
    intro p up hp hd
    rw [depthOf] at hd
    rw [writeCalls, List.foldl_append]
    change leave false ((elementCalls xs).foldl call (p.open false)) = _
    rw [open_of_holes hp (by omega)]
    change leave false ((elementCalls xs).foldl call (.inArray [] up)) = _
    rw [elementCalls_run xs ih [] up (by omega)]
    rfl
  | object ms ih =>
    intro p up hp hd
    rw [depthOf] at hd
    rw [writeCalls, List.foldl_append]
    change leave true ((memberCalls ms).foldl call (p.open true)) = _
    rw [open_of_holes hp (by omega)]
    change leave true ((memberCalls ms).foldl call (.inObject [] up)) = _
    rw [memberCalls_run ms ih [] up (by omega)]
    rfl

end Place

namespace JsonWriter

theorem start_writer (out : Bytes) : ({ out := out } : JsonWriter) = Place.start.writer out := by
  rw [Place.writer, Place.text, List.append_nil]
  rfl

theorem place_complete (out : Bytes) (p : Place) (hroot : (p.writer out).rootWritten = true)
    (hcomplete : (p.writer out).isComplete = true) : ∃ t, p = .done t := by
  cases p with
  | start => cases hroot
  | done t => exact ⟨t, rfl⟩
  | inArray xs up | inObject ms up | afterKey ms k up => cases hcomplete

/-- Whatever is called, a complete writer has appended one JSON text; and the calls for a document append
the text of that document, its members in order and its numbers as they are printed. -/
theorem writes_json (D : Doubles) (out : Bytes) :
    (∀ calls : List (JsonCall D),
      (calls.foldl call { out := out }).rootWritten = true → (calls.foldl call { out := out }).isComplete = true →
      ∃ text t, (calls.foldl call { out := out }).out = out ++ text ∧ parse text = some t) ∧
    (∀ d : Json.Tree (JsonNumber D), depthOf d ≤ kMaxDepth →
      ∃ text, (writeCalls d).foldl call { out := out } = { out := out ++ text, rootWritten := true } ∧
        parse text = some (d.map JsonNumber.lexeme)) ∧
    ∀ val, intValue (JsonNumber.integer val : JsonNumber D).lexeme.1 = some val := by
  refine ⟨?_, ?_, intValue_decimalInt⟩
  · intro calls hroot hcomplete
    rw [start_writer, Place.calls_writer] at hroot hcomplete ⊢
    obtain ⟨t, ht⟩ := place_complete out _ hroot hcomplete
    rw [ht]
    exact ⟨jsonText t, t, rfl, parse_jsonText t⟩
  · intro d hd
    refine ⟨jsonText (d.map JsonNumber.lexeme), ?_, parse_jsonText _⟩
    rw [start_writer, Place.calls_writer, Place.writeCalls_run d .start [] rfl (by rwa [List.length_nil, Nat.zero_add])]
    rfl

/-- Numbers of which one is printed as `0.5`. -/
def half : Doubles where
  Carrier := Unit
  isfinite := fun _ => true
  toChars := fun _ => [48, 46, 53]
  isNumber_toChars := fun _ _ => rfl

theorem writes_json_misused :
    (∃ text t, (([.endArray, .beginObject, .value (.bool true), .key [97], .key [98], .endArray, .endObject,
      .value .null] : List (JsonCall half)).foldl call { out := [32] }).out = [32] ++ text ∧ parse text = some t) ∧
    ∃ text, (writeCalls (.array [.number (.finite () rfl), .string [34], .number (.integer (-7) : JsonNumber half)])).foldl
        call { out := [32] } = { out := [32] ++ text, rootWritten := true } ∧
      parse text = some (.array [.number ⟨[48, 46, 53], rfl⟩, .string [34], .number (intLexeme (-7))]) :=
  ⟨(writes_json half [32]).1 _ rfl rfl, (writes_json half [32]).2.1 _ (by decide)⟩

end JsonWriter

end Documents

end Hical
