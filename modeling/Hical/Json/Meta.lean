import Hical.Json.Value
import Hical.Lib.Double

namespace Hical
open Json

inductive IntWidth where
  | w8 | w16 | w32 | w64
  deriving DecidableEq

def IntWidth.bits : IntWidth → Nat
  | .w8 => 8
  | .w16 => 16
  | .w32 => 32
  | .w64 => 64

def InType (signed : Bool) (w : IntWidth) (n : Int) : Prop :=
  if signed then -2 ^ (w.bits - 1) ≤ n ∧ n < 2 ^ (w.bits - 1) else 0 ≤ n ∧ n < 2 ^ w.bits

instance (signed : Bool) (w : IntWidth) (n : Int) : Decidable (InType signed w n) :=
  inferInstanceAs (Decidable (ite _ _ _))

/-- `static_cast` to an integer type, before the range is known. -/
def wrap (signed : Bool) (w : IntWidth) (n : Int) : Int :=
  if signed then n.bmod (2 ^ w.bits) else n % 2 ^ w.bits

structure FieldDescriptor where
  name : Bytes
  required : Bool := false
  ignored : Bool := false
  minVal : Option Double := none
  maxVal : Option Double := none
  pattern : Option Bytes := none
  notEmpty : Bool := false
  lengthMin : Option Nat := none
  lengthMax : Option Nat := none

/-- The types that a field can have, a DTO by the list that `HICAL_JSON` makes of its fields. -/
inductive Ty where
  | string
  | bool
  | integral (signed : Bool) (w : IntWidth)
  | vector (elem : Ty)
  | dto (fields : List (FieldDescriptor × Ty))

@[elab_as_elim]
theorem Ty.induct {P : Ty → Prop} (string : P .string) (bool : P .bool)
    (integral : ∀ signed w, P (.integral signed w)) (vector : ∀ a, P a → P (.vector a))
    (dto : ∀ fs, (∀ f ∈ fs, P f.2) → P (.dto fs)) : ∀ a, P a
  | .string => string
  | .bool => bool
  | .integral signed w => integral signed w
  | .vector a => vector a (Ty.induct string bool integral vector dto a)
  | .dto fs => dto fs fun f _ => Ty.induct string bool integral vector dto f.2
  termination_by a => sizeOf a
  decreasing_by
    · simp only [Ty.vector.sizeOf_spec]
      omega
    · have hf := List.sizeOf_lt_of_mem ‹f ∈ fs›
      have hp : sizeOf f.2 < sizeOf f := by
        cases f
        simp only [Prod.mk.sizeOf_spec]
        omega
      simp only [Ty.dto.sizeOf_spec]
      omega

mutual

def El : Ty → Type
  | .string => Bytes
  | .bool => Bool
  | .integral signed w => { n : Int // InType signed w n }
  | .vector a => List (El a)
  | .dto fs => ElFields fs

def ElFields : List (FieldDescriptor × Ty) → Type
  | [] => Unit
  | (_, a) :: fs => El a × ElFields fs

end

mutual

def valueToJson : (a : Ty) → El a → Value
  | .string, val => .string val
  | .bool, val => .bool val
  | .integral signed _, val => .number (if signed then .int64 (.ofInt val.1) else .uint64 (.ofNat val.1.toNat))
  | .vector a, val => .array (val.map (valueToJson a))
  | .dto fs, val => .object (serializeFields fs val [])

def serializeFields : (fs : List (FieldDescriptor × Ty)) → ElFields fs → List (Bytes × Value) → List (Bytes × Value)
  | [], _, jsonObj => jsonObj
  | (field, a) :: fs, obj, jsonObj =>
    serializeFields fs obj.2 (if field.ignored then jsonObj else setMember field.name (valueToJson a obj.1) jsonObj)

end

def toJson (fs : List (FieldDescriptor × Ty)) (obj : ElFields fs) : List (Bytes × Value) := serializeFields fs obj []

mutual

/-- No object has a name twice among those that are written, at any depth. -/
def DistinctNames : Ty → Prop
  | .vector a => DistinctNames a
  | .dto fs => DistinctFields fs
  | _ => True

def DistinctFields : List (FieldDescriptor × Ty) → Prop
  | [] => True
  | (field, a) :: fs =>
    (field.ignored = false → (∀ f ∈ fs, f.1.ignored = false → f.1.name ≠ field.name) ∧ DistinctNames a) ∧ DistinctFields fs

end

theorem IntWidth.two_pow (w : IntWidth) : (2 : Int) ^ w.bits = 2 * 2 ^ (w.bits - 1) := by
  cases w <;> rfl

theorem wrap_inType (signed : Bool) (w : IntWidth) (n : Int) : InType signed w (wrap signed w n) := by
  have hpow := w.two_pow
  have hpos : 0 < 2 ^ w.bits := Nat.two_pow_pos _
  have hcast : ((2 ^ w.bits : Nat) : Int) = 2 ^ w.bits := by rw [Int.natCast_pow]; rfl
  cases signed with
  | false =>
    have hne : (2 : Int) ^ w.bits ≠ 0 := by omega
    exact ⟨Int.emod_nonneg _ hne, Int.emod_lt_of_pos _ (by omega)⟩
  | true =>
    have hlo := Int.le_bmod (x := n) hpos
    have hhi := Int.bmod_lt (x := n) hpos
    simp only [InType, wrap, if_true]
    omega

theorem wrap_eq_iff (signed : Bool) (w : IntWidth) (n : Int) : wrap signed w n = n ↔ InType signed w n := by
  constructor
  · intro h
    exact h ▸ wrap_inType signed w n
  · intro h
    have hpow := w.two_pow
    have hcast : ((2 ^ w.bits : Nat) : Int) = 2 ^ w.bits := by rw [Int.natCast_pow]; rfl
    cases signed with
    | false => exact Int.emod_eq_of_lt h.1 h.2
    | true =>
      obtain ⟨hlo, hhi⟩ := h
      exact Int.bmod_eq_of_le (by omega) (by omega)

theorem toInt_int64 (h : InType true w n) : (Int64.ofInt n).toInt = n := by
  apply Int64.toInt_ofInt_of_le
  · obtain ⟨hlo, -⟩ := h
    cases w <;> simp [IntWidth.bits] at hlo ⊢ <;> omega
  · obtain ⟨-, hhi⟩ := h
    cases w <;> simp [IntWidth.bits] at hhi ⊢ <;> omega

theorem toNat_uint64 (h : InType false w n) : ((UInt64.ofNat n.toNat).toNat : Int) = n := by
  obtain ⟨hlo, hhi⟩ := h
  have hlt : n.toNat < 2 ^ 64 := by
    cases w <;> simp [IntWidth.bits] at hhi ⊢ <;> omega
  rw [UInt64.toNat_ofNat_of_lt' hlt]
  exact Int.toNat_of_nonneg hlo

inductive JsonError where
  | typeMismatch (expected : Bytes)
  | missingField (fieldName : Bytes)
  | parseError (detail : Bytes)
  | validationErrorNum (fieldName rule : Bytes) (limit : Option (Double ⊕ Nat))
  | validationErrorStr (fieldName rule : Bytes)

/-- The value of an arithmetic type, which `bool` is one of. -/
def number? : (a : Ty) → El a → Option Int
  | .bool, val => some (Bool.toInt val)
  | .integral _ _, val => some val.1
  | _, _ => none

def text? : (a : Ty) → El a → Option Bytes
  | .string, val => some val
  | _, _ => none

section Accessors

def asString : Value → Except JsonError Bytes
  | .string s => .ok s
  | _ => .error (.typeMismatch (bytes "string"))

def asBool : Value → Except JsonError Bool
  | .bool b => .ok b
  | _ => .error (.typeMismatch (bytes "bool"))

/-- What `as_uint64` or `as_int64` gives. -/
def asInteger : Value → Except JsonError Int
  | .number (.uint64 n) => .ok n.toNat
  | .number (.int64 n) => .ok n.toInt
  | _ => .error (.typeMismatch (bytes "integer"))

def asArray : Value → Except JsonError (List Value)
  | .array arr => .ok arr
  | _ => .error (.typeMismatch (bytes "array"))

def asObject : Value → Except JsonError (List (Bytes × Value))
  | .object jsonObj => .ok jsonObj
  | _ => .error (.typeMismatch (bytes "object"))

end Accessors

section Deserialising
variable (validatePattern : Bytes → Bytes → Bool)

/-- The checks of `validateField` in their order, each with what it throws. -/
def fieldChecks (field : FieldDescriptor) (a : Ty) (val : El a) : List (Bool × JsonError) :=
  [((number? a val).any fun n => field.minVal.any fun lo => decide (lo.Above (Double.ofInt n)),
      .validationErrorNum field.name (bytes "minimum") (field.minVal.map .inl)),
    ((number? a val).any fun n => field.maxVal.any fun hi => decide (hi.Below (Double.ofInt n)),
      .validationErrorNum field.name (bytes "maximum") (field.maxVal.map .inl)),
    (field.notEmpty && (text? a val).any List.isEmpty, .validationErrorStr field.name (bytes "not-empty")),
    ((text? a val).any fun s => field.pattern.any fun re => !validatePattern s re,
      .validationErrorStr field.name (bytes "pattern")),
    ((text? a val).any fun s => field.lengthMin.any fun n => decide (s.length < n),
      .validationErrorNum field.name (bytes "min-length") (field.lengthMin.map .inr)),
    ((text? a val).any fun s => field.lengthMax.any fun n => decide (n < s.length),
      .validationErrorNum field.name (bytes "max-length") (field.lengthMax.map .inr))]

def validateField (field : FieldDescriptor) (a : Ty) (val : El a) : Except JsonError Unit :=
  match (fieldChecks validatePattern field a val).find? (·.1) with
  | some (_, e) => .error e
  | none => .ok ()

/-- `static_cast<T>`. -/
def castTo (signed : Bool) (w : IntWidth) (n : Int) : El (.integral signed w) :=
  ⟨wrap signed w n, wrap_inType signed w n⟩

/-- The lambda of `deserializeFields`; `read` is the field's own `valueFromJson`. -/
def trySet (field : FieldDescriptor) (a : Ty) (read : Value → Except JsonError (El a)) (old : El a)
    (jsonObj : List (Bytes × Value)) : Except JsonError (El a) :=
  if field.ignored then .ok old
  else
    match findMember field.name jsonObj with
    | some v => (read v).bind fun val => (validateField validatePattern field a val).map fun _ => val
    | none => if field.required then .error (.missingField field.name) else .ok old

variable (blank : (a : Ty) → El a)

mutual

def valueFromJson : (a : Ty) → Value → Except JsonError (El a)
  | .string, val => asString val
  | .bool, val => asBool val
  | .integral signed w, val => (asInteger val).map (castTo signed w)
  | .vector a, val => (asArray val).bind fun arr => arr.mapM (valueFromJson a)
  | .dto fs, val => (asObject val).bind fun jsonObj => deserializeFields fs (blank (.dto fs)) jsonObj

/-- The fields of `obj` in their order. -/
def deserializeFields : (fs : List (FieldDescriptor × Ty)) → ElFields fs → List (Bytes × Value) →
    Except JsonError (ElFields fs)
  | [], _, _ => .ok ()
  | (field, a) :: fs, obj, jsonObj =>
    (trySet validatePattern field a (valueFromJson a) obj.1 jsonObj).bind fun val =>
      (deserializeFields fs obj.2 jsonObj).map fun rest => (val, rest)

end

def kindName : Value → Bytes
  | .null => bytes "null"
  | .bool _ => bytes "bool"
  | .number (.int64 _) => bytes "int64"
  | .number (.uint64 _) => bytes "uint64"
  | .number (.double _) => bytes "double"
  | .string _ => bytes "string"
  | .array _ => bytes "array"
  | .object _ => bytes "object"

def fromJson (fs : List (FieldDescriptor × Ty)) (json : Value) : Except JsonError (ElFields fs) :=
  match json with
  | .object jsonObj => deserializeFields validatePattern blank fs (blank (.dto fs)) jsonObj
  | _ => .error (.parseError (bytes "expected JSON object, got " ++ kindName json))

end Deserialising

end Hical
