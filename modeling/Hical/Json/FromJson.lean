import Hical.Json.CompileTime

namespace Hical
open Json

section Exactness

/-- The declared minimum and maximum, by the number itself. -/
def WithinBounds (field : FieldDescriptor) (a : Ty) (val : El a) : Prop :=
  ∀ n, number? a val = some n → (∀ lo, field.minVal = some lo → ¬ lo.Above n) ∧ ∀ hi, field.maxVal = some hi → ¬ hi.Below n

/-- The conversion to `double` does not carry the number over a bound that it violates. -/
def NotCarried (field : FieldDescriptor) (json : Value) : Prop :=
  ∀ n, asInteger json = .ok n →
    (∀ lo, field.minVal = some lo → lo.Above n → lo.Above (Double.ofInt n)) ∧
      ∀ hi, field.maxVal = some hi → hi.Below n → hi.Below (Double.ofInt n)

mutual

/-- Every integer equals the number that it was read from and keeps to its bounds. -/
def Exact : (a : Ty) → Value → El a → Prop
  | .string, _, _ => True
  | .bool, _, _ => True
  | .integral _ _, json, val => asInteger json = .ok val.1
  | .vector a, json, val => ∃ arr, json = .array arr ∧ List.Forall₂ (Exact a) arr val
  | .dto fs, json, val => ∃ jsonObj, json = .object jsonObj ∧ ExactFields fs jsonObj val

def ExactFields : (fs : List (FieldDescriptor × Ty)) → List (Bytes × Value) → ElFields fs → Prop
  | [], _, _ => True
  | (field, a) :: fs, jsonObj, obj =>
    (field.ignored = false → ∀ v, findMember field.name jsonObj = some v →
      Exact a v obj.1 ∧ WithinBounds field a obj.1) ∧ ExactFields fs jsonObj obj.2

end

mutual

/-- Every number that is read for an integer is one of its type, and none is carried over a bound. -/
def InRange : Ty → Value → Prop
  | .string, _ => True
  | .bool, _ => True
  | .integral signed w, json => ∀ n, asInteger json = .ok n → InType signed w n
  | .vector a, json => ∀ arr, json = .array arr → ∀ v ∈ arr, InRange a v
  | .dto fs, json => ∀ jsonObj, json = .object jsonObj → FieldsInRange fs jsonObj

def FieldsInRange : List (FieldDescriptor × Ty) → List (Bytes × Value) → Prop
  | [], _ => True
  | (field, a) :: fs, jsonObj =>
    (field.ignored = false → ∀ v, findMember field.name jsonObj = some v → InRange a v ∧ NotCarried field v) ∧
      FieldsInRange fs jsonObj

end

mutual

def NoneIgnored : Ty → Prop
  | .vector a => NoneIgnored a
  | .dto fs => NoFieldIgnored fs
  | _ => True

def NoFieldIgnored : List (FieldDescriptor × Ty) → Prop
  | [] => True
  | (field, a) :: fs => field.ignored = false ∧ NoneIgnored a ∧ NoFieldIgnored fs

end

/-- The constraints on a field by themselves, without any conversion. -/
def MeetsField (validatePattern : Bytes → Bytes → Bool) (field : FieldDescriptor) (a : Ty) (val : El a) : Prop :=
  WithinBounds field a val ∧
    ∀ s, text? a val = some s → (field.notEmpty = true → s ≠ []) ∧
      (∀ re, field.pattern = some re → validatePattern s re = true) ∧
      (∀ n, field.lengthMin = some n → n ≤ s.length) ∧ ∀ n, field.lengthMax = some n → s.length ≤ n

mutual

/-- The object satisfies its constraints, at every depth. -/
def Meets (validatePattern : Bytes → Bytes → Bool) : (a : Ty) → El a → Prop
  | .vector a, val => List.Forall (Meets validatePattern a) val
  | .dto fs, val => MeetsFields validatePattern fs val
  | .string, _ => True
  | .bool, _ => True
  | .integral _ _, _ => True

def MeetsFields (validatePattern : Bytes → Bytes → Bool) : (fs : List (FieldDescriptor × Ty)) → ElFields fs → Prop
  | [], _ => True
  | (field, a) :: fs, obj =>
    MeetsField validatePattern field a obj.1 ∧ Meets validatePattern a obj.1 ∧ MeetsFields validatePattern fs obj.2

end

end Exactness

section Validating
variable {validatePattern : Bytes → Bytes → Bool}

theorem validateField_ok : validateField validatePattern field a val = .ok () ↔
    ∀ c ∈ fieldChecks validatePattern field a val, c.1 = false := by
  rw [validateField]
  split
  · next b e hfind =>
    have hb := List.find?_some hfind
    have hmem := List.mem_of_find?_eq_some hfind
    constructor
    · intro h
      cases h
    · intro h
      rw [h _ hmem] at hb
      cases hb
  · next hnone =>
    rw [List.find?_eq_none] at hnone
    constructor
    · exact fun _ c hc => Bool.not_eq_true _ ▸ hnone c hc
    · exact fun _ => rfl

theorem validateField_bounds (h : validateField validatePattern field a val = .ok ()) (hn : number? a val = some n) :
    (∀ lo, field.minVal = some lo → ¬ lo.Above (Double.ofInt n)) ∧
      ∀ hi, field.maxVal = some hi → ¬ hi.Below (Double.ofInt n) := by
  have hall := validateField_ok.1 h
  constructor
  · intro lo hlo
    have hcheck := hall _ (List.mem_cons_self ..)
    simpa only [hn, hlo, Option.any_some, decide_eq_false_iff_not] using hcheck
  · intro hi hhi
    have hcheck := hall _ (List.mem_cons_of_mem _ (List.mem_cons_self ..))
    simpa only [hn, hhi, Option.any_some, decide_eq_false_iff_not] using hcheck

end Validating

section Outcomes

theorem asArray_ok_iff {json : Value} : asArray json = .ok arr ↔ json = .array arr := by
  cases json <;> simp [asArray]

theorem asObject_ok_iff {json : Value} : asObject json = .ok jsonObj ↔ json = .object jsonObj := by
  cases json <;> simp [asObject]

end Outcomes

section Reading
variable (validatePattern : Bytes → Bytes → Bool) (blank : (a : Ty) → El a)

theorem ofInt_toInt (b : Bool) : Double.ofInt b.toInt = b.toInt := by
  cases b <;> rfl

theorem field_exact_iff (hread : valueFromJson validatePattern blank a v = .ok val)
    (hvalid : validateField validatePattern field a val = .ok ()) (ih : Exact a v val ↔ InRange a v) :
    (Exact a v val ∧ WithinBounds field a val) ↔ (InRange a v ∧ NotCarried field v) := by
  rw [ih]
  apply and_congr_right
  intro hrange
  cases a with
  | string =>
    obtain ⟨s, rfl⟩ : ∃ s, v = .string s := by
      cases v <;> simp [valueFromJson, asString] at hread ⊢
    exact ⟨fun _ n hn => (nomatch hn), fun _ n hn => (nomatch hn)⟩
  | bool =>
    obtain ⟨b, rfl⟩ : ∃ b, v = .bool b := by
      cases v <;> simp [valueFromJson, asBool] at hread ⊢
    refine ⟨fun _ n hn => (nomatch hn), fun _ n hn => ?_⟩
    have hbounds := validateField_bounds hvalid hn
    have hb : Double.ofInt n = n := by
      cases hn
      exact ofInt_toInt val
    rwa [hb] at hbounds
  | integral signed w =>
    obtain ⟨n, hn, rfl⟩ := map_ok_iff.1 hread
    have hcast : (castTo signed w n).1 = n := (wrap_eq_iff signed w n).2 (hrange n hn)
    have hnumber : number? (.integral signed w) (castTo signed w n) = some n := congrArg some hcast
    obtain ⟨hmin, hmax⟩ := validateField_bounds hvalid hnumber
    constructor
    · intro h m hm
      rw [hn] at hm
      cases hm
      obtain ⟨hlo, hhi⟩ := h n hnumber
      exact ⟨fun lo h h' => absurd h' (hlo lo h), fun hi h h' => absurd h' (hhi hi h)⟩
    · intro h m hm
      rw [hnumber] at hm
      cases hm
      obtain ⟨hlo, hhi⟩ := h n hn
      exact ⟨fun lo h h' => hmin lo h (hlo lo h h'), fun hi h h' => hmax hi h (hhi hi h h')⟩
  | vector a =>
    obtain ⟨arr, harr, -⟩ := bind_ok_iff.1 hread
    obtain rfl := asArray_ok_iff.1 harr
    exact ⟨fun _ n hn => (nomatch hn), fun _ n hn => (nomatch hn)⟩
  | dto fs =>
    obtain ⟨jsonObj, hobj, -⟩ := bind_ok_iff.1 hread
    obtain rfl := asObject_ok_iff.1 hobj
    exact ⟨fun _ n hn => (nomatch hn), fun _ n hn => (nomatch hn)⟩

theorem trySet_ok_some {read : Value → Except JsonError (El a)} (hi : field.ignored = false)
    (hfind : findMember field.name jsonObj = some v) (h : trySet validatePattern field a read old jsonObj = .ok val) :
    read v = .ok val ∧ validateField validatePattern field a val = .ok () := by
  rw [trySet, hi, if_neg Bool.false_ne_true, hfind] at h
  obtain ⟨val', hval, h⟩ := bind_ok_iff.1 h
  obtain ⟨_, hvalid, rfl⟩ := map_ok_iff.1 h
  exact ⟨hval, hvalid⟩

theorem fields_exact_iff (fs : List (FieldDescriptor × Ty))
    (ih : ∀ f ∈ fs, ∀ v val, valueFromJson validatePattern blank f.2 v = .ok val → (Exact f.2 v val ↔ InRange f.2 v))
    {old obj : ElFields fs} (hread : deserializeFields validatePattern blank fs old jsonObj = .ok obj) :
    ExactFields fs jsonObj obj ↔ FieldsInRange fs jsonObj := by
  induction fs with
  | nil => exact Iff.rfl
  | cons f fs ihs =>
    obtain ⟨field, a⟩ := f
    rw [deserializeFields] at hread
    obtain ⟨val, hset, hread⟩ := bind_ok_iff.1 hread
    obtain ⟨rest, hrest, rfl⟩ := map_ok_iff.1 hread
    change ((field.ignored = false → ∀ v, findMember field.name jsonObj = some v →
      Exact a v val ∧ WithinBounds field a val) ∧ ExactFields fs jsonObj rest) ↔ _
    rw [FieldsInRange]
    apply and_congr
    · apply forall_congr'
      intro hi
      apply forall_congr'
      intro v
      apply forall_congr'
      intro hfind
      obtain ⟨hval, hvalid⟩ := trySet_ok_some validatePattern hi hfind hset
      exact field_exact_iff validatePattern blank hval hvalid (ih (field, a) (List.mem_cons_self ..) v val hval)
    · exact ihs (fun f hf => ih f (List.mem_cons_of_mem _ hf)) hrest

theorem elements_exact_iff (ih : ∀ v val, valueFromJson validatePattern blank a v = .ok val → (Exact a v val ↔ InRange a v))
    (h : List.Forall₂ (fun v val => valueFromJson validatePattern blank a v = .ok val) arr vals) :
    List.Forall₂ (Exact a) arr vals ↔ ∀ v ∈ arr, InRange a v := by
  induction h with
  | nil => exact ⟨fun _ v hv => (nomatch hv), fun _ => .nil⟩
  | cons hv _ ihs => rw [List.forall₂_cons, ih _ _ hv, ihs, List.forall_mem_cons]

/-- Of what is accepted, exactly that is exact whose numbers are in range. -/
theorem exact_iff (a : Ty) : ∀ json val, valueFromJson validatePattern blank a json = .ok val →
    (Exact a json val ↔ InRange a json) := by
  induction a using Ty.induct with
  | string => exact fun _ _ _ => Iff.rfl
  | bool => exact fun _ _ _ => Iff.rfl
  | integral signed w =>
    intro json val h
    obtain ⟨n, hn, rfl⟩ := map_ok_iff.1 h
    rw [Exact, InRange, hn]
    constructor
    · intro heq m hm
      cases hm
      injection heq with heq
      exact (wrap_eq_iff signed w n).1 heq.symm
    · intro hrange
      exact congrArg _ ((wrap_eq_iff signed w n).2 (hrange n rfl)).symm
  | vector a ih =>
    intro json val h
    obtain ⟨arr, harr, h⟩ := bind_ok_iff.1 h
    obtain rfl := asArray_ok_iff.1 harr
    have hall := elements_exact_iff validatePattern blank ih (mapM_ok_iff.1 h)
    constructor
    · rintro ⟨arr', heq, hexact⟩ arr'' heq'
      cases heq
      cases heq'
      exact hall.1 hexact
    · intro hrange
      exact ⟨arr, rfl, hall.2 (hrange arr rfl)⟩
  | dto fs ih =>
    intro json val h
    obtain ⟨jsonObj, hobj, h⟩ := bind_ok_iff.1 h
    obtain rfl := asObject_ok_iff.1 hobj
    have hall := fields_exact_iff validatePattern blank fs ih h
    constructor
    · rintro ⟨jsonObj', heq, hexact⟩ jsonObj'' heq'
      cases heq
      cases heq'
      exact hall.1 hexact
    · intro hrange
      exact ⟨jsonObj, rfl, hall.2 (hrange jsonObj rfl)⟩

end Reading

section RoundTrip
variable (validatePattern : Bytes → Bytes → Bool) (blank : (a : Ty) → El a)

theorem validateField_meets (h : MeetsField validatePattern field a val) : validateField validatePattern field a val = .ok () := by
  obtain ⟨hbounds, htext⟩ := h
  apply validateField_ok.2
  intro c hc
  have hnumber (p : Double → Int → Bool) (bound : Option Double)
      (hp : ∀ n, number? a val = some n → ∀ d, bound = some d → p d n = false) :
      (number? a val).any (fun n => bound.any fun d => p d n) = false := by
    cases hn : number? a val with
    | none => rfl
    | some n =>
      cases hd : bound with
      | none => rfl
      | some d => exact hp n hn d hd
  have hstring (p : Bytes → Bool) (hp : ∀ s, text? a val = some s → p s = false) : (text? a val).any p = false := by
    cases hs : text? a val with
    | none => rfl
    | some s => exact hp s hs
  simp only [fieldChecks, List.mem_cons, List.not_mem_nil, or_false] at hc
  rcases hc with rfl | rfl | rfl | rfl | rfl | rfl
  · apply hnumber fun d n => decide (d.Above (Double.ofInt n))
    intro n hn d hd
    exact decide_eq_false fun h => (hbounds n hn).1 d hd (Double.above_of_ofInt d h)
  · apply hnumber fun d n => decide (d.Below (Double.ofInt n))
    intro n hn d hd
    exact decide_eq_false fun h => (hbounds n hn).2 d hd (Double.below_of_ofInt d h)
  · cases hempty : field.notEmpty with
    | false => rfl
    | true =>
      apply hstring
      intro s hs
      exact List.isEmpty_eq_false_iff.2 ((htext s hs).1 hempty)
  · apply hstring
    intro s hs
    cases hre : field.pattern with
    | none => rfl
    | some re => simp [(htext s hs).2.1 re hre]
  · apply hstring
    intro s hs
    cases hn : field.lengthMin with
    | none => rfl
    | some n => simp [(htext s hs).2.2.1 n hn]
  · apply hstring
    intro s hs
    cases hn : field.lengthMax with
    | none => rfl
    | some n => simp [(htext s hs).2.2.2 n hn]

theorem findMember_serializeFields {fs : List (FieldDescriptor × Ty)} {name : Bytes}
    (h : ∀ f ∈ fs, f.1.ignored = false → f.1.name ≠ name) (obj : ElFields fs) (jsonObj : List (Bytes × Value)) :
    findMember name (serializeFields fs obj jsonObj) = findMember name jsonObj := by
  induction fs generalizing jsonObj with
  | nil => rfl
  | cons f fs ih =>
    obtain ⟨field, a⟩ := f
    rw [serializeFields, ih fun f hf => h f (List.mem_cons_of_mem _ hf)]
    split
    · rfl
    · next hi =>
      rw [findMember_set, if_neg (h (field, a) (List.mem_cons_self ..) (Bool.eq_false_iff.2 hi))]

theorem deserializeFields_serializeFields (fs : List (FieldDescriptor × Ty))
    (ih : ∀ f ∈ fs, DistinctNames f.2 → NoneIgnored f.2 → ∀ val, Meets validatePattern f.2 val →
      valueFromJson validatePattern blank f.2 (valueToJson f.2 val) = .ok val)
    (hd : DistinctFields fs) (hi : NoFieldIgnored fs) (obj : ElFields fs) (hm : MeetsFields validatePattern fs obj)
    (old : ElFields fs) (jsonObj : List (Bytes × Value)) :
    deserializeFields validatePattern blank fs old (serializeFields fs obj jsonObj) = .ok obj := by
  induction fs generalizing jsonObj with
  | nil => rfl
  | cons f fs ihs =>
    obtain ⟨field, a⟩ := f
    obtain ⟨hkept, hia, hi⟩ := hi
    obtain ⟨hfield, hma, hm⟩ := hm
    rw [DistinctFields] at hd
    obtain ⟨hnew, hda⟩ := hd.1 hkept
    have hval := ih (field, a) (List.mem_cons_self ..) hda hia obj.1 hma
    have hfind : findMember field.name (serializeFields ((field, a) :: fs) obj jsonObj) = some (valueToJson a obj.1) := by
      rw [serializeFields, findMember_serializeFields hnew, hkept, if_neg Bool.false_ne_true, findMember_set, if_pos rfl]
    have hset : trySet validatePattern field a (valueFromJson validatePattern blank a) old.1
        (serializeFields ((field, a) :: fs) obj jsonObj) = .ok obj.1 := by
      rw [trySet, hkept, if_neg Bool.false_ne_true, hfind]
      simp only [hval, Except.bind, validateField_meets validatePattern hfield, Except.map]
    rw [deserializeFields, hset, serializeFields]
    have hrest := ihs (fun f hf => ih f (List.mem_cons_of_mem _ hf)) hd.2 hi obj.2 hm old.2
      (if field.ignored then jsonObj else setMember field.name (valueToJson a obj.1) jsonObj)
    simp only [Except.bind, hrest, Except.map]
    rfl

theorem valueFromJson_valueToJson (a : Ty) : DistinctNames a → NoneIgnored a → ∀ val, Meets validatePattern a val →
    valueFromJson validatePattern blank a (valueToJson a val) = .ok val := by
  induction a using Ty.induct with
  | string => exact fun _ _ _ _ => rfl
  | bool => exact fun _ _ _ _ => rfl
  | integral signed w =>
    intro _ _ ⟨n, hn⟩ _
    have hcast : castTo signed w n = ⟨n, hn⟩ := Subtype.ext ((wrap_eq_iff signed w n).2 hn)
    cases signed with
    | true =>
      change Except.ok (castTo true w (Int64.ofInt n).toInt) = _
      rw [toInt_int64 hn, hcast]
    | false =>
      change Except.ok (castTo false w ((UInt64.ofNat n.toNat).toNat : Int)) = _
      rw [toNat_uint64 hn, hcast]
  | vector a ih =>
    intro hd hi (val : List (El a)) hm
    apply mapM_ok_iff.2
    apply List.forall₂_map_left_iff.2
    apply List.forall₂_same.2
    intro item hitem
    exact ih hd hi item (List.forall_iff_forall_mem.1 hm item hitem)
  | dto fs ih =>
    intro hd hi val hm
    exact deserializeFields_serializeFields validatePattern blank fs ih hd hi val hm _ []

end RoundTrip

section Results
variable (validatePattern : Bytes → Bytes → Bool) (blank : (a : Ty) → El a)

theorem fromJson_object (fs : List (FieldDescriptor × Ty)) (jsonObj : List (Bytes × Value)) :
    fromJson validatePattern blank fs (.object jsonObj) = valueFromJson validatePattern blank (.dto fs) (.object jsonObj) := by
  rw [fromJson, valueFromJson, asObject]
  rfl

theorem fromJson_ok {fs : List (FieldDescriptor × Ty)} {obj : ElFields fs} (h : fromJson validatePattern blank fs json = .ok obj) :
    valueFromJson validatePattern blank (.dto fs) json = .ok obj := by
  cases json with
  | object jsonObj => rwa [fromJson_object] at h
  | null | bool b | number n | string s | array xs => cases h

/-- The round trip holds as it stands. What is accepted is exact when all its integers are in the
ranges of their types and none is carried over a bound by its conversion, and not otherwise. -/
theorem fromJson_exact_iff (fs : List (FieldDescriptor × Ty)) :
    (DistinctFields fs → NoFieldIgnored fs → ∀ obj, MeetsFields validatePattern fs obj →
      fromJson validatePattern blank fs (.object (toJson fs obj)) = .ok obj) ∧
    ∀ json, (∀ obj, fromJson validatePattern blank fs json = .ok obj → Exact (.dto fs) json obj) ↔
      (∀ obj, fromJson validatePattern blank fs json ≠ .ok obj) ∨ InRange (.dto fs) json := by
  constructor
  · intro hd hi obj hm
    rw [fromJson_object]
    exact valueFromJson_valueToJson validatePattern blank (.dto fs) hd hi obj hm
  · intro json
    constructor
    · intro h
      by_cases hex : ∃ obj, fromJson validatePattern blank fs json = .ok obj
      · obtain ⟨obj, hobj⟩ := hex
        exact .inr ((exact_iff validatePattern blank (.dto fs) json obj (fromJson_ok validatePattern blank hobj)).1 (h obj hobj))
      · exact .inl fun obj hobj => hex ⟨obj, hobj⟩
    · rintro (hfail | hrange) obj hobj
      · exact absurd hobj (hfail obj)
      · exact (exact_iff validatePattern blank (.dto fs) json obj (fromJson_ok validatePattern blank hobj)).2 hrange

end Results

def player : ElFields playerFields :=
  (bytes "Ann", castTo true .w32 7, [(castTo false .w64 3, true, ()), (castTo false .w64 18446744073709551615, false, ())], ())

theorem fromJson_exact_iff_player :
    fromJson (fun _ _ => true) sample playerFields (.object (toJson playerFields player)) = .ok player :=
  have hkept : NoFieldIgnored playerFields := by
    simp only [playerFields, NoFieldIgnored, NoneIgnored]
    decide
  have hmeets : MeetsFields (fun _ _ => true) playerFields player := by
    have hstrings : bytes "Ann" ≠ [] ∧ (bytes "Ann").length ≤ 8 := by decide
    have hlevel : ¬ ten.Below (castTo true .w32 7).1 := by decide
    simpa [MeetsFields, Meets, MeetsField, WithinBounds, playerFields, player, number?, text?] using ⟨hstrings, hlevel⟩
  (fromJson_exact_iff (fun _ _ => true) sample playerFields).1 distinct_playerFields hkept player hmeets

/-- `MAX(level, 10)` on an `int32_t`. -/
def levelField : List (FieldDescriptor × Ty) :=
  [({ name := bytes "level", maxVal := some ten }, .integral true .w32)]

def sentLevel : Value := .object [(bytes "level", .number (.int64 4294967301))]

/-- The number wraps to 5 and 5 passes the check. -/
theorem fromJson_wraps :
    fromJson (fun _ _ => true) sample levelField sentLevel = .ok (castTo true .w32 5, ()) ∧
      ¬ Exact (.dto levelField) sentLevel ((castTo true .w32 5, ()) : ElFields levelField) := by
  refine ⟨rfl, ?_⟩
  rintro ⟨jsonObj, heq, hexact⟩
  cases heq
  have hlevel := (hexact.1 rfl (.number (.int64 4294967301)) rfl).1
  cases hlevel

end Hical
