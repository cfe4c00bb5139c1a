import Hical.Http2.HeaderRules
import Hical.Http2.HeaderStorage

namespace Hical.Http2

open Http2Headers (isPseudo fieldSize)

namespace HeaderStorage
open HeaderRules (Rules Allows valueOf valueOf_field rules_snoc)

def table (s : HeaderStorage) : Fields := s.entries.map s.field

def Within (bytes : Bytes) (entry : Offset) : Prop :=
  entry.name.Within bytes ∧ entry.value.Within bytes

/-- An open block that has taken these fields. -/
structure Holds (options : Http2Options) (s : HeaderStorage) (fs : Fields) : Prop where
  table : s.table = fs
  within : ∀ entry ∈ s.entries, Within s.bytes entry
  maxFields : s.maxFields = options.maxHeaderFields.toNat
  maxBytes : s.maxBytes = options.maxHeaderBytes.toNat
  counted : s.decodedFields = fs.length
  spent : s.decodedBytes = (fs.map fun f => fieldSize f.name f.value).sum
  seen : s.regularSeen = fs.any (!isPseudo ·.name)
  length : s.contentLength.isSome = fs.any (·.name == Hical.bytes "content-length")
  unsealed : s.sealed = false
  unfailed : s.error.isError = false

variable {makeAddressV6 : Bytes → Option Bytes} {options : Http2Options}

theorem new_holds (kind : HeaderKind) (streamId : Int) (options : Http2Options) :
    Holds options (new kind streamId options) [] :=
  ⟨rfl, fun _ h => absurd h List.not_mem_nil, rfl, rfl, rfl, rfl, rfl, rfl, rfl, rfl⟩

theorem find_table (s : HeaderStorage) (name : Bytes) :
    s.table.find? (·.name == name) = (s.findEntry name).bind fun index => s.entries[index]?.map s.field := by
  rw [table, List.find?_map, List.find?_eq_bind_findIdx?_getElem?, findEntry, Option.map_bind]
  rfl

theorem value_eq (s : HeaderStorage) (name : Bytes) : s.value name = valueOf s.table name := by
  rw [valueOf, find_table, value]
  cases s.findEntry name with
  | none => rfl
  | some index => rfl

theorem findEntry_isSome (s : HeaderStorage) (name : Bytes) :
    (s.findEntry name).isSome = s.table.any (·.name == name) := by
  rw [findEntry, List.findIdx?_isSome, table, List.any_map]
  rfl

theorem not_any_name (fs : Fields) (name : Bytes) :
    (¬fs.any (·.name == name) = true) ↔ ∀ g ∈ fs, g.name ≠ name := by
  rw [Bool.not_eq_true, List.any_eq_false]
  simp only [beq_iff_eq, ne_eq]

theorem seen_iff (h : Holds options s fs) :
    s.regularSeen = false ↔ ∀ g ∈ fs, isPseudo g.name = true := by
  rw [h.seen, List.any_eq_false]
  simp only [Bool.not_eq_true', Bool.not_eq_false]

theorem none_named (h : Holds options s fs) (name : Bytes) :
    (s.findEntry name).isSome = false ↔ ∀ g ∈ fs, g.name ≠ name := by
  rw [findEntry_isSome, h.table, ← Bool.not_eq_true]
  exact not_any_name fs name

theorem all_digits (value : Bytes) :
    value.all isDigit ≠ false ↔ ∀ c ∈ value, isDigit c = true := by
  rw [ne_eq, Bool.not_eq_false]
  exact List.all_eq_true

theorem authority_isSome (makeAddressV6 : Bytes → Option Bytes) (value : Bytes) :
    (Authority.parseAuthority makeAddressV6 value).isSome = true ↔
      ∃ a, Authority.IsAuthority makeAddressV6 value a := by
  rw [Option.isSome_iff_exists]
  simp only [Authority.parseAuthority_iff]

theorem validatePseudo_first (s : HeaderStorage) (name value : Bytes) {P : Prop} {what : String} {check : Option String}
    (hkind : s.kind ≠ .hTrailers)
    (hrest : check = none ↔ P) :
    (if s.regularSeen = true ∨ s.kind = .hTrailers ∨ value = [] ∨ (s.findEntry name).isSome = true then
      some what else check) = none ↔
      s.regularSeen = false ∧ (s.findEntry name).isSome = false ∧ value ≠ [] ∧ P := by
  split
  · next hfirst =>
    refine ⟨(nomatch ·), fun ⟨hseen, hnone, hvalue, _⟩ => ?_⟩
    rw [hseen, hnone] at hfirst
    obtain h | h | h | h := hfirst
    · cases h
    · exact absurd h hkind
    · exact absurd h hvalue
    · cases h
  · next hfirst =>
    simp only [not_or, Bool.not_eq_true] at hfirst
    obtain ⟨hseen, -, hvalue, hnone⟩ := hfirst
    rw [hrest]
    exact ⟨fun h => ⟨hseen, hnone, hvalue, h⟩, fun h => h.2.2.2⟩

theorem validatePseudo_response (s : HeaderStorage) (hk : s.kind = .hResponse) (name value : Bytes) :
    s.validatePseudo makeAddressV6 name value = none ↔
      s.regularSeen = false ∧ (s.findEntry name).isSome = false ∧
        HeaderRules.PseudoOk makeAddressV6 .hResponse ⟨name, value⟩ := by
  rw [validatePseudo]
  apply validatePseudo_first s name value (by rw [hk]; exact nofun)
  rw [if_pos hk]
  split
  next hbad =>
    refine ⟨(nomatch ·), fun ⟨hname, hlength, hdigits, hzero, hswitch⟩ => ?_⟩
    obtain h | h | h | h | h := hbad
    · exact absurd hname h
    · exact absurd hlength h
    · exact absurd h ((all_digits value).2 hdigits)
    · exact absurd h hzero
    · exact absurd h hswitch
  next hgood =>
    simp only [not_or, not_not] at hgood
    obtain ⟨hname, hlength, hdigits, hzero, hswitch⟩ := hgood
    exact ⟨fun _ => ⟨hname, hlength, (all_digits value).1 hdigits, hzero, hswitch⟩, fun _ => rfl⟩

theorem path_iff (value : Bytes) :
    ((35 : UInt8) ∉ value ∧ value.all (fun c => decide (0x20 < c ∧ c ≠ 0x7f)) = true) ↔
      ∀ c ∈ value, c ≠ 35 ∧ 0x20 < c ∧ c ≠ 0x7f := by
  rw [List.all_eq_true]
  constructor
  · intro ⟨hhash, hall⟩ c hc
    exact ⟨fun h => hhash (h ▸ hc), of_decide_eq_true (hall c hc)⟩
  · intro h
    exact ⟨fun hhash => (h 35 hhash).1 rfl, fun c hc => decide_eq_true (h c hc).2⟩

theorem validatePseudo_request (s : HeaderStorage) (hk : s.kind = .hRequest) (name value : Bytes) :
    s.validatePseudo makeAddressV6 name value = none ↔
      s.regularSeen = false ∧ (s.findEntry name).isSome = false ∧
        HeaderRules.PseudoOk makeAddressV6 .hRequest ⟨name, value⟩ := by
  rw [validatePseudo]
  apply validatePseudo_first s name value (by rw [hk]; exact nofun)
  rw [if_neg (by rw [hk]; exact nofun)]
  split
  next h => exact ⟨fun _ => .inl h, fun _ => rfl⟩
  next hmethod =>
    split
    next h => exact ⟨fun _ => .inr (.inl h), fun _ => rfl⟩
    next hscheme =>
      split
      next h =>
        exact ⟨fun _ => .inr (.inr (.inl ⟨h.1, (authority_isSome _ _).1 h.2⟩)), fun _ => rfl⟩
      next hauthority =>
        split
        next h => exact ⟨fun _ => .inr (.inr (.inr ⟨h.1, (path_iff _).1 h.2⟩)), fun _ => rfl⟩
        next hpath =>
          refine ⟨(nomatch ·), fun h => ?_⟩
          obtain h | h | h | h := h
          · exact absurd h hmethod
          · exact absurd h hscheme
          · exact absurd ⟨h.1, (authority_isSome _ _).2 h.2⟩ hauthority
          · exact absurd ⟨h.1, (path_iff _).2 h.2⟩ hpath

theorem validatePseudo_iff (s : HeaderStorage) (name value : Bytes) :
    s.validatePseudo makeAddressV6 name value = none ↔
      s.regularSeen = false ∧ (s.findEntry name).isSome = false ∧
        HeaderRules.PseudoOk makeAddressV6 s.kind ⟨name, value⟩ := by
  cases hk : s.kind with
  | hRequest => exact validatePseudo_request s hk name value
  | hResponse => exact validatePseudo_response s hk name value
  | hTrailers =>
    rw [validatePseudo, hk, if_pos (.inr (.inl rfl))]
    exact ⟨(nomatch ·), fun h => h.2.2.2.elim⟩

theorem validateRegular_iff (s : HeaderStorage) (name value : Bytes) :
    s.validateRegular makeAddressV6 name value = none ↔
      HeaderRules.RegularOk makeAddressV6 s.kind ⟨name, value⟩ ∧
        (name = Hical.bytes "content-length" → s.contentLength.isSome = false) ∧
        (s.kind = .hRequest → name = Hical.bytes "host" → (s.findEntry name).isSome = false) := by
  rw [validateRegular]
  split
  next h => exact ⟨(nomatch ·), fun hok => absurd h hok.1.connection⟩
  next hconnection =>
    split
    next h =>
      refine ⟨(nomatch ·), fun hok => ?_⟩
      obtain ⟨hif, hforbidden⟩ := hok.1.trailer h.1
      exact (h.2.elim hif hforbidden).elim
    next htrailer =>
      split
      next h =>
        refine ⟨(nomatch ·), fun hok => ?_⟩
        obtain ⟨hkind, hvalue⟩ := hok.1.te h.1
        obtain h | h := h.2
        · exact absurd hkind h
        · rw [show iequals value _ = true from hvalue] at h
          cases h
      next hte =>
        split
        next h =>
          refine ⟨(nomatch ·), fun hok => ?_⟩
          obtain ⟨n, hn⟩ := hok.1.length h.1
          obtain hsome | hnone := h.2
          · rw [hok.2.1 h.1] at hsome
            cases hsome
          · rw [show unsignedDecimal value = some n from hn] at hnone
            cases hnone
        next hlength =>
          split
          next h =>
            refine ⟨(nomatch ·), fun hok => ?_⟩
            obtain hsome | hnone := h.2.2
            · rw [hok.2.2 h.1 h.2.1] at hsome
              cases hsome
            · have hparsed := (authority_isSome makeAddressV6 value).2 (hok.1.host h.1 h.2.1)
              rw [← Option.not_isSome, hparsed] at hnone
              cases hnone
          next hhost =>
            refine ⟨fun _ => ⟨⟨hconnection, ?_, ?_, ?_, ?_⟩, ?_, ?_⟩, fun _ => rfl⟩
            · intro hk
              exact not_or.1 fun h => htrailer ⟨hk, h⟩
            · intro hn
              have h := not_or.1 fun h => hte ⟨hn, h⟩
              exact ⟨not_not.1 h.1, eq_true_of_ne_false h.2⟩
            · intro hn
              have h := not_or.1 fun h => hlength ⟨hn, h⟩
              rw [Option.isNone_iff_eq_none] at h
              exact Option.ne_none_iff_exists'.1 h.2
            · intro hk hn
              have h := not_or.1 fun h => hhost ⟨hk, hn, h⟩
              rw [← Option.not_isSome, Bool.not_eq_true', Bool.not_eq_false] at h
              exact (authority_isSome _ _).1 h.2
            · intro hn
              have h := not_or.1 fun h => hlength ⟨hn, h⟩
              exact Bool.eq_false_iff.2 h.1
            · intro hk hn
              have h := not_or.1 fun h => hhost ⟨hk, hn, h⟩
              exact Bool.eq_false_iff.2 h.1

theorem overBudget_iff (s : HeaderStorage) (name value : Bytes) :
    ¬s.overBudget name value ↔
      s.decodedFields < s.maxFields ∧ s.decodedBytes + fieldSize name value ≤ s.maxBytes := by
  rw [overBudget, fieldSize, kHeaderFieldOverheadBytes]
  omega

theorem fail_isError (s : HeaderStorage) (message : String) (resource : Bool) :
    (s.fail message resource).2.isError = true := by
  rw [fail]
  dsimp only
  split
  · assumption
  · cases resource <;> rfl

theorem isPseudo_contentLength : isPseudo (Hical.bytes "content-length") = false := by decide

theorem isPseudo_host : isPseudo (Hical.bytes "host") = false := by decide

/-- The checks of one field are the rules for it behind the fields that were taken. -/
theorem allows_iff (h : Holds options s fs) (f : Field) :
    Allows makeAddressV6 s.kind options fs f ↔
      ¬s.overBudget f.name f.value ∧
        ¬(token (if isPseudo f.name then f.name.tail else f.name) true = false ∨
          validValue f.value = false) ∧
        (if isPseudo f.name then s.validatePseudo makeAddressV6 f.name f.value
          else s.validateRegular makeAddressV6 f.name f.value) = none := by
  rw [overBudget_iff, h.counted, h.spent, h.maxFields, h.maxBytes, not_or, Bool.not_eq_false,
    Bool.not_eq_false]
  cases hp : isPseudo f.name with
  | true =>
    rw [if_pos rfl, if_pos rfl, validatePseudo_iff, seen_iff h, none_named h]
    constructor
    · intro ha
      refine ⟨⟨ha.count, ha.size⟩, ⟨?_, ha.value⟩, ha.pseudoFirst hp, ha.pseudoOnce hp, ha.pseudoOk hp⟩
      have hname := ha.name
      rw [hp] at hname
      exact hname
    · rintro ⟨⟨hcount, hsize⟩, ⟨hname, hvalue⟩, hfirst, honce, hok⟩
      refine ⟨hcount, hsize, ?_, hvalue, fun _ => hfirst, fun _ => honce, fun _ => hok, ?_, ?_, ?_⟩
      · rw [hp]
        exact hname
      · intro hn
        rw [hp] at hn
        cases hn
      · intro hn
        rw [hn, isPseudo_contentLength] at hp
        cases hp
      · intro _ hn
        rw [hn, isPseudo_host] at hp
        cases hp
  | false =>
    rw [if_neg Bool.false_ne_true, if_neg Bool.false_ne_true, validateRegular_iff]
    have hlength : s.contentLength.isSome = false ↔
        ∀ g ∈ fs, g.name ≠ Hical.bytes "content-length" := by
      rw [h.length, ← Bool.not_eq_true]
      exact not_any_name fs _
    constructor
    · intro ha
      refine ⟨⟨ha.count, ha.size⟩, ⟨?_, ha.value⟩, ha.regularOk hp, ?_, ?_⟩
      · have hname := ha.name
        rw [hp] at hname
        exact hname
      · intro hn
        exact hlength.2 (ha.lengthOnce hn)
      · intro hk hn
        rw [none_named h, hn]
        exact ha.hostOnce hk hn
    · rintro ⟨⟨hcount, hsize⟩, ⟨hname, hvalue⟩, hok, hlen, hhost⟩
      refine ⟨hcount, hsize, ?_, hvalue, ?_, ?_, ?_, fun _ => hok, ?_, ?_⟩
      · rw [hp]
        exact hname
      · intro hn
        rw [hp] at hn
        cases hn
      · intro hn
        rw [hp] at hn
        cases hn
      · intro hn
        rw [hp] at hn
        cases hn
      · intro hn
        exact hlength.1 (hlen hn)
      · intro hk hn
        have := hhost hk hn
        rw [none_named h, hn] at this
        exact this

theorem field_push (s : HeaderStorage) (name value : Bytes) (entry : Offset)
    (h : Within s.bytes entry) : (s.push name value).field entry = s.field entry := by
  rw [field, field, push, List.append_assoc, h.1.text_append, h.2.text_append]

theorem table_push {s : HeaderStorage} (h : ∀ entry ∈ s.entries, Within s.bytes entry) (name value : Bytes) :
    (s.push name value).table = s.table ++ [⟨name, value⟩] := by
  have hold : s.entries.map (s.push name value).field = s.table :=
    List.map_congr_left fun entry he => field_push s name value entry (h entry he)
  rw [table]
  change (s.entries ++ [_]).map (s.push name value).field = _
  rw [List.map_append, hold, List.map_singleton, field]
  congr 3
  · exact ((Spans.next_within s.bytes name).text_append value).trans (Spans.next_text s.bytes name)
  · exact Spans.next_text (s.bytes ++ name) value

theorem within_push {s : HeaderStorage} (h : ∀ entry ∈ s.entries, Within s.bytes entry) (name value : Bytes) :
    ∀ entry ∈ (s.push name value).entries, Within (s.push name value).bytes entry := by
  intro entry he
  change entry ∈ s.entries ++ [_] at he
  change Within (s.bytes ++ name ++ value) entry
  cases List.mem_append.1 he with
  | inl he =>
    obtain ⟨hname, hvalue⟩ := h entry he
    exact ⟨(hname.append name).append value, (hvalue.append name).append value⟩
  | inr he =>
    rw [List.mem_singleton.1 he]
    exact ⟨(Spans.next_within s.bytes name).append value, Spans.next_within (s.bytes ++ name) value⟩

theorem Holds.push (h : Holds options s fs) {f : Field}
    (ha : Allows makeAddressV6 s.kind options fs f) :
    Holds options (s.push f.name f.value) (fs ++ [f]) where
  table := by rw [table_push h.within, h.table]
  within := within_push h.within f.name f.value
  maxFields := h.maxFields
  maxBytes := h.maxBytes
  counted := by
    rw [List.length_append, List.length_singleton, ← h.counted]
    rfl
  spent := by
    rw [List.map_append, List.sum_append, ← h.spent, List.map_singleton, List.sum_singleton]
    rfl
  seen := by
    rw [List.any_append, ← h.seen, List.any_cons, List.any_nil, Bool.or_false]
    rfl
  length := by
    rw [List.any_append, ← h.length, List.any_cons, List.any_nil, Bool.or_false]
    change Option.isSome (if f.name = _ then _ else _) = _
    split
    next hn =>
      have hp : isPseudo f.name = false := by
        rw [hn]
        exact isPseudo_contentLength
      obtain ⟨n, hvalue⟩ := (ha.regularOk hp).length hn
      rw [hvalue, hn]
      simp
    next hn =>
      rw [show (f.name == Hical.bytes "content-length") = false from beq_false_of_ne hn,
        Bool.or_false]
  unsealed := h.unsealed
  unfailed := h.unfailed

theorem append_spec (h : Holds options s fs) (f : Field) :
    (Allows makeAddressV6 s.kind options fs f ∧
      s.append makeAddressV6 f.name f.value = (s.push f.name f.value, {})) ∨
    (¬Allows makeAddressV6 s.kind options fs f ∧
      (s.append makeAddressV6 f.name f.value).2.isError = true) := by
  rw [allows_iff h, append, h.unsealed, h.unfailed, if_neg Bool.false_ne_true,
    if_neg Bool.false_ne_true]
  by_cases hbudget : s.overBudget f.name f.value
  · rw [if_pos hbudget]
    exact .inr ⟨fun ha => ha.1 hbudget, fail_isError _ _ _⟩
  · rw [if_neg hbudget]
    by_cases hformat : token (if isPseudo f.name then f.name.tail else f.name) true = false ∨
        validValue f.value = false
    · rw [if_pos hformat]
      exact .inr ⟨fun ha => ha.2.1 hformat, fail_isError _ _ _⟩
    · rw [if_neg hformat]
      cases hcheck : (if isPseudo f.name then s.validatePseudo makeAddressV6 f.name f.value
          else s.validateRegular makeAddressV6 f.name f.value) with
      | some message => exact .inr ⟨(nomatch ·.2.2), fail_isError _ _ _⟩
      | none => exact .inl ⟨⟨hbudget, hformat, rfl⟩, rfl⟩

theorem appendAll_spec {kind : HeaderKind} (h : Holds options s fs) (hk : s.kind = kind)
    (hrules : Rules makeAddressV6 kind options fs) (gs : Fields) :
    ((∀ e ∈ (s.appendAll makeAddressV6 gs).2, e.isError = false) ↔
        Rules makeAddressV6 kind options (fs ++ gs)) ∧
      ((∀ e ∈ (s.appendAll makeAddressV6 gs).2, e.isError = false) →
        Holds options (s.appendAll makeAddressV6 gs).1 (fs ++ gs) ∧
          (s.appendAll makeAddressV6 gs).1.kind = kind) := by
  induction gs generalizing s fs with
  | nil =>
    rw [List.append_nil]
    exact ⟨⟨fun _ => hrules, fun _ e he => absurd he List.not_mem_nil⟩, fun _ => ⟨h, hk⟩⟩
  | cons f gs ih =>
    rw [List.append_cons, appendAll]
    dsimp only
    rw [List.forall_mem_cons]
    obtain ⟨hallows, happend⟩ | ⟨hallows, herror⟩ := append_spec h f
    · rw [hk] at hallows
      have hrules' := (rules_snoc kind options fs f).2 ⟨hrules, hallows⟩
      obtain ⟨hiff, hholds⟩ := ih (h.push (hk ▸ hallows)) hk hrules'
      rw [happend]
      refine ⟨⟨fun hok => hiff.1 hok.2, fun hr => ⟨rfl, hiff.2 hr⟩⟩, fun hok => hholds hok.2⟩
    · refine ⟨⟨fun hok => ?_, fun hr => ?_⟩, fun hok => ?_⟩
      · rw [hok.1] at herror
        cases herror
      · have hallowed := ((rules_snoc kind options fs f).1 hr.front).2
        exact absurd (hk ▸ hallowed) hallows
      · rw [hok.1] at herror
        cases herror

theorem parsed_authority (hrules : Rules makeAddressV6 .hRequest options fs)
    (h : valueOf fs (Hical.bytes ":authority") ≠ []) :
    ∃ a, Authority.IsAuthority makeAddressV6 (valueOf fs (Hical.bytes ":authority")) a := by
  obtain ⟨f, hf, hname, hvalue⟩ := valueOf_field h
  have hpseudo : isPseudo f.name = true := by
    rw [hname]
    decide
  rw [← hvalue]
  obtain ⟨-, hok⟩ := hrules.pseudoOk f hf hpseudo
  dsimp only at hok
  rw [hname] at hok
  obtain hok | hok | hok | hok := hok
  · exact absurd hok.1 (by decide)
  · exact absurd hok.1 (by decide)
  · exact hok.2
  · exact absurd hok.1 (by decide)

theorem parsed_host (hrules : Rules makeAddressV6 .hRequest options fs)
    (h : valueOf fs (Hical.bytes "host") ≠ []) :
    ∃ a, Authority.IsAuthority makeAddressV6 (valueOf fs (Hical.bytes "host")) a := by
  obtain ⟨f, hf, hname, hvalue⟩ := valueOf_field h
  have hpseudo : isPseudo f.name = false := by
    rw [hname]
    decide
  rw [← hvalue]
  exact (hrules.regularOk f hf hpseudo).host rfl hname

theorem validateRequest_iff (s : HeaderStorage)
    (hrules : Rules makeAddressV6 .hRequest options s.table) :
    s.validateRequest makeAddressV6 = none ↔ HeaderRules.RequestComplete makeAddressV6 s.table := by
  have hauthority := parsed_authority hrules
  have hhost := parsed_host hrules
  have hcomplete : HeaderRules.RequestComplete makeAddressV6 s.table ↔ _ :=
    ⟨fun h => And.intro h.method (And.intro h.connect (And.intro h.ordinary
      (And.intro h.http h.target))), fun h => ⟨h.1, h.2.1, h.2.2.1, h.2.2.2.1, h.2.2.2.2⟩⟩
  rw [hcomplete, validateRequest]
  simp only [value_eq]
  generalize valueOf s.table (Hical.bytes ":method") = method at *
  generalize valueOf s.table (Hical.bytes ":scheme") = scheme at *
  generalize valueOf s.table (Hical.bytes ":path") = path at *
  generalize valueOf s.table (Hical.bytes ":authority") = authority at *
  generalize valueOf s.table (Hical.bytes "host") = host at *
  clear hcomplete
  by_cases hpseudo : method = [] ∨ (method = Hical.bytes "CONNECT" ∧
      (authority = [] ∨ scheme ≠ [] ∨ path ≠ [])) ∨
      (¬method = Hical.bytes "CONNECT" ∧ (scheme = [] ∨ path = []))
  · rw [if_pos hpseudo]
    refine ⟨(nomatch ·), fun ⟨hmethod, hconnect, hordinary, _⟩ => ?_⟩
    obtain h | ⟨h, hrest⟩ | ⟨h, hrest⟩ := hpseudo
    · exact absurd h hmethod
    · obtain ⟨hscheme, hpath, a, port, ha, hport⟩ := hconnect h
      obtain hrest | hrest | hrest := hrest
      · rw [hrest, ← Authority.parseAuthority_iff] at ha
        cases ha
      · exact absurd hscheme hrest
      · exact absurd hpath hrest
    · obtain ⟨hscheme, hpath⟩ := hordinary h
      exact hrest.elim (absurd · hscheme) (absurd · hpath)
  · rw [if_neg hpseudo]
    rw [not_or, not_or, not_and, not_and, not_or, not_or, not_or, not_not, not_not] at hpseudo
    obtain ⟨hmethod, hconnect, hordinary⟩ := hpseudo
    by_cases hhttp : ¬method = Hical.bytes "CONNECT" ∧
        (iequals scheme (Hical.bytes "http") = true ∨ iequals scheme (Hical.bytes "https") = true) ∧
        ((authority = [] ∧ host = []) ∨ (path.head? ≠ some slash ∧
          ¬(method = Hical.bytes "OPTIONS" ∧ path = Hical.bytes "*")))
    · rw [if_pos hhttp]
      refine ⟨(nomatch ·), fun ⟨_, _, _, hrule, _⟩ => ?_⟩
      obtain ⟨htarget, hpath⟩ := hrule hhttp.1 hhttp.2.1
      obtain h | h := hhttp.2.2
      · exact htarget.elim (absurd h.1) (absurd h.2)
      · exact hpath.elim (absurd · h.1) (absurd · h.2)
    · rw [if_neg hhttp]
      by_cases hport : method = Hical.bytes "CONNECT" ∧
          ((Authority.parseAuthority makeAddressV6 authority).bind Authority.port).isNone = true
      · rw [if_pos hport]
        refine ⟨(nomatch ·), fun ⟨_, hrule, _⟩ => ?_⟩
        obtain ⟨-, -, a, port, ha, hgiven⟩ := hrule hport.1
        have hnone := hport.2
        rw [(Authority.parseAuthority_iff _ _ _).2 ha, Option.bind_some, hgiven] at hnone
        cases hnone
      · rw [if_neg hport]
        have hrest : (method ≠ [] ∧ (method = Hical.bytes "CONNECT" → scheme = [] ∧ path = [] ∧
            ∃ a port, Authority.IsAuthority makeAddressV6 authority a ∧ a.port = some port) ∧
            (method ≠ Hical.bytes "CONNECT" → scheme ≠ [] ∧ path ≠ []) ∧
            (method ≠ Hical.bytes "CONNECT" → (iequals scheme (Hical.bytes "http") = true ∨
              iequals scheme (Hical.bytes "https") = true) → (authority ≠ [] ∨ host ≠ []) ∧
              (path.head? = some slash ∨
                (method = Hical.bytes "OPTIONS" ∧ path = Hical.bytes "*")))) := by
          refine ⟨hmethod, fun hm => ?_, hordinary, fun hm hs => ?_⟩
          · obtain ⟨-, hscheme, hpath⟩ := hconnect hm
            refine ⟨hscheme, hpath, ?_⟩
            have hgiven := not_and.1 hport hm
            rw [← Option.not_isSome, Bool.not_eq_true', Bool.not_eq_false,
              Option.isSome_iff_exists] at hgiven
            obtain ⟨port, hgiven⟩ := hgiven
            obtain ⟨a, ha, hgiven⟩ := Option.bind_eq_some_iff.1 hgiven
            exact ⟨a, port, (Authority.parseAuthority_iff _ _ _).1 ha, hgiven⟩
          · have hrule := not_and.1 (not_and.1 hhttp hm) hs
            rw [not_or, not_and_or, not_and_or, not_not, not_not] at hrule
            exact hrule
        obtain ⟨h1, h2, h3, h4⟩ := hrest
        by_cases hboth : authority ≠ [] ∧ host ≠ []
        · obtain ⟨first, hfirst⟩ := hauthority hboth.1
          obtain ⟨second, hsecond⟩ := hhost hboth.2
          have hparsed := (Authority.parseAuthority_iff _ _ _).2 hfirst
          have hparsed' := (Authority.parseAuthority_iff _ _ _).2 hsecond
          rw [hparsed, hparsed']
          cases hsame : Authority.sameAuthority first second scheme with
          | false =>
            rw [if_pos ⟨hboth.1, hboth.2, hsame⟩]
            refine ⟨(nomatch ·), fun ⟨_, _, _, _, hrule⟩ => ?_⟩
            rw [hrule hboth.1 hboth.2 first second hfirst hsecond] at hsame
            cases hsame
          | true =>
            rw [if_neg fun h => Bool.noConfusion (hsame.symm.trans h.2.2)]
            refine ⟨fun _ => ⟨h1, h2, h3, h4, fun _ _ a b ha hb => ?_⟩, fun _ => rfl⟩
            rw [← Authority.parseAuthority_iff, hparsed] at ha
            rw [← Authority.parseAuthority_iff, hparsed'] at hb
            cases ha
            cases hb
            exact hsame
        · rw [if_neg fun h => hboth ⟨h.1, h.2.1⟩]
          exact ⟨fun _ => ⟨h1, h2, h3, h4, fun ha hh => absurd ⟨ha, hh⟩ hboth⟩, fun _ => rfl⟩

theorem validateComplete_state (makeAddressV6 : Bytes → Option Bytes) (s : HeaderStorage) :
    ∃ code, (s.validateComplete makeAddressV6).1 = { s with status := code } := by
  rw [validateComplete]
  split
  · split
    · exact ⟨s.status, rfl⟩
    · exact ⟨_, rfl⟩
  · exact ⟨s.status, rfl⟩
  · exact ⟨s.status, rfl⟩

theorem validateComplete_iff (h : Holds options s fs)
    (hrules : Rules makeAddressV6 s.kind options fs) :
    (s.validateComplete makeAddressV6).2 = none ↔ HeaderRules.Complete makeAddressV6 s.kind fs := by
  rw [validateComplete]
  cases hk : s.kind with
  | hTrailers => exact ⟨fun _ => trivial, fun _ => rfl⟩
  | hRequest =>
    rw [hk, ← h.table] at hrules
    rw [← h.table]
    exact validateRequest_iff s hrules
  | hResponse =>
    have hlength : s.contentLength.isSome = true ↔
        ¬∀ f ∈ fs, f.name ≠ Hical.bytes "content-length" := by
      rw [h.length, ← not_any_name, not_not]
    rw [value_eq, h.table, HeaderRules.Complete]
    cases hcode : unsignedDecimal (valueOf fs (Hical.bytes ":status")) with
    | none => exact ⟨(nomatch ·), fun ⟨code, hsome, _⟩ => nomatch hsome⟩
    | some code =>
      dsimp only
      by_cases hinfo : code / 100 = 1 ∧ s.contentLength.isSome = true
      · rw [if_pos hinfo]
        refine ⟨(nomatch ·), fun ⟨code', hsome, hnone⟩ => ?_⟩
        cases hsome
        exact absurd (hnone hinfo.1) (hlength.1 hinfo.2)
      · rw [if_neg hinfo]
        refine ⟨fun _ => ⟨code, rfl, fun hone => ?_⟩, fun _ => rfl⟩
        exact not_not.1 fun hnone => hinfo ⟨hone, hlength.2 hnone⟩

theorem close_spec (h : Holds options s fs) (hrules : Rules makeAddressV6 s.kind options fs) :
    (HeaderRules.Complete makeAddressV6 s.kind fs ∧
      ∃ code, s.close makeAddressV6 = (({ s with status := code } : HeaderStorage).finish, {})) ∨
    (¬HeaderRules.Complete makeAddressV6 s.kind fs ∧
      (s.close makeAddressV6).2.isError = true) := by
  have hopen : ¬(s.error.isError = true ∨ s.sealed = true) := by
    rw [h.unsealed, h.unfailed]
    exact not_or.2 ⟨Bool.false_ne_true, Bool.false_ne_true⟩
  obtain ⟨code, hstate⟩ := validateComplete_state makeAddressV6 s
  rw [← validateComplete_iff h hrules, close, if_neg hopen]
  generalize s.validateComplete makeAddressV6 = checked at hstate
  obtain ⟨after, message⟩ := checked
  cases message with
  | none =>
    refine .inl ⟨rfl, code, ?_⟩
    rw [← hstate]
  | some message => exact .inr ⟨(nomatch ·), fail_isError _ _ _⟩

end HeaderStorage

end Hical.Http2
