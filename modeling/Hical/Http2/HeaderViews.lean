import Hical.Http2.HeaderBlocks

/-! The fields of a sealed block, read through the positions that `combineCookies` writes anew. -/

namespace Hical.Http2

open Http2Headers (isPseudo isCookie fieldSize)

def BlockKind.role : BlockKind → HeaderKind
  | .hResponse => .hResponse
  | .hTrailers => .hTrailers

namespace HeaderStorage
open HeaderRules (Rules valueOf mergeCookies withHost)

variable {makeAddressV6 : Bytes → Option Bytes} {options : Http2Options}

def fieldIn (bytes : Bytes) (entry : Offset) : Field :=
  ⟨entry.name.text bytes, entry.value.text bytes⟩

theorem Within.append {whole : Bytes} {entry : Offset} (h : Within whole entry) (more : Bytes) :
    Within (whole ++ more) entry :=
  ⟨h.1.append more, h.2.append more⟩

theorem Within.fieldIn_append {whole : Bytes} {entry : Offset} (h : Within whole entry)
    (more : Bytes) : fieldIn (whole ++ more) entry = fieldIn whole entry := by
  rw [fieldIn, fieldIn, h.1.text_append, h.2.text_append]

theorem written_within (bytes name value : Bytes) :
    Within (bytes ++ name ++ value)
      ⟨Spans.next bytes name, Spans.next (bytes ++ name) value⟩ :=
  ⟨(Spans.next_within bytes name).append value, Spans.next_within (bytes ++ name) value⟩

theorem written_fieldIn (bytes name value : Bytes) :
    fieldIn (bytes ++ name ++ value)
      ⟨Spans.next bytes name, Spans.next (bytes ++ name) value⟩ = ⟨name, value⟩ := by
  rw [fieldIn]
  congr 1
  · exact ((Spans.next_within bytes name).text_append value).trans (Spans.next_text bytes name)
  · exact Spans.next_text (bytes ++ name) value

theorem intercalate_cons (sep part : Bytes) (parts : List Bytes) :
    sep.intercalate (part :: parts) = part ++ parts.flatMap (sep ++ ·) := by
  induction parts generalizing part with
  | nil => rw [List.intercalate_singleton, List.flatMap_nil, List.append_nil]
  | cons next parts ih =>
    rw [List.intercalate_cons_cons, ih, List.flatMap_cons]
    simp only [List.append_assoc]

theorem appendCookies_rest (s : HeaderStorage) (bytes : Bytes) (entries : List Offset) :
    s.appendCookies bytes false entries = bytes ++
      (((entries.map s.field).filter isCookie).map Field.value).flatMap (Hical.bytes "; " ++ ·) := by
  induction entries generalizing bytes with
  | nil => rw [appendCookies, List.map_nil, List.filter_nil, List.map_nil, List.flatMap_nil,
      List.append_nil]
  | cons entry entries ih =>
    rw [appendCookies, List.map_cons, List.filter_cons]
    split
    · rw [ih, if_neg Bool.false_ne_true, List.map_cons, List.flatMap_cons]
      simp only [List.append_assoc]
    · rw [ih]

theorem appendCookies_first (s : HeaderStorage) (bytes : Bytes) (entry : Offset)
    (entries : List Offset) (h : isCookie (s.field entry) = true) :
    s.appendCookies bytes true (entry :: entries) = bytes ++ (Hical.bytes "; ").intercalate
      ((s.field entry).value :: ((entries.map s.field).filter isCookie).map Field.value) := by
  rw [appendCookies, if_pos h, if_pos rfl, appendCookies_rest, intercalate_cons, List.append_assoc]

def writtenValue (s : HeaderStorage) (entry : Offset) (entries : List Offset) : Bytes :=
  if isCookie (s.field entry) then
    (Hical.bytes "; ").intercalate
      ((s.field entry).value :: ((entries.map s.field).filter isCookie).map Field.value)
  else (s.field entry).value

theorem normalize_kept (s : HeaderStorage) (bytes : Bytes) (combined : Bool) (entry : Offset)
    (entries : List Offset) (h : (isCookie (s.field entry) && combined) = false) :
    s.normalize bytes combined (entry :: entries) =
      let named := bytes ++ (s.field entry).name
      let value := s.writtenValue entry entries
      let rest := s.normalize (named ++ value) (combined || isCookie (s.field entry)) entries
      (rest.1, ⟨Spans.next bytes (s.field entry).name, Spans.next named value⟩ :: rest.2) := by
  have hwritten (named : Bytes) :
      (if isCookie (s.field entry) then s.appendCookies named true (entry :: entries)
        else named ++ (s.field entry).value) = named ++ s.writtenValue entry entries := by
    rw [writtenValue]
    split
    next hc => exact appendCookies_first s named entry entries hc
    · rfl
  rw [normalize, h, if_neg Bool.false_ne_true]
  dsimp only
  rw [hwritten, Spans.next, Spans.next, List.length_append, List.length_append, List.length_append,
    Nat.add_sub_cancel_left]

theorem normalize_spec (s : HeaderStorage) (bytes : Bytes) (combined : Bool)
    (entries : List Offset) :
    (∃ more, (s.normalize bytes combined entries).1 = bytes ++ more) ∧
    (∀ entry ∈ (s.normalize bytes combined entries).2,
      Within (s.normalize bytes combined entries).1 entry) ∧
    (s.normalize bytes combined entries).2.map (fieldIn (s.normalize bytes combined entries).1) =
      if combined then (entries.map s.field).filter (!isCookie ·)
      else mergeCookies (entries.map s.field) := by
  induction entries generalizing bytes combined with
  | nil =>
    refine ⟨⟨[], (List.append_nil _).symm⟩, fun _ h => absurd h List.not_mem_nil, ?_⟩
    cases combined <;> rfl
  | cons entry entries ih =>
    cases hcookie : isCookie (s.field entry) && combined with
    | true =>
      obtain ⟨hfield, hcombined⟩ := Bool.and_eq_true_iff.1 hcookie
      rw [normalize, hcookie, if_pos rfl, List.map_cons, List.filter_cons, hfield, hcombined]
      have hrest := ih bytes true
      rw [if_pos rfl] at hrest
      exact hrest
    | false =>
      rw [normalize_kept s bytes combined entry entries hcookie]
      dsimp only
      obtain ⟨⟨more, hmore⟩, hwithin, hmap⟩ := ih
        (bytes ++ (s.field entry).name ++ s.writtenValue entry entries)
        (combined || isCookie (s.field entry))
      have hfirst := written_within bytes (s.field entry).name (s.writtenValue entry entries)
      refine ⟨⟨_, hmore.trans (by rw [List.append_assoc, List.append_assoc])⟩, ?_, ?_⟩
      · rw [List.forall_mem_cons]
        refine ⟨?_, hwithin⟩
        rw [hmore]
        exact hfirst.append more
      · rw [List.map_cons, hmap, hmore, hfirst.fieldIn_append, written_fieldIn, List.map_cons,
          List.filter_cons, mergeCookies, writtenValue]
        cases hfield : isCookie (s.field entry) with
        | true =>
          rw [hfield, Bool.true_and] at hcookie
          rw [hcookie]
          rfl
        | false => cases combined <;> rfl

theorem combineCookies_spec (s : HeaderStorage)
    (h : ∀ entry ∈ s.entries, Within s.bytes entry) :
    (∀ entry ∈ s.combineCookies.entries, Within s.combineCookies.bytes entry) ∧
      s.combineCookies.kind = s.kind ∧
      s.combineCookies.table = if s.kind = .hRequest then mergeCookies s.table else s.table := by
  have hfound : s.findEntry cookie = s.table.findIdx? isCookie := by
    rw [table, List.findIdx?_map]
    rfl
  rw [combineCookies]
  by_cases hkind : s.kind = .hRequest
  · rw [if_neg (not_not.2 hkind), if_pos hkind]
    cases hfirst : s.findEntry cookie with
    | none =>
      rw [hfound] at hfirst
      exact ⟨h, rfl, (HeaderRules.mergeCookies_of_none hfirst).symm⟩
    | some firstCookie =>
      dsimp only
      split
      · obtain ⟨-, hwithin, hmap⟩ := normalize_spec s [] false s.entries
        exact ⟨hwithin, rfl, hmap⟩
      next hone =>
        rw [hfound] at hfirst
        refine ⟨h, rfl, (HeaderRules.mergeCookies_of_one hfirst ?_).symm⟩
        rw [table, ← List.map_drop, List.any_map]
        exact Bool.eq_false_iff.2 hone
  · rw [if_pos hkind, if_neg hkind]
    exact ⟨h, rfl, rfl⟩

/-- A field as `seal` shows it. -/
def shown (kind : HeaderKind) (authority : Bytes) (f : Field) : Field :=
  if kind = .hRequest ∧ f.name = Hical.bytes "host" ∧ authority ≠ [] then ⟨f.name, authority⟩ else f

theorem foldl_addView (s : HeaderStorage) (authority : Bytes) (entries : List Offset)
    (acc : Fields × Bool) :
    entries.foldl (s.addView authority) acc =
      (acc.1 ++ ((entries.map s.field).filter (!isPseudo ·.name)).map (shown s.kind authority),
        acc.2 || (decide (s.kind = .hRequest) &&
          ((entries.map s.field).filter (!isPseudo ·.name)).any (·.name == Hical.bytes "host"))) := by
  induction entries generalizing acc with
  | nil =>
    rw [List.foldl_nil, List.map_nil, List.filter_nil, List.map_nil, List.append_nil, List.any_nil,
      Bool.and_false, Bool.or_false]
  | cons entry entries ih =>
    rw [List.foldl_cons, ih, addView, List.map_cons, List.filter_cons]
    cases hp : isPseudo (s.field entry).name with
    | true => rfl
    | false =>
      rw [if_neg Bool.false_ne_true, if_pos (show (!false) = true from rfl), List.map_cons,
        List.any_cons]
      by_cases hhost : s.kind = .hRequest ∧ (s.field entry).name = Hical.bytes "host"
      · have hview : shown s.kind authority (s.field entry) =
            if authority ≠ [] then { s.field entry with value := authority } else s.field entry := by
          rw [shown]
          by_cases ha : authority ≠ []
          · rw [if_pos ha, if_pos ⟨hhost.1, hhost.2, ha⟩]
          · rw [if_neg ha, if_neg fun h => ha h.2.2]
        rw [if_pos hhost, hview, beq_iff_eq.2 hhost.2, Bool.true_or, Bool.true_or,
          decide_eq_true hhost.1, Bool.true_and, Bool.or_true]
        exact Prod.ext (List.append_cons _ _ _).symm rfl
      · have hview : shown s.kind authority (s.field entry) = s.field entry := by
          rw [shown, if_neg fun h => hhost ⟨h.1, h.2.1⟩]
        rw [if_neg hhost, hview]
        refine Prod.ext (List.append_cons _ _ _).symm ?_
        dsimp only
        by_cases hk : s.kind = .hRequest
        · rw [beq_false_of_ne fun hn => hhost ⟨hk, hn⟩, Bool.false_or]
        · rw [decide_eq_false hk, Bool.false_and, Bool.false_and]

theorem loop_views (s : HeaderStorage) (authority : Bytes) :
    s.entries.foldl (s.addView authority) ([], false) =
      ((s.table.filter (!isPseudo ·.name)).map (shown s.kind authority),
        decide (s.kind = .hRequest) &&
          (s.table.filter (!isPseudo ·.name)).any (·.name == Hical.bytes "host")) := by
  rw [foldl_addView, List.nil_append, Bool.false_or]
  rfl

theorem shown_host (authority : Bytes) (h : authority ≠ []) :
    shown .hRequest authority =
      fun f => if f.name = Hical.bytes "host" then ⟨f.name, authority⟩ else f := by
  funext f
  rw [shown]
  by_cases hn : f.name = Hical.bytes "host"
  · rw [if_pos ⟨rfl, hn, h⟩, if_pos hn]
  · rw [if_neg fun hc => hn hc.2.1, if_neg hn]

theorem shown_same {kind : HeaderKind} {authority : Bytes}
    (h : kind ≠ .hRequest ∨ authority = []) : shown kind authority = id := by
  funext f
  rw [shown, if_neg fun hc => h.elim (absurd hc.1) hc.2.2, id]

theorem finish_views (s : HeaderStorage) (h : ∀ entry ∈ s.entries, Within s.bytes entry) :
    s.finish.views = HeaderRules.normalized s.kind s.table ∧ s.finish.sealed = true := by
  obtain ⟨-, hkind, htable⟩ := combineCookies_spec s h
  refine ⟨?_, rfl⟩
  rw [finish]
  dsimp only
  rw [loop_views, value_eq, hkind, htable]
  by_cases hk : s.kind = .hRequest
  · rw [if_pos hk, hk, decide_eq_true rfl, Bool.true_and,
      HeaderRules.valueOf_mergeCookies (by decide), HeaderRules.normalized, withHost]
    by_cases hauthority : valueOf s.table (Hical.bytes ":authority") = []
    · rw [if_neg fun h => h.2.2 hauthority, if_pos hauthority, shown_same (.inr hauthority),
        List.map_id]
    · rw [if_neg hauthority, shown_host _ hauthority]
      cases hany : ((mergeCookies s.table).filter (!isPseudo ·.name)).any
          (·.name == Hical.bytes "host") with
      | true => rw [if_neg fun h => Bool.noConfusion h.2.1, if_pos rfl]
      | false =>
        rw [if_pos ⟨rfl, rfl, hauthority⟩, if_neg Bool.false_ne_true]
        have hnone := (not_any_name _ _).1 (Bool.eq_false_iff.1 hany)
        exact congrArg (· ++ _)
          ((List.map_congr_left fun f hf => if_neg (hnone f hf)).trans (List.map_id _))
  · rw [if_neg hk, if_neg fun h => hk h.1, shown_same (.inl hk), List.map_id]
    cases hkind' : s.kind with
    | hRequest => exact absurd hkind' hk
    | hResponse => rfl
    | hTrailers => rfl

theorem finish_fields (s : HeaderStorage) (h : ∀ entry ∈ s.entries, Within s.bytes entry) :
    s.finish.fields = HeaderRules.normalized s.kind s.table := by
  obtain ⟨hviews, hsealed⟩ := finish_views s h
  rw [fields, hsealed, if_pos rfl, hviews]

theorem appendAll_failed (s : HeaderStorage) (hopen : s.sealed = false)
    (hfailed : s.error.isError = true) (fs : Fields) : (s.appendAll makeAddressV6 fs).1 = s := by
  induction fs with
  | nil => rfl
  | cons f fs ih =>
    rw [appendAll, append, hopen, if_neg Bool.false_ne_true, if_pos hfailed]
    exact ih

theorem append_cases (makeAddressV6 : Bytes → Option Bytes) (s : HeaderStorage)
    (hopen : s.sealed = false) (hunfailed : s.error.isError = false) (name value : Bytes) :
    (∃ message resource, s.append makeAddressV6 name value = s.fail message resource) ∨
      s.append makeAddressV6 name value = (s.push name value, {}) := by
  rw [append, hopen, hunfailed, if_neg Bool.false_ne_true, if_neg Bool.false_ne_true]
  by_cases hbudget : s.overBudget name value
  · rw [if_pos hbudget]
    exact .inl ⟨_, _, rfl⟩
  · rw [if_neg hbudget]
    by_cases hformat : token (if isPseudo name then name.tail else name) true = false ∨
        validValue value = false
    · rw [if_pos hformat]
      exact .inl ⟨_, _, rfl⟩
    · rw [if_neg hformat]
      cases (if isPseudo name then s.validatePseudo makeAddressV6 name value
          else s.validateRegular makeAddressV6 name value) with
      | some message => exact .inl ⟨message, false, rfl⟩
      | none => exact .inr rfl

theorem appendAll_failing (makeAddressV6 : Bytes → Option Bytes) (s : HeaderStorage)
    (hopen : s.sealed = false) (hunfailed : s.error.isError = false) (fs : Fields)
    (h : (s.appendAll makeAddressV6 fs).1.error.isError = false) :
    ∀ e ∈ (s.appendAll makeAddressV6 fs).2, e.isError = false := by
  induction fs generalizing s with
  | nil => exact fun _ he => absurd he List.not_mem_nil
  | cons f fs ih =>
    rw [appendAll] at h ⊢
    obtain ⟨message, resource, happend⟩ | happend :=
      append_cases makeAddressV6 s hopen hunfailed f.name f.value
    · have hfailed := fail_isError s message resource
      rw [happend] at h
      rw [appendAll_failed (s.fail message resource).1 hopen hfailed] at h
      rw [show (s.fail message resource).1.error.isError = true from hfailed] at h
      cases h
    · rw [happend] at h ⊢
      rw [List.forall_mem_cons]
      exact ⟨rfl, ih (s.push f.name f.value) hopen hunfailed h⟩

theorem close_unfailed (s : HeaderStorage) (h : (s.close makeAddressV6).2.isError = false) :
    s.error.isError = false := by
  rw [close] at h
  split at h
  · exact h
  next hopen => exact Bool.eq_false_iff.2 (not_or.1 hopen).1

theorem close_iff (h : Holds options s fs) (hrules : Rules makeAddressV6 s.kind options fs) :
    ((s.close makeAddressV6).2.isError = false ↔ HeaderRules.Complete makeAddressV6 s.kind fs) ∧
      (HeaderRules.Complete makeAddressV6 s.kind fs →
        (s.close makeAddressV6).1.fields = HeaderRules.normalized s.kind fs) := by
  obtain ⟨hcomplete, code, hclose⟩ | ⟨hincomplete, herror⟩ := close_spec h hrules
  · rw [hclose]
    refine ⟨⟨fun _ => hcomplete, fun _ => rfl⟩, fun _ => ?_⟩
    rw [← h.table]
    exact finish_fields _ h.within
  · refine ⟨⟨fun hsealed => ?_, fun hcomplete => absurd hcomplete hincomplete⟩,
      fun hcomplete => absurd hcomplete hincomplete⟩
    rw [hsealed] at herror
    cases herror

theorem create_ok {kind : HeaderKind} {streamId : Int} (h : create kind streamId options = .ok s) :
    options.validationError = none ∧ s = new kind streamId options := by
  rw [create, Http2Options.validate] at h
  cases hvalid : options.validationError with
  | some error =>
    rw [hvalid] at h
    cases h
  | none =>
    rw [hvalid] at h
    change (if streamId ≤ 0 then Except.error _ else Except.ok _) = _ at h
    split at h
    · cases h
    · cases h
      exact ⟨rfl, rfl⟩

/-- A block is sealed when its list of fields is valid, and only then. Its fields are then those of
the list, normalized. -/
theorem sealed_iff_valid (makeAddressV6 : Bytes → Option Bytes) (kind : HeaderKind) (streamId : Int)
    (options : Http2Options) (s : HeaderStorage) (fs : Fields)
    (h : create kind streamId options = .ok s) :
    (((s.appendAll makeAddressV6 fs).1.close makeAddressV6).2.isError = false ↔
      HeaderRules.Valid makeAddressV6 kind options fs) ∧
    (HeaderRules.Valid makeAddressV6 kind options fs →
      (∀ e ∈ (s.appendAll makeAddressV6 fs).2, e.isError = false) ∧
      ((s.appendAll makeAddressV6 fs).1.close makeAddressV6).1.fields =
        HeaderRules.normalized kind fs ∧
      (HeaderRules.normalized kind fs).length ≤ kMaxHeaderFields) := by
  obtain ⟨hoptions, rfl⟩ := create_ok h
  have hnew : (new kind streamId options).kind = kind := rfl
  have hnil : Rules makeAddressV6 kind options [] := HeaderRules.rules_nil kind options
  have hspec := appendAll_spec (new_holds kind streamId options) hnew hnil fs
  have hfailing (hok : _) :=
    appendAll_failing makeAddressV6 (new kind streamId options) rfl rfl fs hok
  rw [List.nil_append] at hspec
  generalize (new kind streamId options).appendAll makeAddressV6 fs = taken at hspec hfailing ⊢
  obtain ⟨hrules, hholds⟩ := hspec
  have hclosed (hall : ∀ e ∈ taken.2, e.isError = false) := by
    obtain ⟨hs, hkind⟩ := hholds hall
    have hclose := close_iff hs (hkind ▸ hrules.1 hall)
    rw [hkind] at hclose
    exact hclose
  constructor
  · constructor
    · intro hsealed
      have hall := hfailing (close_unfailed _ hsealed)
      exact ⟨hrules.1 hall, (hclosed hall).1.1 hsealed⟩
    · intro hvalid
      exact (hclosed (hrules.2 hvalid.rules)).1.2 hvalid.complete
  · intro hvalid
    have hall := hrules.2 hvalid.rules
    have hcount := hvalid.rules.count
    have hmax := Http2Options.maxHeaderFields_le hoptions
    exact ⟨hall, (hclosed hall).2 hvalid.complete,
      Nat.le_trans (HeaderRules.length_normalized kind fs) (Nat.le_trans hcount hmax)⟩

/-- The table of positions is that of a block of fields, both still open. -/
structure Mirrors (h : Http2Headers) (s : HeaderStorage) : Prop where
  kind : s.kind = h.kind.role
  streamId : s.streamId = h.streamId
  maxFields : s.maxFields = h.maxFields
  maxBytes : s.maxBytes = h.maxBytes
  decodedFields : s.decodedFields = h.decodedFields
  decodedBytes : s.decodedBytes = h.decodedBytes
  table : s.table = h.entries
  within : ∀ entry ∈ s.entries, Within s.bytes entry
  contentLength : s.contentLength = h.contentLength
  status : s.status = h.status
  regularSeen : s.regularSeen = h.regularSeen
  unsealed : s.sealed = false ∧ h.sealed = false
  unfailed : s.error.isError = false

section Mirror
variable {makeAddressV6 : Bytes → Option Bytes} {h : Http2Headers} {s : HeaderStorage}

theorem mirrors_new (kind : BlockKind) (streamId : Int) (options : Http2Options) :
    Mirrors (Http2Headers.new kind streamId options) (new kind.role streamId options) :=
  ⟨rfl, rfl, rfl, rfl, rfl, rfl, rfl, nofun, rfl, rfl, rfl, ⟨rfl, rfl⟩, rfl⟩

theorem Mirrors.fail (m : Mirrors h s) (message : String) (resource : Bool) :
    (s.fail message resource).2 = h.fail message resource := by
  rw [HeaderStorage.fail, m.unfailed, if_neg Bool.false_ne_true, m.streamId]
  rfl

theorem Mirrors.find (m : Mirrors h s) (name : Bytes) : (s.findEntry name).isSome = (h.findEntry name).isSome := by
  rw [findEntry_isSome, m.table, Http2Headers.findEntry, Bool.eq_iff_iff, List.any_eq_true, List.find?_isSome]

theorem Mirrors.value (m : Mirrors h s) (name : Bytes) : s.value name = h.value name := by
  rw [value_eq, m.table]
  rfl

/-- What a check of the one gives as a message, that of the other throws. -/
def thrownIn (h : Http2Headers) : Option String → Except NetworkError Unit
  | none => .ok ()
  | some message => .error (h.fail message false)

theorem Mirrors.validatePseudo (m : Mirrors h s) (name value : Bytes) :
    h.validatePseudo name value = thrownIn h (s.validatePseudo makeAddressV6 name value) := by
  rw [Http2Headers.validatePseudo, HeaderStorage.validatePseudo, m.regularSeen, m.kind, m.find]
  cases h.kind with
  | hTrailers =>
    rw [if_pos (.inr (.inl rfl)), if_pos (.inr (.inl rfl))]
    rfl
  | hResponse =>
    have hrole : BlockKind.hResponse.role = .hTrailers ↔ BlockKind.hResponse = .hTrailers := by decide
    simp only [hrole]
    split
    · rfl
    · rw [if_pos (show BlockKind.hResponse.role = .hResponse from rfl)]
      split
      · rfl
      · rfl

theorem Mirrors.validateRegular (m : Mirrors h s) (name value : Bytes) :
    h.validateRegular name value = thrownIn h (s.validateRegular makeAddressV6 name value) := by
  have hrequest : h.kind.role ≠ .hRequest := by cases h.kind <;> decide
  have htrailers : h.kind.role = .hTrailers ↔ h.kind = .hTrailers := by cases h.kind <;> decide
  have hte : (name = Hical.bytes "te" ∧ (h.kind.role ≠ .hRequest ∨ iequals value (Hical.bytes "trailers") = false)) ↔
      name = Hical.bytes "te" := and_iff_left (.inl hrequest)
  rw [Http2Headers.validateRegular, HeaderStorage.validateRegular, m.kind, m.contentLength]
  simp only [htrailers, hte]
  split
  · rfl
  split
  · rfl
  split
  · rfl
  split
  · rfl
  · rw [if_neg fun hhost => hrequest hhost.1]
    rfl

theorem Mirrors.push (m : Mirrors h s) (name value : Bytes) : Mirrors (h.push name value) (s.push name value) where
  kind := m.kind
  streamId := m.streamId
  maxFields := m.maxFields
  maxBytes := m.maxBytes
  decodedFields := congrArg (· + 1) m.decodedFields
  decodedBytes := congrArg (· + fieldSize name value) m.decodedBytes
  table := by
    rw [table_push m.within, m.table]
    rfl
  within := within_push m.within name value
  contentLength := congrArg (fun length => if name = Hical.bytes "content-length" then unsignedDecimal value else length)
    m.contentLength
  status := m.status
  regularSeen := congrArg (· || !isPseudo name) m.regularSeen
  unsealed := m.unsealed
  unfailed := m.unfailed

theorem Mirrors.overBudget (m : Mirrors h s) (name value : Bytes) :
    s.overBudget name value ↔ h.overBudget name value = true := by
  rw [Http2Headers.overBudget, Bool.or_eq_true, decide_eq_true_iff, decide_eq_true_iff, HeaderStorage.overBudget, m.maxFields,
    m.maxBytes, m.decodedFields, m.decodedBytes, fieldSize]
  omega

theorem Mirrors.append (m : Mirrors h s) (name value : Bytes) :
    match h.append name value with
    | .ok h' => ∃ s', s.append makeAddressV6 name value = (s', {}) ∧ Mirrors h' s'
    | .error e => (s.append makeAddressV6 name value).2 = e := by
  have hvalid : h.validateField name value = thrownIn h (if isPseudo name then s.validatePseudo makeAddressV6 name value
      else s.validateRegular makeAddressV6 name value) := by
    rw [Http2Headers.validateField]
    split
    · exact m.validatePseudo name value
    · exact m.validateRegular name value
  rw [Http2Headers.append, HeaderStorage.append, m.unsealed.1, m.unsealed.2, m.unfailed, if_neg Bool.false_ne_true,
    if_neg Bool.false_ne_true, if_neg Bool.false_ne_true, hvalid]
  by_cases hbudget : s.overBudget name value
  · rw [if_pos hbudget, if_pos ((m.overBudget name value).1 hbudget)]
    exact m.fail _ true
  rw [if_neg hbudget, if_neg fun ho => hbudget ((m.overBudget name value).2 ho)]
  by_cases hformat : token (if isPseudo name then name.tail else name) true = false ∨ validValue value = false
  · rw [if_pos hformat, if_pos (by simpa using hformat)]
    exact m.fail _ false
  rw [if_neg hformat, if_neg (by simpa using hformat)]
  cases (if isPseudo name then s.validatePseudo makeAddressV6 name value
      else s.validateRegular makeAddressV6 name value) with
  | some message => exact m.fail message false
  | none => exact ⟨_, rfl, m.push name value⟩

theorem Mirrors.validateComplete (m : Mirrors h s) (makeAddressV6 : Bytes → Option Bytes) :
    match (s.validateComplete makeAddressV6).2 with
    | none => ∃ h', h.validateComplete = .ok h' ∧ h'.entries = h.entries
    | some message => h.validateComplete = .error (h.fail message false) := by
  rw [Http2Headers.validateComplete, HeaderStorage.validateComplete, m.kind, m.value, m.contentLength]
  cases h.kind with
  | hTrailers => exact ⟨h, rfl, rfl⟩
  | hResponse =>
    dsimp only [BlockKind.role]
    cases unsignedDecimal (h.value (Hical.bytes ":status")) with
    | none => rfl
    | some code =>
      dsimp only
      by_cases hinfo : code / 100 = 1 ∧ h.contentLength.isSome = true
      · rw [if_pos hinfo, if_pos hinfo]
        rfl
      · rw [if_neg hinfo, if_neg hinfo]
        exact ⟨_, rfl, rfl⟩

theorem Mirrors.close (m : Mirrors h s) :
    match h.complete with
    | .ok h' => ∃ s', s.close makeAddressV6 = (s', {}) ∧ s'.fields = h'.fields
    | .error e => (s.close makeAddressV6).2 = e := by
  have hopen : ¬(s.error.isError = true ∨ s.sealed = true) := by
    rw [m.unfailed, m.unsealed.1]
    exact not_or.2 ⟨Bool.false_ne_true, Bool.false_ne_true⟩
  have hfields (code : Nat) : ({ s with status := code } : HeaderStorage).finish.fields =
      h.entries.filter (!isPseudo ·.name) := by
    refine (finish_fields { s with status := code } m.within).trans ?_
    change HeaderRules.normalized s.kind s.table = _
    rw [m.kind, m.table]
    cases h.kind with
    | hResponse => rfl
    | hTrailers => rfl
  have hcheck := m.validateComplete makeAddressV6
  obtain ⟨code, hstate⟩ := validateComplete_state makeAddressV6 s
  rw [Http2Headers.complete, m.unsealed.2, if_neg Bool.false_ne_true, HeaderStorage.close, if_neg hopen]
  generalize s.validateComplete makeAddressV6 = checked at hcheck hstate
  obtain ⟨after, message⟩ := checked
  subst hstate
  cases message with
  | none =>
    obtain ⟨h', hcomplete, hentries⟩ := hcheck
    rw [hcomplete]
    exact ⟨_, rfl, (hfields code).trans (by rw [← hentries]; rfl)⟩
  | some message =>
    rw [show h.validateComplete = _ from hcheck]
    exact m.fail message false

end Mirror
def textField (name value : String) : Field := ⟨Hical.bytes name, Hical.bytes value⟩

/-- A request with two cookies and no `host`. -/
def twoCookies : Fields :=
  [textField ":method" "GET", textField ":scheme" "https", textField ":path" "/",
    textField ":authority" "example.com", textField "cookie" "a=1",
    textField "accept" "*/*", textField "cookie" "b=2"]

theorem sealed_iff_valid_twoCookies :
    (((new .hRequest 1 {}).appendAll (fun _ => none) twoCookies).1.close fun _ => none).1.fields =
      [textField "cookie" "a=1; b=2", textField "accept" "*/*",
        textField "host" "example.com"] := by
  have h := sealed_iff_valid (fun _ => none) .hRequest 1 {} (new .hRequest 1 {}) twoCookies rfl
  have hvalid := h.1.1 (by decide +kernel)
  exact (h.2 hvalid).2.1.trans (by decide +kernel)

/-- A response keeps its `cookie` fields apart. -/
theorem response_cookies_kept :
    let fs : Fields := [textField ":status" "200", textField "cookie" "a=1",
      textField "cookie" "b=2"]
    let sealed := ((new .hResponse 1 {}).appendAll (fun _ => none) fs).1.close fun _ => none
    sealed.2.isError = false ∧
      sealed.1.fields ≠ (HeaderRules.mergeCookies fs).filter (!isPseudo ·.name) := by
  decide +kernel

end HeaderStorage

end Hical.Http2
