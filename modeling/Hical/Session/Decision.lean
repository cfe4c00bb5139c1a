import Hical.Session.Serve

namespace Hical

section Codings

def elements (value : Bytes) : List Bytes := (value.splitOn comma).map (trimWith isBlank)

def codingName (e : Bytes) : Bytes := e.takeWhile fun b => !(isBlank b || b == 59)

def NamesChunked (e : Bytes) : Prop := iequals (codingName e) (bytes "chunked") = true

/-- A list of codings that no request may have: an empty element, no chunked at the end, chunked
before the end, or chunked with parameters. -/
def BadCodings (es : List Bytes) : Prop :=
  [] ∈ es ∨ (∀ e, es.getLast? = some e → ¬NamesChunked e) ∨ (∃ e ∈ es.dropLast, NamesChunked e) ∨
    ∃ e ∈ es, NamesChunked e ∧ codingName e ≠ e

theorem badCodings_single (e : Bytes) :
    BadCodings [e] ↔ e = [] ∨ ¬NamesChunked e ∨ codingName e ≠ e := by
  simp only [BadCodings, List.mem_singleton, List.getLast?_singleton, Option.some.injEq,
    List.dropLast_singleton, List.not_mem_nil, false_and, exists_false, false_or, exists_eq_left,
    forall_eq']
  constructor
  · rintro (h | h | ⟨-, h⟩)
    · exact .inl h.symm
    · exact .inr (.inl h)
    · exact .inr (.inr h)
  · rintro (h | h | h)
    · exact .inl h.symm
    · exact .inr (.inl h)
    · by_cases hn : NamesChunked e
      · exact .inr (.inr ⟨hn, h⟩)
      · exact .inr (.inl hn)

theorem badCodings_cons (e : Bytes) (hne : es ≠ []) :
    BadCodings (e :: es) ↔ e = [] ∨ NamesChunked e ∨ BadCodings es := by
  rw [BadCodings, BadCodings, List.dropLast_cons_of_ne_nil hne, List.getLast?_cons_of_ne_nil hne]
  simp only [List.mem_cons, exists_eq_or_imp]
  constructor
  · rintro ((h | h) | h | (h | h) | (⟨h, -⟩ | h))
    · exact .inl h.symm
    · exact .inr (.inr (.inl h))
    · exact .inr (.inr (.inr (.inl h)))
    · exact .inr (.inl h)
    · exact .inr (.inr (.inr (.inr (.inl h))))
    · exact .inr (.inl h)
    · exact .inr (.inr (.inr (.inr (.inr h))))
  · rintro (h | h | h | h | h | h)
    · exact .inl (.inl h.symm)
    · exact .inr (.inr (.inl (.inl h)))
    · exact .inl (.inr h)
    · exact .inr (.inl h)
    · exact .inr (.inr (.inl (.inr h)))
    · exact .inr (.inr (.inr (.inr h)))

/-- What the token loop says of the codings, behind others that were not supported or none. -/
structure CodingsVerdict (unsupported : Bool) (es : List Bytes) (status : HttpStatusCode) : Prop where
  bad : status = .hBadRequest ↔ BadCodings es
  notImplemented : status = .hNotImplemented ↔ ¬BadCodings es ∧ (unsupported = true ∨ 1 < es.length)
  ok : status = .hOk ↔ ¬BadCodings es ∧ unsupported = false ∧ ¬1 < es.length

theorem CodingsVerdict.of_bad (h : BadCodings es) : CodingsVerdict unsupported es .hBadRequest where
  bad := ⟨fun _ => h, fun _ => rfl⟩
  notImplemented := ⟨fun heq => (nomatch heq), fun hn => absurd h hn.1⟩
  ok := ⟨fun heq => (nomatch heq), fun hn => absurd h hn.1⟩

theorem CodingsVerdict.of_not_bad (h : ¬BadCodings es) (unsupported : Bool) :
    CodingsVerdict unsupported es
      (if unsupported = true ∨ 1 < es.length then .hNotImplemented else .hOk) := by
  split
  · next hu =>
    refine ⟨⟨fun heq => (nomatch heq), fun hb => absurd hb h⟩, ⟨fun _ => ⟨h, hu⟩, fun _ => rfl⟩,
      ⟨fun heq => (nomatch heq), ?_⟩⟩
    rintro ⟨-, hfalse, hone⟩
    rcases hu with htrue | hmore
    · rw [hfalse] at htrue
      cases htrue
    · exact absurd hmore hone
  · next hu =>
    obtain ⟨hfalse, hone⟩ := not_or.1 hu
    exact ⟨⟨fun heq => (nomatch heq), fun hb => absurd hb h⟩,
      ⟨fun heq => (nomatch heq), fun hn => absurd hn.2 hu⟩,
      ⟨fun _ => ⟨h, Bool.eq_false_iff.2 hfalse, hone⟩, fun _ => rfl⟩⟩

theorem validateCodings_verdict (unsupported : Bool) (value : Bytes) (rest : List Bytes) :
    CodingsVerdict unsupported ((value :: rest).map (trimWith isBlank))
      (validateCodings unsupported (value :: rest)) := by
  induction rest generalizing unsupported value with
  | nil =>
    rw [validateCodings, List.map_cons, List.map_nil]
    generalize trimWith isBlank value = token
    split
    · next hempty => exact .of_bad ((badCodings_single _).2 (.inl hempty))
    · next hempty =>
      split
      · next hnamed =>
        split
        · next hparams =>
          refine .of_bad ((badCodings_single _).2 (.inr (.inr ?_)))
          exact hparams.resolve_right (fun hne => hne rfl)
        · next hplain =>
          have hgood : ¬BadCodings [token] := by
            rw [badCodings_single]
            rintro (h | h | h)
            · exact hempty h
            · exact h hnamed
            · exact hplain (.inl h)
          have hverdict := CodingsVerdict.of_not_bad hgood unsupported
          simp only [List.length_singleton, Nat.lt_irrefl, or_false] at hverdict
          exact hverdict
      · next hnamed =>
        rw [if_pos rfl]
        exact .of_bad ((badCodings_single _).2 (.inr (.inl hnamed)))
  | cons next rest ih =>
    rw [validateCodings]
    have hrest : (next :: rest).map (trimWith isBlank) ≠ [] := List.cons_ne_nil _ _
    rw [List.map_cons]
    generalize trimWith isBlank value = token
    split
    · next hempty => exact .of_bad ((badCodings_cons _ hrest).2 (.inl hempty))
    · next hempty =>
      split
      · next hnamed =>
        rw [if_pos (.inr (List.cons_ne_nil _ _))]
        exact .of_bad ((badCodings_cons _ hrest).2 (.inr (.inl hnamed)))
      · next hnamed =>
        rw [if_neg (List.cons_ne_nil _ _)]
        have hverdict := ih true next
        have hsame : BadCodings (token :: (next :: rest).map (trimWith isBlank)) ↔
            BadCodings ((next :: rest).map (trimWith isBlank)) := by
          rw [badCodings_cons _ hrest]
          constructor
          · rintro (h | h | h)
            · exact absurd h hempty
            · exact absurd h hnamed
            · exact h
          · intro h
            exact .inr (.inr h)
        have hmore : 1 < (token :: (next :: rest).map (trimWith isBlank)).length := by
          simp only [List.length_cons, List.length_map]
          omega
        refine ⟨hverdict.bad.trans hsame.symm, ?_, ?_⟩
        · rw [hverdict.notImplemented, hsame]
          exact and_congr_right fun _ => ⟨fun _ => .inr hmore, fun _ => .inl rfl⟩
        · rw [hverdict.ok, hsame]
          refine and_congr_right fun _ => ⟨fun h => (nomatch h.1), fun h => absurd hmore h.2⟩

theorem validateTransferEncoding_verdict (value : Bytes) :
    CodingsVerdict false (elements value) (validateTransferEncoding value) := by
  rw [validateTransferEncoding, elements]
  cases hsplit : value.splitOn comma with
  | nil => exact absurd hsplit (List.splitOn_ne_nil comma value)
  | cons first rest => exact validateCodings_verdict false first rest

end Codings

section Scan

def valuesOf (field : Bytes) (headers : List PhrHeader) : List Bytes :=
  headers.filterMap fun h => if h.name.any (iequals · field) then some h.value else none

def contentLengths (headers : List PhrHeader) : List Bytes :=
  valuesOf (bytes "Content-Length") headers

def transferEncodings (headers : List PhrHeader) : List Bytes :=
  valuesOf (bytes "Transfer-Encoding") headers

/-- The header list cannot be framed without ambiguity. -/
structure PlainFraming (headers : List PhrHeader) : Prop where
  unfolded : ∀ h ∈ headers, h.name ≠ none
  decimal : ∀ v ∈ contentLengths headers, ∃ n, parseSize v = some n
  common : ∀ v ∈ contentLengths headers, ∀ v' ∈ contentLengths headers, parseSize v = parseSize v'
  single : (transferEncodings headers).length ≤ 1

/-- What the loop over the header fields has collected. -/
structure Scanned (headers : List PhrHeader) (s : HeadScan) : Prop where
  plain : s.invalidFraming = false ↔ PlainFraming headers
  hasLength : s.hasContentLength = true ↔ contentLengths headers ≠ []
  hasCodings : s.hasTransferEncoding = true ↔ transferEncodings headers ≠ []
  length : s.invalidFraming = false → ∀ v ∈ contentLengths headers, parseSize v = some s.contentLength
  status : s.transferEncodingStatus =
    match (transferEncodings headers).getLast? with
    | none => .hOk
    | some value => validateTransferEncoding value
  chunked : s.isChunked =
    match (transferEncodings headers).getLast? with
    | none => false
    | some value => validateTransferEncoding value == .hOk

variable {headers : List PhrHeader} {s : HeadScan} {h : PhrHeader}

theorem valuesOf_snoc (field : Bytes) (headers : List PhrHeader) (h : PhrHeader) :
    valuesOf field (headers ++ [h]) =
      valuesOf field headers ++ if h.name.any (iequals · field) then [h.value] else [] := by
  rw [valuesOf, List.filterMap_append]
  split
  · next hname => rw [List.filterMap_cons, if_pos hname, List.filterMap_nil, valuesOf]
  · next hname => rw [List.filterMap_cons, if_neg hname, List.filterMap_nil, valuesOf]

/-- A field that is neither a length nor a coding changes nothing about the framing. -/
theorem Scanned.other (hs : Scanned headers s) (hname : h.name = some name)
    (hlength : iequals name (bytes "Content-Length") = false)
    (hcoding : iequals name (bytes "Transfer-Encoding") = false) (s' : HeadScan)
    (h₁ : s'.invalidFraming = s.invalidFraming) (h₂ : s'.hasContentLength = s.hasContentLength)
    (h₃ : s'.hasTransferEncoding = s.hasTransferEncoding) (h₄ : s'.contentLength = s.contentLength)
    (h₅ : s'.transferEncodingStatus = s.transferEncodingStatus) (h₆ : s'.isChunked = s.isChunked) :
    Scanned (headers ++ [h]) s' := by
  have hcl : contentLengths (headers ++ [h]) = contentLengths headers := by
    rw [contentLengths, valuesOf_snoc, hname, Option.any_some, hlength, if_neg Bool.false_ne_true,
      List.append_nil, contentLengths]
  have hte : transferEncodings (headers ++ [h]) = transferEncodings headers := by
    rw [transferEncodings, valuesOf_snoc, hname, Option.any_some, hcoding, if_neg Bool.false_ne_true,
      List.append_nil, transferEncodings]
  have hplain : PlainFraming (headers ++ [h]) ↔ PlainFraming headers := by
    constructor
    · intro hp
      refine ⟨fun x hx => hp.unfolded x (List.mem_append_left _ hx), ?_, ?_, ?_⟩
      · exact hcl ▸ hp.decimal
      · exact hcl ▸ hp.common
      · exact hte ▸ hp.single
    · intro hp
      refine ⟨fun x hx => ?_, hcl ▸ hp.decimal, hcl ▸ hp.common, hte ▸ hp.single⟩
      rcases List.mem_append.1 hx with hx | hx
      · exact hp.unfolded x hx
      · obtain rfl := List.mem_singleton.1 hx
        rw [hname]
        exact Option.some_ne_none _
  refine ⟨?_, ?_, ?_, ?_, ?_, ?_⟩
  · rw [h₁, hplain]
    exact hs.plain
  · rw [h₂, hcl]
    exact hs.hasLength
  · rw [h₃, hte]
    exact hs.hasCodings
  · rw [h₁, hcl, h₄]
    exact hs.length
  · rw [h₅, hte]
    exact hs.status
  · rw [h₆, hte]
    exact hs.chunked

theorem Scanned.folded (hs : Scanned headers s) (hname : h.name = none) :
    Scanned (headers ++ [h]) { s with invalidFraming := true } := by
  have hcl : contentLengths (headers ++ [h]) = contentLengths headers := by
    rw [contentLengths, valuesOf_snoc, hname]
    exact List.append_nil _
  have hte : transferEncodings (headers ++ [h]) = transferEncodings headers := by
    rw [transferEncodings, valuesOf_snoc, hname]
    exact List.append_nil _
  refine ⟨⟨fun heq => (nomatch heq), fun hp => ?_⟩, ?_, ?_, fun heq => (nomatch heq), ?_, ?_⟩
  · exact absurd hname (hp.unfolded h (List.mem_append_right _ (List.mem_singleton_self _)))
  · rw [hcl]
    exact hs.hasLength
  · rw [hte]
    exact hs.hasCodings
  · rw [hte]
    exact hs.status
  · rw [hte]
    exact hs.chunked

theorem mem_snoc_named (hname : h.name = some name) (hold : ∀ x ∈ headers, x.name ≠ none) :
    ∀ x ∈ headers ++ [h], x.name ≠ none := by
  intro x hx
  rcases List.mem_append.1 hx with hx | hx
  · exact hold x hx
  · obtain rfl := List.mem_singleton.1 hx
    rw [hname]
    exact Option.some_ne_none _

theorem Scanned.contentLength (hs : Scanned headers s) (hname : h.name = some name)
    (hlength : iequals name (bytes "Content-Length") = true) :
    Scanned (headers ++ [h]) (s.contentLengthField h.value) := by
  have hcoding : iequals name (bytes "Transfer-Encoding") = false := iequals_other hlength (by decide)
  have hcl : contentLengths (headers ++ [h]) = contentLengths headers ++ [h.value] := by
    rw [contentLengths, valuesOf_snoc, hname, Option.any_some, hlength, if_pos rfl, contentLengths]
  have hte : transferEncodings (headers ++ [h]) = transferEncodings headers := by
    rw [transferEncodings, valuesOf_snoc, hname, Option.any_some, hcoding, if_neg Bool.false_ne_true,
      List.append_nil, transferEncodings]
  have hvalid : (s.contentLengthField h.value).invalidFraming = false ↔
      s.invalidFraming = false ∧ ∃ n, parseSize h.value = some n ∧
        (s.contentLengthField h.value).contentLength = n ∧
        ∀ v ∈ contentLengths headers, parseSize v = some n := by
    rw [HeadScan.contentLengthField]
    dsimp only
    rw [Bool.or_eq_false_iff, Bool.or_eq_false_iff, and_assoc]
    refine and_congr_right fun hold => ?_
    cases hparse : parseSize h.value with
    | none =>
      constructor
      · rintro ⟨hnone, -⟩
        cases hnone
      · rintro ⟨n, hn, -⟩
        cases hn
    | some n =>
      rw [Option.getD_some, Option.isNone_some, Bool.and_eq_false_iff, bne_eq_false_iff_eq]
      constructor
      · rintro ⟨-, hsame⟩
        refine ⟨n, rfl, rfl, fun v hv => ?_⟩
        rcases hsame with hnone | hsame
        · rw [Bool.eq_false_iff, ne_eq, hs.hasLength, not_not] at hnone
          rw [hnone] at hv
          cases hv
        · rw [hsame]
          exact hs.length hold v hv
      · rintro ⟨m, hm, -, hall⟩
        obtain rfl := Option.some.inj hm
        refine ⟨rfl, ?_⟩
        cases hcls : contentLengths headers with
        | nil =>
          refine .inl ?_
          rw [Bool.eq_false_iff, ne_eq, hs.hasLength, not_not]
          exact hcls
        | cons v _ =>
          have hv : v ∈ contentLengths headers := by
            rw [hcls]
            exact List.mem_cons_self
          exact .inr (Option.some.inj ((hall v hv).symm.trans (hs.length hold v hv)))
  refine ⟨?_, ?_, ?_, ?_, ?_, ?_⟩
  · rw [hvalid]
    constructor
    · rintro ⟨hold, n, hn, -, hall⟩
      have hplain := hs.plain.1 hold
      have hnew : ∀ v ∈ contentLengths (headers ++ [h]), parseSize v = some n := by
        intro v hv
        rw [hcl] at hv
        rcases List.mem_append.1 hv with hv | hv
        · exact hall v hv
        · rw [List.mem_singleton.1 hv]
          exact hn
      refine ⟨mem_snoc_named hname hplain.unfolded, fun v hv => ⟨n, hnew v hv⟩, ?_, ?_⟩
      · intro v hv v' hv'
        rw [hnew v hv, hnew v' hv']
      · rw [hte]
        exact hplain.single
    · intro hp
      have hin : h.value ∈ contentLengths (headers ++ [h]) := by
        rw [hcl]
        exact List.mem_append_right _ (List.mem_singleton_self _)
      have hold : ∀ v ∈ contentLengths headers, v ∈ contentLengths (headers ++ [h]) := by
        intro v hv
        rw [hcl]
        exact List.mem_append_left _ hv
      obtain ⟨n, hn⟩ := hp.decimal _ hin
      have hplain : PlainFraming headers :=
        ⟨fun x hx => hp.unfolded x (List.mem_append_left _ hx), fun v hv => hp.decimal v (hold v hv),
          fun v hv v' hv' => hp.common v (hold v hv) v' (hold v' hv'), hte ▸ hp.single⟩
      refine ⟨hs.plain.2 hplain, n, hn, ?_, fun v hv => ?_⟩
      · rw [HeadScan.contentLengthField, hn]
        rfl
      · rw [hp.common v (hold v hv) _ hin]
        exact hn
  · rw [hcl]
    exact ⟨fun _ => List.append_ne_nil_of_right_ne_nil _ (List.cons_ne_nil _ _), fun _ => rfl⟩
  · rw [hte]
    exact hs.hasCodings
  · intro hnew v hv
    obtain ⟨-, n, hn, hlen, hall⟩ := hvalid.1 hnew
    rw [hlen]
    rw [hcl] at hv
    rcases List.mem_append.1 hv with hv | hv
    · exact hall v hv
    · rw [List.mem_singleton.1 hv]
      exact hn
  · rw [hte]
    exact hs.status
  · rw [hte]
    exact hs.chunked

theorem Scanned.transferEncoding (hs : Scanned headers s) (hname : h.name = some name)
    (hcoding : iequals name (bytes "Transfer-Encoding") = true) :
    Scanned (headers ++ [h]) (s.transferEncodingField h.value) := by
  have hlength : iequals name (bytes "Content-Length") = false := iequals_other hcoding (by decide)
  have hcl : contentLengths (headers ++ [h]) = contentLengths headers := by
    rw [contentLengths, valuesOf_snoc, hname, Option.any_some, hlength, if_neg Bool.false_ne_true,
      List.append_nil, contentLengths]
  have hte : transferEncodings (headers ++ [h]) = transferEncodings headers ++ [h.value] := by
    rw [transferEncodings, valuesOf_snoc, hname, Option.any_some, hcoding, if_pos rfl,
      transferEncodings]
  have hvalid : (s.transferEncodingField h.value).invalidFraming = false ↔
      s.invalidFraming = false ∧ transferEncodings headers = [] := by
    rw [HeadScan.transferEncodingField]
    dsimp only
    rw [Bool.or_eq_false_iff]
    refine and_congr_right fun _ => ?_
    rw [Bool.eq_false_iff, ne_eq, hs.hasCodings, not_not]
  refine ⟨?_, ?_, ?_, ?_, ?_, ?_⟩
  · rw [hvalid]
    constructor
    · rintro ⟨hold, hnone⟩
      have hplain := hs.plain.1 hold
      refine ⟨mem_snoc_named hname hplain.unfolded, hcl ▸ hplain.decimal, hcl ▸ hplain.common, ?_⟩
      rw [hte, hnone]
      exact Nat.le_refl 1
    · intro hp
      have hsingle := hp.single
      rw [hte, List.length_append, List.length_singleton] at hsingle
      have hnone : transferEncodings headers = [] := List.eq_nil_of_length_eq_zero (by omega)
      refine ⟨hs.plain.2 ⟨fun x hx => hp.unfolded x (List.mem_append_left _ hx), hcl ▸ hp.decimal,
        hcl ▸ hp.common, ?_⟩, hnone⟩
      rw [hnone]
      exact Nat.zero_le _
  · rw [hcl]
    exact hs.hasLength
  · rw [hte]
    exact ⟨fun _ => List.append_ne_nil_of_right_ne_nil _ (List.cons_ne_nil _ _), fun _ => rfl⟩
  · intro hnew v hv
    rw [hcl] at hv
    exact hs.length (hvalid.1 hnew).1 v hv
  · rw [hte, List.getLast?_append_of_ne_nil _ (List.cons_ne_nil _ _), List.getLast?_singleton]
    rfl
  · rw [hte, List.getLast?_append_of_ne_nil _ (List.cons_ne_nil _ _), List.getLast?_singleton]
    rfl

theorem Scanned.add (hs : Scanned headers s) (h : PhrHeader) : Scanned (headers ++ [h]) (s.add h) := by
  rw [HeadScan.add]
  cases hname : h.name with
  | none => exact hs.folded hname
  | some name =>
    have hkeep : Scanned headers { s with headers := s.headers ++ [⟨name, h.value⟩] } :=
      ⟨hs.plain, hs.hasLength, hs.hasCodings, hs.length, hs.status, hs.chunked⟩
    dsimp only
    split
    · next hlength => exact hkeep.contentLength hname hlength
    · next hlength =>
      have hlength := Bool.eq_false_iff.2 hlength
      split
      · next hconnection =>
        have hcoding : iequals name (bytes "Transfer-Encoding") = false :=
          iequals_other hconnection (by decide)
        exact hkeep.other hname hlength hcoding _ rfl rfl rfl rfl rfl rfl
      · split
        · next hexpect =>
          have hcoding : iequals name (bytes "Transfer-Encoding") = false :=
            iequals_other hexpect (by decide)
          exact hkeep.other hname hlength hcoding _ rfl rfl rfl rfl rfl rfl
        · split
          · next hcoding => exact hkeep.transferEncoding hname hcoding
          · next hcoding =>
            exact hkeep.other hname hlength (Bool.eq_false_iff.2 hcoding) _ rfl rfl rfl rfl rfl rfl

end Scan

section Verdict
variable {υ : Type}

theorem Scanned.codings {headers : List PhrHeader} {s : HeadScan} (hs : Scanned headers s)
    (hsingle : (transferEncodings headers).length ≤ 1) :
    (transferEncodings headers = [] ∧ s.transferEncodingStatus = .hOk ∧ s.isChunked = false) ∨
      ∃ v, transferEncodings headers = [v] ∧
        CodingsVerdict false (elements v) s.transferEncodingStatus ∧
        s.isChunked = (s.transferEncodingStatus == .hOk) := by
  have hstatus := hs.status
  have hchunked := hs.chunked
  cases hte : transferEncodings headers with
  | nil =>
    rw [hte] at hstatus hchunked
    exact .inl ⟨rfl, hstatus, hchunked⟩
  | cons v rest =>
    cases rest with
    | nil =>
      rw [hte] at hstatus hchunked
      refine .inr ⟨v, rfl, ?_, ?_⟩
      · rw [hstatus]
        exact validateTransferEncoding_verdict v
      · rw [hstatus]
        exact hchunked
    | cons v' rest =>
      rw [hte] at hsingle
      simp only [List.length_cons] at hsingle
      omega

end Verdict

end Hical
