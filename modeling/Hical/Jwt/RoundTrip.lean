import Hical.Json.CompileTime
import Hical.Jwt.Token

namespace Hical
open Json

def Number.parsed : Number → Number
  | .uint64 n => if n.toNat < 2 ^ 63 then .int64 (.ofNat n.toNat) else .uint64 n
  | n => n

/-- `parse` undoes `serialize`. -/
def Undone (json : JsonLibrary) (v : Value) : Prop := json.parse (json.serialize v) = some (v.map Number.parsed)

section Claims

/-- The claims that `jwtSign` has to add. -/
def signClaims (opts : JwtAuthOptions) (now : Int64) : Members :=
  [(iatName, .number (.int64 (now / kTicksPerSecond))),
    (expName, .number (.int64 ((now + opts.tokenExpiry * kTicksPerSecond) / kTicksPerSecond)))] ++
    (if opts.issuer != [] then [(issName, .string opts.issuer)] else []) ++
    if opts.audience != [] then [(audName, .string opts.audience)] else []

def addedClaims (payload : Members) (opts : JwtAuthOptions) (now : Int64) : Members :=
  (signClaims opts now).filter fun m => (findMember m.1 payload).isNone

theorem addClaims_foldl (payload : Members) (claims added : Members) (hd : Distinct claims)
    (hnew : ∀ m ∈ claims, findMember m.1 added = none) :
    claims.foldl (fun full m => addClaim m.1 m.2 full) (payload ++ added) =
      payload ++ (added ++ claims.filter fun m => (findMember m.1 payload).isNone) := by
  induction claims generalizing added with
  | nil => rw [List.foldl_nil, List.filter_nil, List.append_nil]
  | cons m claims ih =>
    obtain ⟨name, v⟩ := m
    obtain ⟨hname, hd⟩ := List.nodup_cons.1 hd
    have hm : findMember name added = none := hnew _ (List.mem_cons_self ..)
    have hrest (m) (h : m ∈ claims) : findMember m.1 added = none := hnew m (List.mem_cons_of_mem _ h)
    rw [List.foldl_cons, addClaim, findMember_append, hm, Option.or_none]
    cases hfind : findMember name payload with
    | some w =>
      rw [Option.isSome_some, if_pos rfl, List.filter_cons_of_neg (by rw [hfind]; exact Bool.false_ne_true)]
      exact ih added hd hrest
    | none =>
      have hboth : name ∉ (payload ++ added).map (·.1) := by
        rw [List.map_append, List.mem_append, not_or]
        exact ⟨findMember_none_iff.1 hfind, findMember_none_iff.1 hm⟩
      rw [Option.isSome_none, if_neg Bool.false_ne_true, setMember_new _ _ _ hboth, List.append_assoc,
        List.filter_cons_of_pos (by rw [hfind]; rfl), ih (added ++ [(name, v)]) hd, List.append_assoc, List.singleton_append]
      intro m h
      rw [findMember_append, hrest m h, Option.none_or, findMember_none_iff, List.map_singleton, List.mem_singleton]
      rintro heq
      exact hname (List.mem_map.2 ⟨m, h, heq⟩)

theorem distinct_signClaims (opts : JwtAuthOptions) (now : Int64) : Distinct (signClaims opts now) := by
  rw [Distinct, signClaims]
  split <;> split <;> exact of_decide_eq_true rfl

theorem fullPayload_eq (payload : Members) (opts : JwtAuthOptions) (now : Int64) :
    fullPayload payload opts now = payload ++ addedClaims payload opts now := by
  have hfold := addClaims_foldl payload (signClaims opts now) [] (distinct_signClaims opts now) fun _ _ => rfl
  rw [List.append_nil, List.nil_append] at hfold
  rw [addedClaims, ← hfold, fullPayload, signClaims]
  split <;> split <;> rfl

end Claims

section Parsing

theorem findMember_map (f : Number → Number) (name : Bytes) (ms : Members) :
    findMember name (mapMembers f ms) = (findMember name ms).map (Json.Tree.map f) := by
  induction ms with
  | nil => rfl
  | cons m ms ih =>
    obtain ⟨k, x⟩ := m
    rw [mapMembers, findMember_cons, findMember_cons]
    split
    · rfl
    · exact ih

theorem audienceMatches_map (f : Number → Number) (audience : Bytes) (v : Value) :
    audienceMatches audience (v.map f) = audienceMatches audience v := by
  cases v with
  | array vs =>
    rw [Json.Tree.map, audienceMatches, audienceMatches, mapElements_eq, List.any_map]
    congr
    funext v
    cases v <;> rfl
  | _ => rfl

theorem segment_encode {json : JsonLibrary} {members : Members} (h : Undone json (.object members)) :
    Segment json (base64UrlEncode (json.serialize (.object members))) (mapMembers Number.parsed members) :=
  ⟨_, base64UrlDecode_encode _, h⟩

theorem dot_not_mem (data : Bytes) : 46 ∉ base64UrlEncode data := by
  have hdigit (step : Nat) (c : UInt8) (h : Digit step c) : c ≠ 46 := by
    obtain ⟨n, hn, -, rfl⟩ := h
    have hall : ∀ n < 64, urlChar n ≠ 46 := by decide +kernel
    exact hall n hn
  have hcanonical : Canonical (base64UrlEncode data) := (canonical_iff _).2 ⟨data, rfl⟩
  generalize base64UrlEncode data = s at hcanonical
  induction s using Canonical.induct with
  | case1 c0 c1 c2 c3 s ih =>
    obtain ⟨h0, h1, h2, h3, hs⟩ := hcanonical
    simp only [List.mem_cons, not_or]
    exact ⟨(hdigit _ _ h0).symm, (hdigit _ _ h1).symm, (hdigit _ _ h2).symm, (hdigit _ _ h3).symm, ih hs⟩
  | case2 c0 c1 c2 =>
    obtain ⟨h0, h1, h2⟩ := hcanonical
    simp only [List.mem_cons, not_or]
    exact ⟨(hdigit _ _ h0).symm, (hdigit _ _ h1).symm, (hdigit _ _ h2).symm, List.not_mem_nil⟩
  | case3 c0 c1 =>
    obtain ⟨h0, h1⟩ := hcanonical
    simp only [List.mem_cons, not_or]
    exact ⟨(hdigit _ _ h0).symm, (hdigit _ _ h1).symm, List.not_mem_nil⟩
  | case4 => exact hcanonical.elim
  | case5 => exact List.not_mem_nil

end Parsing

section Verifying
variable (json : JsonLibrary) (hmacSha256 : HmacSha256)

/-- A time claim that holds 64 bits and suits the clock. -/
def TimeMet (name : Bytes) (payload : Members) (suits : Int64 → Prop) : Prop :=
  ∀ v, findMember name payload = some v → ∃ n e, v = .number n ∧ n.parsed = .int64 e ∧ suits e

/-- The payload's own issuer and audience are those that the options ask for. -/
def OwnClaimsMet (payload : Members) (opts : JwtAuthOptions) : Prop :=
  (opts.issuer ≠ [] → ∀ v, findMember issName payload = some v → v = .string opts.issuer) ∧
    (opts.audience ≠ [] → ∀ v, findMember audName payload = some v → audienceMatches opts.audience v = true)

theorem timeMet_parsed {name : Bytes} {payload : Members} {suits : Int64 → Prop} (h : TimeMet name payload suits) :
    ∀ v, findMember name (mapMembers Number.parsed payload) = some v → ∃ e, v = .number (.int64 e) ∧ suits e := by
  intro v hv
  rw [findMember_map, Option.map_eq_some_iff] at hv
  obtain ⟨w, hw, rfl⟩ := hv
  obtain ⟨n, e, rfl, he, hs⟩ := h w hw
  exact ⟨e, congrArg Tree.number he, hs⟩

theorem findMember_full {payload : Members} (h : (name, v) ∈ signClaims opts now) :
    findMember name (fullPayload payload opts now) = (findMember name payload).or (some v) := by
  rw [fullPayload_eq, findMember_append]
  cases hown : findMember name payload with
  | some w => rfl
  | none =>
    have hmem : (name, v) ∈ addedClaims payload opts now :=
      List.mem_filter.2 ⟨h, by rw [hown]; rfl⟩
    have hd : Distinct (addedClaims payload opts now) :=
      (List.filter_sublist.map _).nodup (distinct_signClaims opts now)
    rw [findMember_mem hd hmem]

theorem own_or_added {payload : Members} {suits : Value → Prop} (hadd : (name, v) ∈ signClaims opts now)
    (hown : ∀ w, findMember name payload = some w → suits w) (hv : suits v) :
    ∃ w, findMember name (fullPayload payload opts now) = some w ∧ suits w := by
  rw [findMember_full hadd]
  cases h : findMember name payload with
  | none => exact ⟨v, rfl, hv⟩
  | some w => exact ⟨w, rfl, hown w h⟩

theorem accepted_jwtSign (payload : Members) (opts : JwtAuthOptions) (signedAt now later : Int64)
    (hheader : Undone json jwtHeader) (hpayload : Undone json (.object (fullPayload payload opts signedAt)))
    (hexp : TimeMet expName (fullPayload payload opts signedAt) (now ≤ ·))
    (hnbf : TimeMet nbfName (fullPayload payload opts signedAt) (· ≤ later)) (hown : OwnClaimsMet payload opts) :
    Accepted json hmacSha256 (jwtSign json hmacSha256 payload opts signedAt) opts now later
      (mapMembers Number.parsed (fullPayload payload opts signedAt)) := by
  refine ⟨base64UrlEncode (json.serialize jwtHeader),
    base64UrlEncode (json.serialize (.object (fullPayload payload opts signedAt))),
    base64UrlEncode (hmacSha256 (base64UrlEncode (json.serialize jwtHeader) ++
      46 :: base64UrlEncode (json.serialize (.object (fullPayload payload opts signedAt)))) opts.secret).1,
    _, ?_, dot_not_mem _, dot_not_mem _, base64UrlDecode_encode _, segment_encode hheader, rfl,
    segment_encode hpayload, ?_⟩
  · simp only [jwtSign, List.append_assoc, List.cons_append]
  · refine ⟨timeMet_parsed hexp, ?_, ?_, timeMet_parsed hnbf⟩
    · intro hne
      have hadd : (issName, Tree.string opts.issuer) ∈ signClaims opts signedAt := by
        simp [signClaims, hne]
      obtain ⟨w, hw, rfl⟩ := own_or_added hadd (hown.1 hne) rfl
      rw [findMember_map, hw]
      rfl
    · intro hne
      have hadd : (audName, Tree.string opts.audience) ∈ signClaims opts signedAt := by
        simp [signClaims, hne]
      obtain ⟨w, hw, hmatch⟩ := own_or_added hadd (hown.2 hne) (beq_self_eq_true opts.audience)
      rw [findMember_map, hw]
      exact ⟨_, rfl, (audienceMatches_map ..).trans hmatch⟩

end Verifying

/-- Decoding undoes encoding; what was signed verifies, with the added claims behind its own, unless
its own issuer or audience is another one; and nothing verifies that was not signed and does not meet
the options. -/
theorem jwt_sign_verify (json : JsonLibrary) (hmacSha256 : HmacSha256) :
    (∀ data, base64UrlDecode (base64UrlEncode data) = .ok data) ∧
    (∀ payload opts signedAt now later, Undone json jwtHeader →
      Undone json (.object (fullPayload payload opts signedAt)) →
      TimeMet expName (fullPayload payload opts signedAt) (now ≤ ·) →
      TimeMet nbfName (fullPayload payload opts signedAt) (· ≤ later) → OwnClaimsMet payload opts →
      jwtVerify json hmacSha256 (jwtSign json hmacSha256 payload opts signedAt) opts now later =
        .ok (mapMembers Number.parsed (payload ++ addedClaims payload opts signedAt))) ∧
    ∀ token opts now later payload, jwtVerify json hmacSha256 token opts now later = .ok payload →
      Accepted json hmacSha256 token opts now later payload := by
  refine ⟨base64UrlDecode_encode, ?_, fun token opts now later payload => (jwtVerify_ok_iff ..).1⟩
  intro payload opts signedAt now later hheader hpayload hexp hnbf hown
  rw [jwtVerify_ok_iff, ← fullPayload_eq]
  exact accepted_jwtSign json hmacSha256 payload opts signedAt now later hheader hpayload hexp hnbf hown

/-- The number of a token, an integer. -/
def numberOf (l : Lexeme) : Number :=
  match intValue l.1 with
  | some n => if -2 ^ 63 ≤ n ∧ n < 2 ^ 63 then .int64 (.ofInt n) else .uint64 (.ofNat n.toNat)
  | none => .double 0

theorem numberOf_int64 (n : Int64) : numberOf (intLexeme n.toInt) = .int64 n := by
  have hvalue : intValue (intLexeme n.toInt).1 = some n.toInt := intValue_decimalInt n.toInt
  have hlo := n.le_toInt
  have hhi := n.toInt_lt
  rw [numberOf, hvalue]
  simp only [if_pos (show -2 ^ 63 ≤ n.toInt ∧ n.toInt < 2 ^ 63 from ⟨hlo, hhi⟩), Int64.ofInt_toInt]

/-- A library for values without fractions. -/
def intJson : JsonLibrary where
  serialize := escapingSerialize
  parse := fun text => (parse text).map (Json.Tree.map numberOf)

/-- The HMACs of two tokens under one key. -/
def knownHmac : HmacSha256 := fun signInput _ =>
  if signInput = bytes "eyJhbGciOiJIUzI1NiIsInR5cCI6IkpXVCJ9.eyJzdWIiOiJ1IiwiaWF0IjowLCJleHAiOjg2NDAwfQ" then
    ⟨[140, 45, 111, 232, 216, 31, 99, 172, 48, 150, 192, 73, 192, 205, 249, 124, 139, 206, 173, 140, 19, 98, 51, 116,
      91, 184, 170, 130, 82, 126, 51, 239], rfl⟩
  else
    ⟨[104, 17, 25, 160, 106, 36, 77, 209, 191, 179, 92, 9, 139, 52, 159, 254, 29, 169, 2, 241, 121, 23, 137, 105,
      34, 124, 201, 208, 52, 200, 247, 146], rfl⟩

def subjectPayload : Members := [(bytes "sub", .string (bytes "u"))]

theorem undone_intJson {v : Value}
    (h : (v.map (Number.lexeme fun _ => intLexeme 0)).map numberOf = v.map Number.parsed) : Undone intJson v := by
  have hread : parse (escapingSerialize v) = some (v.map (Number.lexeme fun _ => intLexeme 0)) :=
    parse_render (readable_escaped _)
  rw [Undone, ← h]
  exact congrArg (Option.map (Json.Tree.map numberOf)) hread

theorem jwt_sign_verify_subject :
    jwtVerify intJson knownHmac (jwtSign intJson knownHmac subjectPayload { secret := bytes "my-secret" } 0)
        { secret := bytes "my-secret" } 86400 0 =
      .ok [(bytes "sub", .string (bytes "u")), (iatName, .number (.int64 0)), (expName, .number (.int64 86400))] := by
  have hheader : Undone intJson jwtHeader := undone_intJson rfl
  have hfull : fullPayload subjectPayload { secret := bytes "my-secret" } 0 =
      [(bytes "sub", .string (bytes "u")), (iatName, .number (.int64 0)), (expName, .number (.int64 86400))] := rfl
  have hpayload : Undone intJson (.object (fullPayload subjectPayload { secret := bytes "my-secret" } 0)) := by
    rw [hfull]
    apply undone_intJson
    simp only [Json.Tree.map, mapMembers, Number.lexeme, numberOf_int64, Number.parsed]
  apply (jwt_sign_verify intJson knownHmac).2.1 subjectPayload _ _ _ _ hheader hpayload
  · intro v hv
    cases hv
    exact ⟨_, _, rfl, rfl, by decide⟩
  · intro v hv
    cases hv
  · exact ⟨fun h => absurd rfl h, fun h => absurd rfl h⟩

def otherIssuer : Members := [(issName, .string (bytes "other"))]

def failure? : Except ε α → Option ε
  | .error e => some e
  | .ok _ => none

/-- A payload with an issuer of its own is signed as it is, and does not verify. -/
theorem jwtSign_otherIssuer :
    failure? (jwtVerify intJson knownHmac
        (jwtSign intJson knownHmac otherIssuer { secret := bytes "my-secret", issuer := bytes "me" } 0)
        { secret := bytes "my-secret", issuer := bytes "me" } 0 0) =
      some (.runtime (bytes "JWT: issuer mismatch")) := by
  decide +kernel

/-- Everything before the second dot. -/
def signedPart (token : Bytes) : Option Bytes :=
  match splitToken token with
  | .ok (headerB64, payloadB64, _) => some (headerB64 ++ 46 :: payloadB64)
  | .error _ => none

theorem signedPart_eq (hheader : 46 ∉ headerB64) (hpayload : 46 ∉ payloadB64) (sigB64 : Bytes) :
    signedPart (headerB64 ++ 46 :: (payloadB64 ++ 46 :: sigB64)) = some (headerB64 ++ 46 :: payloadB64) := by
  rw [signedPart, splitToken_ok_iff.2 ⟨rfl, hheader, hpayload⟩]

theorem other_spelling (sigB64 mac : Bytes) (hlen : mac.length = kSha256OutputLen) :
    ∃ sigB64', sigB64' ≠ sigB64 ∧ base64UrlDecode sigB64' = .ok mac := by
  by_cases h : base64UrlEncode mac = sigB64
  · refine ⟨base64UrlEncode mac ++ [61], ?_, base64UrlDecode_padded mac ?_⟩
    · rw [h]
      intro heq
      have hlength := congrArg List.length heq
      rw [List.length_append, List.length_singleton] at hlength
      omega
    · rw [hlen]
      rfl
  · exact ⟨base64UrlEncode mac, h, base64UrlDecode_encode mac⟩

theorem accepted_other (json : JsonLibrary) (hmacSha256 : HmacSha256)
    (h : Accepted json hmacSha256 token opts now later payload) :
    ∃ token', token' ≠ token ∧ signedPart token' = signedPart token ∧
      Accepted json hmacSha256 token' opts now later payload := by
  obtain ⟨headerB64, payloadB64, sigB64, header, rfl, hdot, hdot', hsig, hrest⟩ := h
  obtain ⟨sigB64', hne, hsig'⟩ := other_spelling sigB64 _ (hmacSha256 (headerB64 ++ 46 :: payloadB64) opts.secret).2
  refine ⟨headerB64 ++ 46 :: (payloadB64 ++ 46 :: sigB64'), ?_, ?_, headerB64, payloadB64, sigB64', header, rfl, hdot,
    hdot', hsig', hrest⟩
  · intro heq
    injection List.append_cancel_left heq with _ heq
    injection List.append_cancel_left heq with _ heq
    exact hne heq
  · rw [signedPart_eq hdot hdot', signedPart_eq hdot hdot']

/-- The decoder refuses a string that the encoder does not write only when one of the characters is
missing that it looks at. So no accepted token is the only one with its signed part. -/
theorem base64UrlDecode_canonical_iff (json : JsonLibrary) (hmacSha256 : HmacSha256) :
    (∀ s, ((∀ data, base64UrlEncode data ≠ s) → ∀ data, base64UrlDecode s ≠ .ok data) ↔ Canonical s ∨ ¬ Leads s) ∧
    ∀ opts now later,
      (∀ token token' payload payload', jwtVerify json hmacSha256 token opts now later = .ok payload →
        jwtVerify json hmacSha256 token' opts now later = .ok payload' → token ≠ token' →
        signedPart token ≠ signedPart token') ↔
      ∀ token payload, jwtVerify json hmacSha256 token opts now later ≠ .ok payload := by
  constructor
  · intro s
    rw [canonical_iff, ← decode_ok_iff]
    constructor
    · intro h
      by_cases himage : ∃ data, base64UrlEncode data = s
      · exact .inl himage
      · exact .inr fun ⟨data, hdata⟩ => h (fun data heq => himage ⟨data, heq⟩) data hdata
    · rintro (⟨data, hdata⟩ | hrefused) himage data' hdecoded
      · exact himage data hdata
      · exact hrefused ⟨data', hdecoded⟩
  · intro opts now later
    constructor
    · intro h token payload hok
      obtain ⟨token', hne, hsame, haccepted⟩ := accepted_other json hmacSha256 ((jwtVerify_ok_iff ..).1 hok)
      exact h token' token payload payload ((jwtVerify_ok_iff ..).2 haccepted) hok hne hsame
    · intro h token token' payload _ hok
      exact absurd hok (h token payload)

/-- The last four bits of the second character are dropped unseen. -/
theorem base64UrlDecode_looseBits :
    base64UrlDecode (bytes "QR") = .ok (bytes "A") ∧ ∀ data, base64UrlEncode data ≠ bytes "QR" := by
  have hdecode : base64UrlDecode (bytes "QR") = .ok (bytes "A") := rfl
  refine ⟨hdecode, ?_⟩
  intro data heq
  have hdata := base64UrlDecode_encode data
  rw [heq, hdecode] at hdata
  cases hdata
  have hencode : base64UrlEncode (bytes "A") = bytes "QQ" := rfl
  rw [hencode] at heq
  cases heq

end Hical
