import Hical.Json.Value
import Hical.Jwt.Base64Url

namespace Hical
open Json

abbrev Members := List (Bytes × Value)

/-- `boost::json::serialize` and `boost::json::parse`, which throws on what is no JSON text. -/
structure JsonLibrary where
  serialize : Value → Bytes
  parse : Bytes → Option Value

def kSha256OutputLen : Nat := 32

/-- The HMAC of some data under a key. -/
abbrev HmacSha256 := Bytes → Bytes → { mac : Bytes // mac.length = kSha256OutputLen }

structure JwtAuthOptions where
  secret : Bytes
  issuer : Bytes := []
  audience : Bytes := []
  /-- In seconds. -/
  tokenExpiry : Int64 := 86400

/-- The nanoseconds of `system_clock`. -/
def kTicksPerSecond : Int64 := 1000000000

section Claims

def iatName : Bytes := bytes "iat"

def expName : Bytes := bytes "exp"

def issName : Bytes := bytes "iss"

def audName : Bytes := bytes "aud"

def nbfName : Bytes := bytes "nbf"

def algName : Bytes := bytes "alg"

def addClaim (name : Bytes) (v : Value) (fullPayload : Members) : Members :=
  if (findMember name fullPayload).isSome then fullPayload else setMember name v fullPayload

/-- The payload that `jwtSign` serialises; `now` is what the clock counts. -/
def fullPayload (payload : Members) (opts : JwtAuthOptions) (now : Int64) : Members :=
  let full := addClaim iatName (.number (.int64 (now / kTicksPerSecond))) payload
  let full := addClaim expName (.number (.int64 ((now + opts.tokenExpiry * kTicksPerSecond) / kTicksPerSecond))) full
  let full := if opts.issuer != [] then addClaim issName (.string opts.issuer) full else full
  if opts.audience != [] then addClaim audName (.string opts.audience) full else full

def jwtHeader : Value := .object [(algName, .string (bytes "HS256")), (bytes "typ", .string (bytes "JWT"))]

end Claims

section Signing
variable (json : JsonLibrary) (hmacSha256 : HmacSha256)

def jwtSign (payload : Members) (opts : JwtAuthOptions) (now : Int64) : Bytes :=
  let headerB64 := base64UrlEncode (json.serialize jwtHeader)
  let payloadB64 := base64UrlEncode (json.serialize (.object (fullPayload payload opts now)))
  let signInput := headerB64 ++ 46 :: payloadB64
  signInput ++ 46 :: base64UrlEncode (hmacSha256 signInput opts.secret).1

end Signing

section Verifying
variable (json : JsonLibrary) (hmacSha256 : HmacSha256)

/-- `if (!ok) throw std::runtime_error(what)`. -/
def require (ok : Bool) (what : Bytes) : Except JwtError Unit := if ok then .ok () else .error (.runtime what)

/-- The three segments. -/
def splitToken (token : Bytes) : Except JwtError (Bytes × Bytes × Bytes) :=
  match cut 46 token with
  | (_, none) => .error (.runtime (bytes "JWT: invalid token format, missing dots"))
  | (headerB64, some rest) =>
    match cut 46 rest with
    | (_, none) => .error (.runtime (bytes "JWT: invalid token format, missing signature"))
    | (payloadB64, some sigB64) => .ok (headerB64, payloadB64, sigB64)

/-- `boost::json::parse(text).as_object()`. -/
def parseObject (text : Bytes) : Except JwtError Members :=
  match json.parse text with
  | some (.object members) => .ok members
  | _ => .error .json

def stringValue : Value → Except JwtError Bytes
  | .string s => .ok s
  | _ => .error .json

def int64Value : Value → Except JwtError Int64
  | .number (.int64 n) => .ok n
  | _ => .error .json

def checkSignature (signInput sigB64 secret : Bytes) : Except JwtError Unit :=
  (base64UrlDecode sigB64).bind fun sigRaw =>
    (require (sigRaw.length == kSha256OutputLen) (bytes "JWT: invalid signature length")).bind fun _ =>
      require (sigRaw == (hmacSha256 signInput secret).1) (bytes "JWT: signature verification failed")

def checkAlgorithm (header : Members) : Except JwtError Unit :=
  match findMember algName header with
  | none => .error (.runtime (bytes "JWT: unsupported algorithm, expected HS256"))
  | some v => (stringValue v).bind fun alg =>
    require (alg == bytes "HS256") (bytes "JWT: unsupported algorithm, expected HS256")

def checkExpiry (payload : Members) (now : Int64) : Except JwtError Unit :=
  match findMember expName payload with
  | none => .ok ()
  | some v => (int64Value v).bind fun expVal => require (now ≤ expVal) (bytes "JWT: token has expired")

/-- `jwtVerify` with a secret alone; `now` is what the clock shows, in seconds. -/
def jwtVerifySecret (token secret : Bytes) (now : Int64) : Except JwtError Members :=
  (splitToken token).bind fun (headerB64, payloadB64, sigB64) =>
    (checkSignature hmacSha256 (headerB64 ++ 46 :: payloadB64) sigB64 secret).bind fun _ =>
      (base64UrlDecode headerB64).bind fun headerJson =>
        (parseObject json headerJson).bind fun header =>
          (checkAlgorithm header).bind fun _ =>
            (base64UrlDecode payloadB64).bind fun payloadJson =>
              (parseObject json payloadJson).bind fun payload =>
                (checkExpiry payload now).map fun _ => payload

def checkIssuer (opts : JwtAuthOptions) (payload : Members) : Except JwtError Unit :=
  if opts.issuer == [] then .ok ()
  else
    match findMember issName payload with
    | none => .error (.runtime (bytes "JWT: issuer mismatch"))
    | some v => (stringValue v).bind fun iss => require (iss == opts.issuer) (bytes "JWT: issuer mismatch")

def audienceMatches (audience : Bytes) : Value → Bool
  | .string s => s == audience
  | .array vs => vs.any fun
    | .string s => s == audience
    | _ => false
  | _ => false

def checkAudience (opts : JwtAuthOptions) (payload : Members) : Except JwtError Unit :=
  if opts.audience == [] then .ok ()
  else
    match findMember audName payload with
    | none => .error (.runtime (bytes "JWT: audience missing"))
    | some v => require (audienceMatches opts.audience v) (bytes "JWT: audience mismatch")

def checkNotBefore (payload : Members) (now : Int64) : Except JwtError Unit :=
  match findMember nbfName payload with
  | none => .ok ()
  | some v => (int64Value v).bind fun nbfVal => require (nbfVal ≤ now) (bytes "JWT: token not yet valid (nbf)")

/-- `jwtVerify` with options, which reads the clock once for `exp` and once more for `nbf`. -/
def jwtVerify (token : Bytes) (opts : JwtAuthOptions) (now later : Int64) : Except JwtError Members :=
  (jwtVerifySecret json hmacSha256 token opts.secret now).bind fun payload =>
    (checkIssuer opts payload).bind fun _ =>
      (checkAudience opts payload).bind fun _ =>
        (checkNotBefore payload later).map fun _ => payload

end Verifying

section Accepting
variable (json : JsonLibrary) (hmacSha256 : HmacSha256)

/-- A segment that holds a JSON object. -/
def Segment (b64 : Bytes) (members : Members) : Prop :=
  ∃ text, base64UrlDecode b64 = .ok text ∧ json.parse text = some (.object members)

/-- The time claims by the two readings of the clock, issuer and audience by the options. -/
structure ClaimsMet (opts : JwtAuthOptions) (payload : Members) (now later : Int64) : Prop where
  exp : ∀ v, findMember expName payload = some v → ∃ e, v = .number (.int64 e) ∧ now ≤ e
  iss : opts.issuer ≠ [] → findMember issName payload = some (.string opts.issuer)
  aud : opts.audience ≠ [] → ∃ v, findMember audName payload = some v ∧ audienceMatches opts.audience v = true
  nbf : ∀ v, findMember nbfName payload = some v → ∃ n, v = .number (.int64 n) ∧ n ≤ later

/-- A token whose third segment is the HMAC of everything before its second dot, under the one
algorithm there is, with claims that are met. -/
def Accepted (token : Bytes) (opts : JwtAuthOptions) (now later : Int64) (payload : Members) : Prop :=
  ∃ headerB64 payloadB64 sigB64 header,
    token = headerB64 ++ 46 :: (payloadB64 ++ 46 :: sigB64) ∧ 46 ∉ headerB64 ∧ 46 ∉ payloadB64 ∧
      base64UrlDecode sigB64 = .ok (hmacSha256 (headerB64 ++ 46 :: payloadB64) opts.secret).1 ∧
      Segment json headerB64 header ∧ findMember algName header = some (.string (bytes "HS256")) ∧
      Segment json payloadB64 payload ∧ ClaimsMet opts payload now later

theorem require_ok_iff : require ok what = .ok () ↔ ok = true := by
  cases ok <;> simp [require]

theorem int64Value_ok_iff {v : Value} : int64Value v = .ok n ↔ v = .number (.int64 n) := by
  rw [int64Value.eq_def]
  split
  · exact ⟨fun h => by cases h; rfl, fun h => by cases h; rfl⟩
  · next hno => exact ⟨fun h => (nomatch h), fun h => absurd h (hno n)⟩

theorem stringValue_ok_iff {v : Value} : stringValue v = .ok s ↔ v = .string s := by
  cases v <;> simp [stringValue]

theorem splitToken_ok_iff : splitToken token = .ok (headerB64, payloadB64, sigB64) ↔
    token = headerB64 ++ 46 :: (payloadB64 ++ 46 :: sigB64) ∧ 46 ∉ headerB64 ∧ 46 ∉ payloadB64 := by
  constructor
  · intro h
    rw [splitToken] at h
    split at h
    · cases h
    · next header rest hfirst =>
      split at h
      · cases h
      · next p q hsecond =>
        cases h
        obtain ⟨rfl, hheader⟩ := cut_some hfirst
        obtain ⟨rfl, hpayload⟩ := cut_some hsecond
        exact ⟨rfl, hheader, hpayload⟩
  · rintro ⟨rfl, hheader, hpayload⟩
    simp only [splitToken, cut_append_sep hheader, cut_append_sep hpayload]

theorem checkSignature_ok_iff : checkSignature hmacSha256 signInput sigB64 secret = .ok () ↔
    base64UrlDecode sigB64 = .ok (hmacSha256 signInput secret).1 := by
  rw [checkSignature, bind_ok_iff]
  constructor
  · rintro ⟨sigRaw, hraw, h⟩
    obtain ⟨_, -, hsame⟩ := bind_ok_iff.1 h
    rw [require_ok_iff, beq_iff_eq] at hsame
    rw [hraw, hsame]
  · intro hraw
    refine ⟨_, hraw, ?_⟩
    apply bind_ok_iff.2
    refine ⟨(), require_ok_iff.2 ?_, require_ok_iff.2 (beq_self_eq_true _)⟩
    rw [beq_iff_eq]
    exact (hmacSha256 signInput secret).2

theorem parseObject_ok_iff {text : Bytes} {members : Members} :
    parseObject json text = .ok members ↔ json.parse text = some (.object members) := by
  rw [parseObject]
  split
  · next ms h =>
    rw [h]
    exact ⟨fun h => by cases h; rfl, fun h => by cases h; rfl⟩
  · next hno => exact ⟨fun h => (nomatch h), fun h => absurd h (hno members)⟩

theorem checkAlgorithm_ok_iff :
    checkAlgorithm header = .ok () ↔ findMember algName header = some (.string (bytes "HS256")) := by
  rw [checkAlgorithm]
  split
  · next h => simp [h]
  · next v h =>
    rw [h, bind_ok_iff]
    constructor
    · rintro ⟨alg, halg, heq⟩
      rw [require_ok_iff, beq_iff_eq] at heq
      rw [stringValue_ok_iff.1 halg, heq]
    · intro heq
      cases heq
      exact ⟨_, rfl, rfl⟩

theorem checkExpiry_ok_iff : checkExpiry payload now = .ok () ↔
    ∀ v, findMember expName payload = some v → ∃ e, v = .number (.int64 e) ∧ now ≤ e := by
  rw [checkExpiry]
  split
  · next h => simp [h]
  · next v h =>
    rw [h, bind_ok_iff]
    constructor
    · rintro ⟨e, he, hle⟩ v' hv
      cases hv
      exact ⟨e, int64Value_ok_iff.1 he, of_decide_eq_true (require_ok_iff.1 hle)⟩
    · intro hall
      obtain ⟨e, rfl, hle⟩ := hall v rfl
      exact ⟨e, rfl, require_ok_iff.2 (decide_eq_true hle)⟩

theorem checkNotBefore_ok_iff : checkNotBefore payload now = .ok () ↔
    ∀ v, findMember nbfName payload = some v → ∃ n, v = .number (.int64 n) ∧ n ≤ now := by
  rw [checkNotBefore]
  split
  · next h => simp [h]
  · next v h =>
    rw [h, bind_ok_iff]
    constructor
    · rintro ⟨n, hn, hle⟩ v' hv
      cases hv
      exact ⟨n, int64Value_ok_iff.1 hn, of_decide_eq_true (require_ok_iff.1 hle)⟩
    · intro hall
      obtain ⟨n, rfl, hle⟩ := hall v rfl
      exact ⟨n, rfl, require_ok_iff.2 (decide_eq_true hle)⟩

theorem checkIssuer_ok_iff : checkIssuer opts payload = .ok () ↔
    (opts.issuer ≠ [] → findMember issName payload = some (.string opts.issuer)) := by
  rw [checkIssuer]
  split
  · next h => exact ⟨fun _ hne => absurd (beq_iff_eq.1 h) hne, fun _ => rfl⟩
  · next hne =>
    rw [beq_iff_eq] at hne
    split
    · next h => simp [h, hne]
    · next v h =>
      rw [h, bind_ok_iff]
      constructor
      · rintro ⟨iss, hiss, heq⟩ -
        rw [require_ok_iff, beq_iff_eq] at heq
        rw [stringValue_ok_iff.1 hiss, heq]
      · intro heq
        have heq := heq hne
        cases heq
        exact ⟨_, rfl, require_ok_iff.2 (beq_self_eq_true _)⟩

theorem checkAudience_ok_iff : checkAudience opts payload = .ok () ↔
    (opts.audience ≠ [] → ∃ v, findMember audName payload = some v ∧ audienceMatches opts.audience v = true) := by
  rw [checkAudience]
  split
  · next h => exact ⟨fun _ hne => absurd (beq_iff_eq.1 h) hne, fun _ => rfl⟩
  · next hne =>
    rw [beq_iff_eq] at hne
    split
    · next h => simp [h, hne]
    · next v h =>
      rw [h, require_ok_iff]
      constructor
      · exact fun hm _ => ⟨v, rfl, hm⟩
      · intro hall
        obtain ⟨v', heq, hm⟩ := hall hne
        cases heq
        exact hm

theorem jwtVerify_ok_iff (token : Bytes) (opts : JwtAuthOptions) (now later : Int64) (payload : Members) :
    jwtVerify json hmacSha256 token opts now later = .ok payload ↔
      Accepted json hmacSha256 token opts now later payload := by
  constructor
  · intro h
    obtain ⟨full, h, hrest⟩ := bind_ok_iff.1 h
    obtain ⟨_, hiss, hrest⟩ := bind_ok_iff.1 hrest
    obtain ⟨_, haud, hrest⟩ := bind_ok_iff.1 hrest
    obtain ⟨_, hnbf, heq⟩ := map_ok_iff.1 hrest
    obtain ⟨⟨headerB64, payloadB64, sigB64⟩, hsplit, h⟩ := bind_ok_iff.1 h
    obtain ⟨_, hsig, h⟩ := bind_ok_iff.1 h
    obtain ⟨headerJson, hheader, h⟩ := bind_ok_iff.1 h
    obtain ⟨header, hparsed, h⟩ := bind_ok_iff.1 h
    obtain ⟨_, halg, h⟩ := bind_ok_iff.1 h
    obtain ⟨payloadJson, hpayload, h⟩ := bind_ok_iff.1 h
    obtain ⟨full', hfull, h⟩ := bind_ok_iff.1 h
    obtain ⟨_, hexp, hsame⟩ := map_ok_iff.1 h
    subst heq hsame
    obtain ⟨htoken, hdot, hdot'⟩ := splitToken_ok_iff.1 hsplit
    exact ⟨headerB64, payloadB64, sigB64, header, htoken, hdot, hdot', (checkSignature_ok_iff hmacSha256).1 hsig,
      ⟨headerJson, hheader, (parseObject_ok_iff json).1 hparsed⟩, checkAlgorithm_ok_iff.1 halg,
      ⟨payloadJson, hpayload, (parseObject_ok_iff json).1 hfull⟩,
      ⟨checkExpiry_ok_iff.1 hexp, checkIssuer_ok_iff.1 hiss, checkAudience_ok_iff.1 haud, checkNotBefore_ok_iff.1 hnbf⟩⟩
  · rintro ⟨headerB64, payloadB64, sigB64, header, htoken, hdot, hdot', hsig, ⟨headerJson, hheader, hparsed⟩, halg,
      ⟨payloadJson, hpayload, hfull⟩, hclaims⟩
    apply bind_ok_iff.2
    refine ⟨payload, ?_, bind_ok_iff.2 ⟨(), checkIssuer_ok_iff.2 hclaims.iss,
      bind_ok_iff.2 ⟨(), checkAudience_ok_iff.2 hclaims.aud, map_ok_iff.2 ⟨(), checkNotBefore_ok_iff.2 hclaims.nbf, rfl⟩⟩⟩⟩
    apply bind_ok_iff.2
    refine ⟨(headerB64, payloadB64, sigB64), splitToken_ok_iff.2 ⟨htoken, hdot, hdot'⟩, ?_⟩
    apply bind_ok_iff.2
    refine ⟨(), (checkSignature_ok_iff hmacSha256).2 hsig, ?_⟩
    apply bind_ok_iff.2
    refine ⟨headerJson, hheader, bind_ok_iff.2 ⟨header, (parseObject_ok_iff json).2 hparsed, ?_⟩⟩
    apply bind_ok_iff.2
    refine ⟨(), checkAlgorithm_ok_iff.2 halg, bind_ok_iff.2 ⟨payloadJson, hpayload, ?_⟩⟩
    apply bind_ok_iff.2
    exact ⟨payload, (parseObject_ok_iff json).2 hfull, map_ok_iff.2 ⟨(), checkExpiry_ok_iff.2 hclaims.exp, rfl⟩⟩

end Accepting

end Hical
