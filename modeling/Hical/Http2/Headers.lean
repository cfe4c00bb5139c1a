import Hical.Http
import Hical.Http2.Codec
import Hical.Lib.Effect
import Hical.Http2.Options

namespace Hical.Http2

/-- The roles of the blocks that a server sends. -/
inductive BlockKind where
  | hResponse | hTrailers
  deriving DecidableEq, Repr

def kConnectionFields : List Bytes :=
  ["connection", "keep-alive", "proxy-connection", "transfer-encoding", "upgrade"].map bytes

def kForbiddenTrailers : List Bytes :=
  ["content-length", "host", "te", "trailer", "authorization", "proxy-authorization",
    "proxy-authenticate", "www-authenticate", "cookie", "set-cookie", "content-encoding",
    "content-type", "content-range", "content-location", "range", "expect", "max-forwards",
    "cache-control", "age", "expires", "date", "location", "retry-after", "vary"].map bytes

def isUpper (c : UInt8) : Bool := decide (65 ≤ c ∧ c ≤ 90)

def isAlpha (c : UInt8) : Bool := decide (97 ≤ c ∧ c ≤ 122) || isUpper c

def isDigit (c : UInt8) : Bool := decide (48 ≤ c ∧ c ≤ 57)

def kSpecial : Bytes := bytes "!#$%&'*+-.^_`|~"

def token (text : Bytes) (lowercaseOnly : Bool) : Bool :=
  !text.isEmpty && text.all fun c =>
    isAlpha c && (!lowercaseOnly || !isUpper c) || isDigit c || kSpecial.contains c

def validValue (value : Bytes) : Bool :=
  !(value.head?.any isBlank || value.getLast?.any isBlank) &&
    value.all fun c => decide (0x20 ≤ c ∧ c ≠ 0x7f) || c == HT

def unsignedDecimal (value : Bytes) : Option Nat :=
  if value.isEmpty || !value.all isDigit then none
  else
    let number := value.foldl (fun n c => n * 10 + (c.toNat - 48)) 0
    if number ≤ 2 ^ 63 - 1 then some number else none

/-- `Http2Headers::Storage` of a block that a server sends. -/
structure Http2Headers where
  kind : BlockKind
  streamId : Int
  maxFields : Nat
  maxBytes : Nat
  decodedFields : Nat := 0
  decodedBytes : Nat := 0
  entries : Fields := []
  contentLength : Option Nat := none
  status : Nat := 0
  regularSeen : Bool := false
  sealed : Bool := false
  views : Fields := []

namespace Http2Headers

def new (kind : BlockKind) (streamId : Int) (options : Http2Options) : Http2Headers where
  kind := kind
  streamId := streamId
  maxFields := options.maxHeaderFields.toNat
  maxBytes := options.maxHeaderBytes.toNat

def findEntry (h : Http2Headers) (name : Bytes) : Option Field :=
  h.entries.find? fun e => e.name == name

def value (h : Http2Headers) (name : Bytes) : Bytes := ((h.findEntry name).map Field.value).getD []

def fail (h : Http2Headers) (message : String) (resource : Bool) : NetworkError :=
  { code := if resource then .hResourceLimitExceeded else .hHttp2StreamError
    message := message
    http2 := some {
      code := if resource then .hEnhanceYourCalm else .hProtocolError, streamId := h.streamId } }

def validatePseudo (h : Http2Headers) (name value : Bytes) : Except NetworkError Unit :=
  if h.regularSeen ∨ h.kind = .hTrailers ∨ value = [] ∨ (h.findEntry name).isSome then
    throw (h.fail "HTTP/2 伪头的顺序、重复或所属头部块无效" false)
  else if name ≠ bytes ":status" ∨ value.length ≠ 3 ∨ value.all isDigit = false ∨
      value.head? = some 48 ∨ value = bytes "101" then
    throw (h.fail "HTTP/2 响应需要唯一的三位 :status，不能使用 101" false)
  else pure ()

def validateRegular (h : Http2Headers) (name value : Bytes) : Except NetworkError Unit :=
  if name ∈ kConnectionFields then throw (h.fail "HTTP/2 不允许连接专用字段" false)
  else if h.kind = .hTrailers ∧ (bytes "if-" <+: name ∨ name ∈ kForbiddenTrailers) then
    throw (h.fail "HTTP/2 尾头不能改变路由、消息分界、认证或内容处理" false)
  else if name = bytes "te" then
    throw (h.fail "HTTP/2 TE 仅允许初始请求中的 trailers" false)
  else if name = bytes "content-length" ∧
      (h.contentLength.isSome ∨ (unsignedDecimal value).isNone) then
    throw (h.fail "HTTP/2 Content-Length 重复或不是有效的非负长度" false)
  else pure ()

def isPseudo (name : Bytes) : Bool := name.head? == some 58

def isCookie (f : Field) : Bool := f.name == bytes "cookie"

def validateField (h : Http2Headers) (name value : Bytes) : Except NetworkError Unit :=
  if isPseudo name then h.validatePseudo name value else h.validateRegular name value

def fieldSize (name value : Bytes) : Nat := kHeaderFieldOverheadBytes + name.length + value.length

def overBudget (h : Http2Headers) (name value : Bytes) : Bool :=
  decide (h.maxFields ≤ h.decodedFields) ||
    decide (h.maxBytes - h.decodedBytes < fieldSize name value)

def push (h : Http2Headers) (name value : Bytes) : Http2Headers :=
  { h with
    entries := h.entries ++ [⟨name, value⟩]
    decodedFields := h.decodedFields + 1
    decodedBytes := h.decodedBytes + fieldSize name value
    regularSeen := h.regularSeen || !isPseudo name
    contentLength := if name = bytes "content-length" then unsignedDecimal value else h.contentLength }

def append (h : Http2Headers) (name value : Bytes) : Except NetworkError Http2Headers :=
  if h.sealed then
    throw { code := .hInvalidConfiguration, message := "HTTP/2 头部块封存后不能追加" }
  else if h.overBudget name value then
    throw (h.fail "HTTP/2 解码字段数量或 header-list 字节数超过预算" true)
  else if !token (if isPseudo name then name.tail else name) true || !validValue value then
    throw (h.fail "HTTP/2 字段名或字段值格式无效" false)
  else do
    h.validateField name value
    return h.push name value

def validateComplete (h : Http2Headers) : Except NetworkError Http2Headers :=
  match h.kind with
  | .hResponse =>
    match unsignedDecimal (h.value (bytes ":status")) with
    | none => throw (h.fail "HTTP/2 响应缺少 :status" false)
    | some code =>
      if code / 100 = 1 ∧ h.contentLength.isSome then
        throw (h.fail "HTTP/2 信息响应不能携带 Content-Length" false)
      else pure { h with status := code }
  | .hTrailers => pure h

/-- `seal`, which keeps the views without the pseudo-headers. -/
def complete (h : Http2Headers) : Except NetworkError Http2Headers :=
  if h.sealed then pure h
  else do
    let h ← h.validateComplete
    return { h with views := h.entries.filter (!isPseudo ·.name), sealed := true }

def fields (h : Http2Headers) : Fields := if h.sealed then h.views else []

/-- An ordinary field that no response may lack for being about its connection. -/
structure Regular (name : Bytes) : Prop where
  not_pseudo : isPseudo name = false
  not_connection : name ∉ kConnectionFields
  not_te : name ≠ bytes "te"

/-- A block that took these fields and is still open. -/
structure Holds (h : Http2Headers) (kind : BlockKind) (options : Http2Options)
    (es : Fields) : Prop where
  entries_eq : h.entries = es
  kind_eq : h.kind = kind
  maxFields_eq : h.maxFields = options.maxHeaderFields.toNat
  counted : h.decodedFields = es.length
  within : es.length ≤ options.maxHeaderFields.toNat
  unsealed : h.sealed = false

section
variable {name value : Bytes} {kind : BlockKind} {options : Http2Options} {es : Fields}
variable {b b' : Http2Headers}

theorem new_holds (kind : BlockKind) (streamId : Int) (options : Http2Options) :
    (new kind streamId options).Holds kind options [] :=
  ⟨rfl, rfl, rfl, rfl, Nat.zero_le _, rfl⟩

theorem validateRegular_ok (hn : isPseudo name = false)
    (h : b.validateRegular name value = .ok ()) : Regular name := by
  unfold validateRegular at h
  split at h
  · cases h
  · next hc =>
    split at h
    · cases h
    · split at h
      · cases h
      · next ht => exact ⟨hn, hc, ht⟩

theorem validatePseudo_ok (h : b.validatePseudo name value = .ok ()) :
    b.kind ≠ .hTrailers ∧ b.findEntry name = none ∧ name = bytes ":status" := by
  unfold validatePseudo at h
  split at h
  · cases h
  · next hs =>
    split at h
    · cases h
    · next hv =>
      simp only [not_or, Option.not_isSome_iff_eq_none] at hs
      simp only [not_or, not_not] at hv
      exact ⟨hs.2.1, hs.2.2.2, hv.1⟩

theorem append_ok (h : b.append name value = .ok b') :
    b' = b.push name value ∧ b.decodedFields < b.maxFields ∧
      (isPseudo name = true → b.validatePseudo name value = .ok ()) ∧
      (isPseudo name = false → b.validateRegular name value = .ok ()) := by
  unfold append at h
  generalize (!token (if isPseudo name then name.tail else name) true || !validValue value) = bad at h
  split at h
  · cases h
  · split at h
    · cases h
    · next ho =>
      have hlt : b.decodedFields < b.maxFields := by
        simp only [overBudget, Bool.or_eq_true, decide_eq_true_eq, not_or, Nat.not_le] at ho
        exact ho.1
      split at h
      · cases h
      · obtain ⟨u, hu, h⟩ := Effect.except_bind_ok h
        refine ⟨(Except.ok.inj h).symm, hlt, fun hp => ?_, fun hp => ?_⟩
        · simpa only [validateField, hp, if_true] using hu
        · simpa only [validateField, hp, Bool.false_eq_true, if_false] using hu

theorem Holds.append (hb : b.Holds kind options es)
    (h : b.append name value = .ok b') : b'.Holds kind options (es ++ [⟨name, value⟩]) := by
  obtain ⟨rfl, hlt, -, -⟩ := append_ok h
  rw [hb.counted, hb.maxFields_eq] at hlt
  exact {
    entries_eq := by simp only [push, hb.entries_eq]
    kind_eq := hb.kind_eq
    maxFields_eq := hb.maxFields_eq
    counted := by simp only [push, hb.counted, List.length_append, List.length_singleton]
    within := by
      rw [List.length_append, List.length_singleton]
      exact hlt
    unsealed := hb.unsealed }

/-- Once there is a `:status`, and in trailers, every field that is taken is an ordinary one. -/
theorem Holds.regular (hb : b.Holds kind options es)
    (hs : kind = .hTrailers ∨ ∃ e ∈ es, e.name = bytes ":status")
    (h : b.append name value = .ok b') : Regular name := by
  obtain ⟨-, -, hp, hr⟩ := append_ok h
  cases hn : isPseudo name with
  | false => exact validateRegular_ok hn (hr hn)
  | true =>
    obtain ⟨hk, hf, rfl⟩ := validatePseudo_ok (hp hn)
    rw [hb.kind_eq] at hk
    obtain ⟨e, he, hname⟩ := hs.resolve_left hk
    rw [findEntry, hb.entries_eq, List.find?_eq_none] at hf
    exact absurd (beq_iff_eq.2 hname) (hf e he)

theorem Holds.complete (hb : b.Holds kind options es)
    (h : b.complete = .ok b') : b'.fields = es.filter (!isPseudo ·.name) := by
  rw [Http2Headers.complete, if_neg (by simp [hb.unsealed])] at h
  obtain ⟨c, hc, h⟩ := Effect.except_bind_ok h
  have he : c.entries = b.entries := by
    unfold validateComplete at hc
    split at hc
    · split at hc
      · cases hc
      · split at hc
        · cases hc
        · cases hc
          rfl
    · cases hc
      rfl
  cases h
  simp only [fields, if_true, he, hb.entries_eq]

end

end Http2Headers

end Hical.Http2
