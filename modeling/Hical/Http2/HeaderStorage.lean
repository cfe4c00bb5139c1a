import Hical.Http2.Authority
import Hical.Lib.Buffer

/-! `Http2Headers::Storage` for blocks of every kind: a table of positions in a growing text. -/

namespace Hical.Http2

open Http2Headers (isPseudo isCookie fieldSize)

/-- The parts of `bytes_` that a field is. -/
structure Offset where
  name : Spans.Span
  value : Spans.Span
  deriving DecidableEq, Repr

/-- `entries` and `views` are the parts of the two arrays that are in use. -/
structure HeaderStorage where
  kind : HeaderKind
  streamId : Int
  maxFields : Nat
  maxBytes : Nat
  decodedFields : Nat := 0
  decodedBytes : Nat := 0
  entries : List Offset := []
  views : Fields := []
  bytes : Bytes := []
  contentLength : Option Nat := none
  status : Nat := 0
  regularSeen : Bool := false
  sealed : Bool := false
  error : NetworkError := {}

namespace HeaderStorage
variable (makeAddressV6 : Bytes → Option Bytes)

def new (kind : HeaderKind) (streamId : Int) (options : Http2Options) : HeaderStorage where
  kind := kind
  streamId := streamId
  maxFields := options.maxHeaderFields.toNat
  maxBytes := options.maxHeaderBytes.toNat

/-- The constructor, which checks its arguments. -/
def create (kind : HeaderKind) (streamId : Int) (options : Http2Options) :
    Except String HeaderStorage := do
  options.validate
  if streamId ≤ 0 then throw "HTTP/2 头部块角色或流 ID 无效"
  return new kind streamId options

def field (s : HeaderStorage) (entry : Offset) : Field :=
  ⟨entry.name.text s.bytes, entry.value.text s.bytes⟩

/-- `findEntry`, where `none` stands for `kNotFound`. -/
def findEntry (s : HeaderStorage) (name : Bytes) : Option Nat :=
  s.entries.findIdx? fun entry => (s.field entry).name == name

def value (s : HeaderStorage) (name : Bytes) : Bytes :=
  match s.findEntry name with
  | none => []
  | some index => ((s.entries[index]?.map s.field).map Field.value).getD []

def fail (s : HeaderStorage) (message : String) (resource : Bool) : HeaderStorage × NetworkError :=
  let error : NetworkError :=
    if s.error.isError then s.error
    else
      { code := if resource then .hResourceLimitExceeded else .hHttp2StreamError
        message := message
        http2 := some ⟨if resource then .hEnhanceYourCalm else .hProtocolError, s.streamId⟩ }
  ({ s with error := error }, error)

def validatePseudo (s : HeaderStorage) (name value : Bytes) : Option String :=
  if s.regularSeen ∨ s.kind = .hTrailers ∨ value = [] ∨ (s.findEntry name).isSome then
    some "HTTP/2 伪头的顺序、重复或所属头部块无效"
  else if s.kind = .hResponse then
    if name ≠ Hical.bytes ":status" ∨ value.length ≠ 3 ∨ value.all isDigit = false ∨
        value.head? = some 48 ∨ value = Hical.bytes "101" then
      some "HTTP/2 响应需要唯一的三位 :status，不能使用 101"
    else none
  else if name = Hical.bytes ":method" ∧ token value false then none
  else if name = Hical.bytes ":scheme" ∧ validScheme value then none
  else if name = Hical.bytes ":authority" ∧ (Authority.parseAuthority makeAddressV6 value).isSome then
    none
  else if name = Hical.bytes ":path" ∧ (35 : UInt8) ∉ value ∧
      value.all (fun c => decide (0x20 < c ∧ c ≠ 0x7f)) then none
  else some "HTTP/2 请求包含未知或无效的伪头"

def validateRegular (s : HeaderStorage) (name value : Bytes) : Option String :=
  if name ∈ kConnectionFields then some "HTTP/2 不允许连接专用字段"
  else if s.kind = .hTrailers ∧ (Hical.bytes "if-" <+: name ∨ name ∈ kForbiddenTrailers) then
    some "HTTP/2 尾头不能改变路由、消息分界、认证或内容处理"
  else if name = Hical.bytes "te" ∧
      (s.kind ≠ .hRequest ∨ iequals value (Hical.bytes "trailers") = false) then
    some "HTTP/2 TE 仅允许初始请求中的 trailers"
  else if name = Hical.bytes "content-length" ∧
      (s.contentLength.isSome ∨ (unsignedDecimal value).isNone) then
    some "HTTP/2 Content-Length 重复或不是有效的非负长度"
  else if s.kind = .hRequest ∧ name = Hical.bytes "host" ∧
      ((s.findEntry name).isSome ∨ (Authority.parseAuthority makeAddressV6 value).isNone) then
    some "HTTP/2 Host 重复或 authority 格式无效"
  else none

def overBudget (s : HeaderStorage) (name value : Bytes) : Prop :=
  let remaining := s.maxBytes - s.decodedBytes
  s.maxFields ≤ s.decodedFields ∨ remaining < kHeaderFieldOverheadBytes ∨
    remaining - kHeaderFieldOverheadBytes < name.length ∨
    remaining - kHeaderFieldOverheadBytes - name.length < value.length

instance (s : HeaderStorage) (name value : Bytes) : Decidable (s.overBudget name value) :=
  inferInstanceAs (Decidable (_ ∨ _))

def push (s : HeaderStorage) (name value : Bytes) : HeaderStorage :=
  { s with
    bytes := s.bytes ++ name ++ value
    entries := s.entries ++ [⟨Spans.next s.bytes name, Spans.next (s.bytes ++ name) value⟩]
    decodedFields := s.decodedFields + 1
    decodedBytes := s.decodedBytes + fieldSize name value
    regularSeen := s.regularSeen || !isPseudo name
    contentLength :=
      if name = Hical.bytes "content-length" then unsignedDecimal value else s.contentLength }

def append (s : HeaderStorage) (name value : Bytes) : HeaderStorage × NetworkError :=
  if s.sealed then (s, ⟨.hInvalidConfiguration, "HTTP/2 头部块封存后不能追加", none⟩)
  else if s.error.isError then (s, s.error)
  else if s.overBudget name value then s.fail "HTTP/2 解码字段数量或 header-list 字节数超过预算" true
  else if token (if isPseudo name then name.tail else name) true = false ∨ validValue value = false then
    s.fail "HTTP/2 字段名或字段值格式无效" false
  else
    match if isPseudo name then s.validatePseudo makeAddressV6 name value
        else s.validateRegular makeAddressV6 name value with
    | some message => s.fail message false
    | none => (s.push name value, {})

/-- What `validateComplete` checks of a request. Both authorities were parsed when they were
appended, so that the last branch is not reached without one. -/
def validateRequest (s : HeaderStorage) : Option String :=
  let method := s.value (Hical.bytes ":method")
  let scheme := s.value (Hical.bytes ":scheme")
  let path := s.value (Hical.bytes ":path")
  let authority := s.value (Hical.bytes ":authority")
  let host := s.value (Hical.bytes "host")
  let connect := method = Hical.bytes "CONNECT"
  let httpScheme := iequals scheme (Hical.bytes "http") ∨ iequals scheme (Hical.bytes "https")
  if method = [] ∨ (connect ∧ (authority = [] ∨ scheme ≠ [] ∨ path ≠ [])) ∨
      (¬connect ∧ (scheme = [] ∨ path = [])) then
    some "HTTP/2 请求缺少必要伪头，或普通 CONNECT 携带了 scheme/path"
  else if ¬connect ∧ httpScheme ∧ ((authority = [] ∧ host = []) ∨
      (path.head? ≠ some slash ∧ ¬(method = Hical.bytes "OPTIONS" ∧ path = Hical.bytes "*"))) then
    some "HTTP/2 HTTP 请求缺少 authority，或 :path 不是合法请求目标"
  else
    let parsedAuthority := Authority.parseAuthority makeAddressV6 authority
    if connect ∧ (parsedAuthority.bind Authority.port).isNone then
      some "HTTP/2 普通 CONNECT 的 authority 必须包含端口"
    else if authority ≠ [] ∧ host ≠ [] ∧
        (match parsedAuthority, Authority.parseAuthority makeAddressV6 host with
          | some first, some second => Authority.sameAuthority first second scheme
          | _, _ => false) = false then
      some "HTTP/2 :authority 与 Host 标识了不同目标"
    else none

def validateComplete (s : HeaderStorage) : HeaderStorage × Option String :=
  match s.kind with
  | .hResponse =>
    match unsignedDecimal (s.value (Hical.bytes ":status")) with
    | none => (s, some "HTTP/2 响应缺少 :status")
    | some code =>
      ({ s with status := code },
        if code / 100 = 1 ∧ s.contentLength.isSome then some "HTTP/2 信息响应不能携带 Content-Length"
        else none)
  | .hTrailers => (s, none)
  | .hRequest => (s, s.validateRequest makeAddressV6)

def cookie : Bytes := Hical.bytes "cookie"

/-- The inner loop: the values of these entries that are cookies, with "; " between them. -/
def appendCookies (s : HeaderStorage) (bytes : Bytes) (first : Bool) : List Offset → Bytes
  | [] => bytes
  | entry :: entries =>
    if isCookie (s.field entry) then
      s.appendCookies ((if first then bytes else bytes ++ Hical.bytes "; ") ++ (s.field entry).value)
        false entries
    else s.appendCookies bytes first entries

/-- The loop of `combineCookies`, which writes the fields anew. -/
def normalize (s : HeaderStorage) (bytes : Bytes) (combined : Bool) :
    List Offset → Bytes × List Offset
  | [] => (bytes, [])
  | entry :: entries =>
    if isCookie (s.field entry) && combined then s.normalize bytes combined entries
    else
      let current := s.field entry
      let named := bytes ++ current.name
      let written :=
        if isCookie current then s.appendCookies named true (entry :: entries)
        else named ++ current.value
      let offset : Offset :=
        ⟨Spans.next bytes current.name, ⟨named.length, written.length - named.length⟩⟩
      let rest := s.normalize written (combined || isCookie current) entries
      (rest.1, offset :: rest.2)

def combineCookies (s : HeaderStorage) : HeaderStorage :=
  if s.kind ≠ .hRequest then s
  else
    match s.findEntry cookie with
    | none => s
    | some firstCookie =>
      if (s.entries.drop (firstCookie + 1)).any fun entry => isCookie (s.field entry) then
        let normalized := s.normalize [] false s.entries
        { s with bytes := normalized.1, entries := normalized.2 }
      else s

/-- A turn of the loop of `seal`, with the views and `hasHost`. -/
def addView (s : HeaderStorage) (authority : Bytes) (acc : Fields × Bool) (entry : Offset) :
    Fields × Bool :=
  let current := s.field entry
  if isPseudo current.name then acc
  else if s.kind = .hRequest ∧ current.name = Hical.bytes "host" then
    (acc.1 ++ [if authority ≠ [] then { current with value := authority } else current], true)
  else (acc.1 ++ [current], acc.2)

/-- What `seal` does with a block that is complete. -/
def finish (s : HeaderStorage) : HeaderStorage :=
  let s := s.combineCookies
  let authority := s.value (Hical.bytes ":authority")
  let (views, hasHost) := s.entries.foldl (s.addView authority) ([], false)
  { s with
    views :=
      if s.kind = .hRequest ∧ hasHost = false ∧ authority ≠ [] then
        views ++ [⟨Hical.bytes "host", authority⟩]
      else views
    sealed := true }

/-- `Storage::seal`. -/
def close (s : HeaderStorage) : HeaderStorage × NetworkError :=
  if s.error.isError ∨ s.sealed then (s, s.error)
  else
    match s.validateComplete makeAddressV6 with
    | (s, some message) => s.fail message false
    | (s, none) => (s.finish, {})

def fields (s : HeaderStorage) : Fields := if s.sealed then s.views else []

def appendAll (s : HeaderStorage) : Fields → HeaderStorage × List NetworkError
  | [] => (s, [])
  | f :: fs =>
    let first := s.append makeAddressV6 f.name f.value
    let rest := first.1.appendAll fs
    (rest.1, first.2 :: rest.2)

end HeaderStorage

end Hical.Http2
