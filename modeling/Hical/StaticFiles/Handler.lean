import Hical.Lib.Lru
import Hical.Message

namespace Hical

namespace Response

def setFileBody (r : Response) (path : Bytes) (offset length : Nat) (contentType : Bytes) : Response :=
  if containsCRLF contentType then r
  else { r with
    payloadPrepared := false, fileBody := some ⟨path, offset, length⟩, body := [],
    headers := r.headers.set (bytes "Content-Type") contentType }

def rangeNotSatisfiable (fileSize : Nat) : Response :=
  ((setStatus {} .hRequestedRangeNotSatisfiable).setHeader (bytes "Content-Range")
    (bytes "bytes */" ++ decimal fileSize)).setBody (bytes "416 Range Not Satisfiable") (bytes "text/plain")

end Response

namespace StaticFiles

/-- What the file system says at a moment; a call that fails says nothing. -/
structure FileSystem where
  canonical : Bytes → Option Bytes
  isDirectory : Bytes → Bool
  isRegularFile : Bytes → Bool
  fileSize : Bytes → Option Nat
  lastWriteTime : Bytes → Option Int

def dot : UInt8 := 46

/-- `root / rel`. -/
def joinPath (root rel : Bytes) : Bytes :=
  if rel.head? = some slash then rel
  else if root.getLast? = some slash then root ++ rel
  else root ++ slash :: rel

/-- The parts that iterating over a path gives. -/
def components (path : Bytes) : List Bytes :=
  let names := (path.splitOn slash).filter fun name => name != []
  (if path.head? = some slash then [[slash]] else []) ++ names ++
    if path.getLast? = some slash && names != [] then [[]] else []

def extension (path : Bytes) : Bytes :=
  let filename := (path.reverse.takeWhile (· != slash)).reverse
  let suffix := (filename.reverse.takeWhile (· != dot)).reverse
  if filename = [dot] ∨ filename = [dot, dot] ∨ filename.length ≤ suffix.length + 1 then []
  else dot :: suffix

def mimeTable : List (Bytes × Bytes) :=
  [(bytes ".html", bytes "text/html; charset=utf-8"), (bytes ".htm", bytes "text/html; charset=utf-8"),
    (bytes ".css", bytes "text/css; charset=utf-8"),
    (bytes ".js", bytes "application/javascript; charset=utf-8"),
    (bytes ".mjs", bytes "application/javascript; charset=utf-8"),
    (bytes ".json", bytes "application/json; charset=utf-8"),
    (bytes ".xml", bytes "application/xml; charset=utf-8"),
    (bytes ".txt", bytes "text/plain; charset=utf-8"), (bytes ".md", bytes "text/markdown; charset=utf-8"),
    (bytes ".svg", bytes "image/svg+xml"), (bytes ".png", bytes "image/png"),
    (bytes ".jpg", bytes "image/jpeg"), (bytes ".jpeg", bytes "image/jpeg"), (bytes ".gif", bytes "image/gif"),
    (bytes ".webp", bytes "image/webp"), (bytes ".ico", bytes "image/x-icon"), (bytes ".woff", bytes "font/woff"),
    (bytes ".woff2", bytes "font/woff2"), (bytes ".ttf", bytes "font/ttf"), (bytes ".otf", bytes "font/otf"),
    (bytes ".pdf", bytes "application/pdf"), (bytes ".zip", bytes "application/zip"),
    (bytes ".gz", bytes "application/gzip"), (bytes ".mp4", bytes "video/mp4"),
    (bytes ".webm", bytes "video/webm"), (bytes ".mp3", bytes "audio/mpeg"), (bytes ".wav", bytes "audio/wav")]

def mimeType (ext : Bytes) : Bytes := (mimeTable.lookup ext).getD (bytes "application/octet-stream")

def isTextMime (mime : Bytes) : Bool :=
  mime != [] &&
    [bytes "text/", bytes "application/json", bytes "application/javascript", bytes "application/xml",
      bytes "image/svg+xml", bytes "application/xhtml+xml"].any fun p => p.isPrefixOf (cut semicolon mime).1

def isSafePath (root target : Bytes) : Bool := (components root).isPrefixOf (components target)

def makeEtag (fileSize : Nat) (lastWrite : Int) : Bytes :=
  bytes "\"" ++ decimal fileSize ++ bytes "-" ++ bytes (toString lastWrite) ++ bytes "\""

def minus : UInt8 := 45

def isDigit (c : UInt8) : Bool := decide (48 ≤ c) && decide (c ≤ 57)

/-- `std::from_chars` for `int64_t`: the digits at the front, after a sign, unless the number is too large. -/
def fromChars (s : Bytes) : Option Int :=
  let negative := s.head? == some minus
  let digits := (if negative then s.drop 1 else s).takeWhile isDigit
  let value : Nat := digits.foldl (fun n c => 10 * n + (c.toNat - 48)) 0
  let number : Int := if negative then -(value : Int) else value
  if digits = [] then none
  else if number < -2 ^ 63 ∨ 2 ^ 63 ≤ number then none
  else some number

structure ByteRange where
  start : Int
  last : Int
  deriving DecidableEq

def clampRange (start last fileSize : Int) : Option ByteRange :=
  let last := if fileSize ≤ last then fileSize - 1 else last
  if start < 0 ∨ last < start ∨ fileSize ≤ start then none else some ⟨start, last⟩

/-- The range of a header, and whether it asks for several. -/
def parseByteRange (header : Bytes) (fileSize : Int) : Option ByteRange × Bool :=
  if header.length < 7 ∨ header.take 6 ≠ bytes "bytes=" then (none, false)
  else
    let rangeSpec := header.drop 6
    if rangeSpec.contains comma then (none, true)
    else
      match cut minus rangeSpec with
      | (_, none) => (none, false)
      | ([], some endStr) =>
        match fromChars endStr with
        | none => (none, false)
        | some suffixLen =>
          if suffixLen ≤ 0 then (none, false)
          else (clampRange (if fileSize ≤ suffixLen then 0 else fileSize - suffixLen) (fileSize - 1) fileSize, false)
      | (startStr, some endStr) =>
        match fromChars startStr with
        | none => (none, false)
        | some start =>
          if endStr = [] then (clampRange start (fileSize - 1) fileSize, false)
          else
            match fromChars endStr with
            | none => (none, false)
            | some last => (clampRange start last fileSize, false)

structure PathEntry where
  canonical : Bytes
  cachedAt : Nat

structure ContentEntry where
  content : Bytes
  etag : Bytes
  mtimeNs : Int
  cachedAt : Nat

def kSecond : Nat := 1000000000

namespace TlPathCache

def kMaxEntries : Nat := 64

def kTtl : Nat := 60 * kSecond

end TlPathCache

namespace TlContentCache

def kMaxEntries : Nat := 32

def kMaxFileSize : Nat := 512 * 1024

def kTtl : Nat := 10 * kSecond

end TlContentCache

/-- The caches of a thread. -/
structure Caches where
  path : Lru.Cache Bytes PathEntry := {}
  content : Lru.Cache Bytes ContentEntry := {}

/-- A handler of `serveStatic`; it has no root where there is no such directory. -/
structure Handler where
  root : Option Bytes
  urlPrefix : Bytes
  maxFileSize : Nat := 64 * 1024 * 1024

def serveStatic (fs : FileSystem) (rootDir urlPrefix : Bytes) (maxFileSize : Nat) : Handler :=
  { root := fs.canonical rootDir, urlPrefix, maxFileSize }

/-- The readings of the clock while a request looks at the caches. -/
structure Clock where
  lookedUp : Nat
  resolved : Nat
  served : Nat

def relPath (h : Handler) (req : Request) : Bytes :=
  if h.urlPrefix.isPrefixOf req.path then req.path.drop h.urlPrefix.length
  else if h.urlPrefix != [] && req.path == h.urlPrefix.dropLast then []
  else req.path

def cacheKey (root rel : Bytes) : Bytes := root ++ 1 :: rel

def resolveAnew (fs : FileSystem) (clock : Clock) (cache : Lru.Cache Bytes PathEntry) (root rel : Bytes) :
    Option Bytes × Lru.Cache Bytes PathEntry :=
  match fs.canonical (joinPath root rel) with
  | none => (none, cache)
  | some target =>
    (some target, (cache.makeRoom TlPathCache.kMaxEntries).insert (cacheKey root rel) ⟨target, clock.resolved⟩)

def resolve (fs : FileSystem) (clock : Clock) (cache : Lru.Cache Bytes PathEntry) (root rel : Bytes) :
    Option Bytes × Lru.Cache Bytes PathEntry :=
  match cache.find (cacheKey root rel) with
  | none => resolveAnew fs clock cache root rel
  | some n =>
    if clock.lookedUp - n.entry.cachedAt < TlPathCache.kTtl then (some n.entry.canonical, cache.promote n)
    else resolveAnew fs clock cache root rel

def forbidden : Response := .plainText .hForbidden (bytes "403 Forbidden")

def fileTooLarge : Response := .plainText .hPayloadTooLarge (bytes "413 File Too Large")

def notModified (etag : Bytes) : Response :=
  ((Response.setStatus {} .hNotModified).setHeader (bytes "ETag") etag).preparePayload

/-- The fields that every answer with a file has. -/
def fileHeaders (r : Response) (etag : Bytes) : Response :=
  ((r.setHeader (bytes "Accept-Ranges") (bytes "bytes")).setHeader (bytes "ETag") etag).noSniff

def wholeText (content etag mime : Bytes) : Response :=
  fileHeaders ((Response.setStatus {} .hOk).setBody content mime) etag

def ifNoneMatches (req : Request) (etag : Bytes) : Bool :=
  req.headers.find (bytes "If-None-Match") != [] && req.headers.find (bytes "If-None-Match") == etag

/-- The node that may be served, and the cache without a stale one. -/
def lookUpContent (fs : FileSystem) (now : Nat) (cache : Lru.Cache Bytes ContentEntry) (target : Bytes) :
    Option (Lru.Node Bytes ContentEntry) × Lru.Cache Bytes ContentEntry :=
  match cache.find target with
  | none => (none, cache)
  | some n =>
    if now - n.entry.cachedAt < TlContentCache.kTtl then (some n, cache)
    else if fs.lastWriteTime target = some n.entry.mtimeNs then
      let cache := cache.update n.addr fun e => { e with cachedAt := now }
      (some { n with entry := { n.entry with cachedAt := now } }, cache)
    else (none, cache.erase target)

/-- A file that has to be read for a request: a part of it or the whole text. -/
structure Pending where
  target : Bytes
  mime : Bytes
  etag : Bytes
  fileSize : Nat
  lastWrite : Int
  range : Option ByteRange

/-- What a request comes to before anything is read. -/
inductive Outcome where
  | respond (r : Response)
  | read (p : Pending)

def contentRange (range : ByteRange) (fileSize : Nat) : Bytes :=
  bytes "bytes " ++ bytes (toString range.start) ++ bytes "-" ++ bytes (toString range.last) ++ bytes "/" ++
    decimal fileSize

def kInlineThreshold : Nat := 4 * 1024 * 1024

def rangeLen (range : ByteRange) : Nat := (range.last - range.start + 1).toNat

def partialContent (p : Pending) (range : ByteRange) (r : Response) : Response :=
  fileHeaders (r.setHeader (bytes "Content-Range") (contentRange range p.fileSize)) p.etag

def wholeFile (p : Pending) : Outcome :=
  if isTextMime p.mime then .read p
  else .respond (fileHeaders ((Response.setStatus {} .hOk).setFileBody p.target 0 p.fileSize p.mime) p.etag)

def serveFile (fs : FileSystem) (h : Handler) (req : Request) (target mime : Bytes) : Outcome :=
  match fs.fileSize target with
  | none => .respond .serverError
  | some fileSize =>
    if h.maxFileSize < fileSize then .respond fileTooLarge
    else
      match fs.lastWriteTime target with
      | none => .respond .serverError
      | some lastWrite =>
        let p : Pending := ⟨target, mime, makeEtag fileSize lastWrite, fileSize, lastWrite, none⟩
        if ifNoneMatches req p.etag then .respond (notModified p.etag)
        else
          let rangeHeader := req.headers.find (bytes "Range")
          let ifRange := req.headers.find (bytes "If-Range")
          if rangeHeader = [] || !(ifRange = [] || ifRange = p.etag) then wholeFile p
          else
            match parseByteRange rangeHeader fileSize with
            | (none, false) => .respond (.rangeNotSatisfiable fileSize)
            | (none, true) => wholeFile p
            | (some range, _) =>
              if rangeLen range ≤ kInlineThreshold then .read { p with range := some range }
              else
                .respond (partialContent p range
                  ((Response.setStatus {} .hPartialContent).setFileBody target range.start.toNat (rangeLen range) mime))

/-- A request from where its canonical path is known. -/
def serveTarget (fs : FileSystem) (clock : Clock) (cache : Lru.Cache Bytes ContentEntry) (h : Handler)
    (req : Request) (target : Bytes) : Outcome × Lru.Cache Bytes ContentEntry :=
  let mime := mimeType (extension target)
  if isTextMime mime && req.headers.find (bytes "Range") == [] then
    match lookUpContent fs clock.served cache target with
    | (some n, cache) =>
      (.respond (if ifNoneMatches req n.entry.etag then notModified n.entry.etag
        else wholeText n.entry.content n.entry.etag mime), cache.promote n)
    | (none, cache) => (serveFile fs h req target mime, cache)
  else (serveFile fs h req target mime, cache)

def indexed (fs : FileSystem) (root target : Bytes) : Option Bytes :=
  if fs.isDirectory target then
    match fs.canonical (joinPath target (bytes "index.html")) with
    | none => none
    | some index => if isSafePath root index then some index else none
  else some target

/-- A request up to its answer or to the reading of its file. -/
def serve (fs : FileSystem) (clock : Clock) (c : Caches) (h : Handler) (req : Request) : Outcome × Caches :=
  match h.root with
  | none => (.respond .notFound, c)
  | some root =>
    match resolve fs clock c.path root (relPath h req) with
    | (none, path) => (.respond .notFound, { c with path })
    | (some target, path) =>
      let c := { c with path }
      if !isSafePath root target then (.respond forbidden, c)
      else
        match indexed fs root target with
        | none => (.respond .notFound, c)
        | some target =>
          if !fs.isRegularFile target then (.respond .notFound, c)
          else
            let (outcome, content) := serveTarget fs clock c.content h req target
            (outcome, { c with content })

/-- What is cached once a whole text was read. -/
def cacheContent (cache : Lru.Cache Bytes ContentEntry) (p : Pending) (content : Bytes) (now : Nat) :
    Lru.Cache Bytes ContentEntry :=
  if p.fileSize ≤ TlContentCache.kMaxFileSize then
    (cache.makeRoom TlContentCache.kMaxEntries).insert p.target ⟨content, p.etag, p.lastWrite, now⟩
  else cache

def Pending.part (p : Pending) (file : Bytes) : Bytes :=
  match p.range with
  | none => file.take p.fileSize
  | some range => (file.drop range.start.toNat).take (rangeLen range)

/-- A request behind the reading of its file, which may fail with an exception. -/
def finish (c : Caches) (p : Pending) (content : Option Bytes) (now : Nat) : Option Response × Caches :=
  match content with
  | none => (none, c)
  | some content =>
    match p.range with
    | some range =>
      (some (partialContent p range ((Response.setStatus {} .hPartialContent).setBody content p.mime)), c)
    | none =>
      if content = [] then (some .serverError, c)
      else (some (wholeText content p.etag p.mime), { c with content := cacheContent c.content p content now })

end StaticFiles

end Hical
