import Hical.Http
import Hical.Lib.Parse

namespace Hical
open Parse

/-- `token_char_map`. -/
def tokenChar (b : UInt8) : Bool :=
  (48 ≤ b && b ≤ 57) || (65 ≤ b && b ≤ 90) || (94 ≤ b && b ≤ 122) ||
    [33, 35, 36, 37, 38, 39, 42, 43, 45, 46, 124, 126].contains b

/-- The characters that end a header value. -/
def isCtl (b : UInt8) : Bool := (b < 32 && b != HT) || b == 127

/-- A header as the parser hands it out; an obsolete folded line has no name. -/
structure PhrHeader where
  name : Option Bytes
  value : Bytes
  deriving DecidableEq, Repr

/-- What the parser reports of a request head. -/
structure PhrRequest where
  method : Bytes
  path : Bytes
  minorVersion : Nat
  headers : List PhrHeader
  deriving DecidableEq, Repr

def eol : Parser UInt8 Unit :=
  cond (· == CR)
    (do let _ ← sat (· == CR)
        let _ ← sat (· == LF)
        pure ())
    (do let _ ← sat (· == LF)
        pure ())

/-- `parse_token`; the delimiter at which it stops is read too, which both callers do next. -/
def parseToken (nextChar : UInt8) : Parser UInt8 Bytes := do
  let token ← span (fun b => b != nextChar && tokenChar b) (sat (· == nextChar))
  pure token.1

def advanceToken : Parser UInt8 Bytes := do
  let token ← span (fun b => b != SP && !(b < 32 || b == 127)) (sat (· == SP))
  pure token.1

def getTokenToEol : Parser UInt8 Bytes := do
  let token ← span (fun b => !isCtl b) eol
  pure token.1

def literal : Bytes → Parser UInt8 Unit
  | [] => pure ()
  | c :: cs => do
    let _ ← sat (· == c)
    literal cs

def parseHttpVersion : Parser UInt8 Nat :=
  atLeast 9 do
    literal (bytes "HTTP/1.")
    let d ← sat fun b => 48 ≤ b && b ≤ 57
    pure (d.toNat - 48)

def trimTrailing (value : Bytes) : Bytes :=
  (value.reverse.dropWhile isBlank).reverse

def foldedLine : Parser UInt8 PhrHeader := do
  let value ← getTokenToEol
  pure ⟨none, trimTrailing value⟩

def fieldLine : Parser UInt8 PhrHeader := do
  let name ← parseToken 58
  if name = [] then Parser.fail
  else do
    let value ← span isBlank getTokenToEol
    pure ⟨some name, trimTrailing value.2⟩

def parseHeaders : Nat → Bool → Parser UInt8 (List PhrHeader)
  | 0, _ => cond isEol (eol >>= fun _ => pure []) Parser.fail
  | left + 1, first =>
    cond isEol (eol >>= fun _ => pure []) do
      let h ← cond (fun b => !first && isBlank b) foldedLine fieldLine
      let hs ← parseHeaders left false
      pure (h :: hs)

def maxHeaders : Nat := 64

/-- `parse_request` behind the empty line it may skip. -/
def parseRequestLine : Parser UInt8 PhrRequest := do
  let method ← parseToken SP
  let path ← span (· == SP) advanceToken
  let minorVersion ←
    span (· == SP) (if method = [] ∨ path.2 = [] then Parser.fail else parseHttpVersion)
  let _ ← eol
  let headers ← parseHeaders maxHeaders true
  pure ⟨method, path.2, minorVersion.2, headers⟩

def parseRequest : Parser UInt8 PhrRequest :=
  cond isEol (eol >>= fun _ => parseRequestLine) parseRequestLine

/-- The scan of `is_complete` for two line ends in a row. -/
def isCompleteFrom : Nat → Bytes → Res UInt8 Unit
  | _, [] => .more
  | retCnt, b :: s =>
    if b = CR then
      match s with
      | [] => .more
      | c :: t =>
        if c ≠ LF then .fail
        else if retCnt = 1 then .done () t
        else isCompleteFrom (retCnt + 1) t
    else if b = LF then
      if retCnt = 1 then .done () s
      else isCompleteFrom (retCnt + 1) s
    else isCompleteFrom 0 s

def isComplete (buf : Bytes) (lastLen : Nat) : Res UInt8 Unit :=
  isCompleteFrom 0 (buf.drop (lastLen - 3))

/-- `phr_parse_request`: a complete head leaves the bytes behind it; a buffer of which a part was
already seen incomplete is first searched for its end. -/
def phrParseRequest (buf : Bytes) (lastLen : Nat) : Res UInt8 PhrRequest :=
  if lastLen = 0 then parseRequest buf
  else match isComplete buf lastLen with
    | .done _ _ => parseRequest buf
    | .fail => .fail
    | .more => .more

end Hical
