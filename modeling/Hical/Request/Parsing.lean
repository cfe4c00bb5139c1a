import Hical.Message
import Mathlib.Data.List.Infix

namespace Hical

def equalSign : UInt8 := 61

def ampersand : UInt8 := 38

namespace Request

def header (r : Request) (name : Bytes) : Bytes := r.headers.find name

def query (r : Request) : Bytes := ((cut 63 r.target).2).getD []

def contentType (r : Request) : Bytes := r.header (bytes "Content-Type")

def tryEmplace (m : ParamList) (name value : Bytes) : ParamList :=
  if m.any (·.1 == name) then m else m ++ [(name, value)]

/-- One turn of the loop of `parseCookies`. -/
def parseCookie (cookies : ParamList) (text : Bytes) : ParamList :=
  match cut equalSign (text.dropWhile (· == SP)) with
  | (_, none) => cookies
  | (name, some value) =>
    let name := trimWith (· == SP) name
    if name = [] then cookies else tryEmplace cookies name value

/-- `parseCookies`; a trailing semicolon only adds an empty pair. -/
def parseCookies (r : Request) : ParamList :=
  ((r.header (bytes "Cookie")).splitOn semicolon).foldl parseCookie []

/-- One turn of the loop of `parseUrlEncoded`. -/
def parseUrlPair (out : ParamList) (pair : Bytes) : ParamList :=
  let (rawKey, rawValue) := cut equalSign pair
  if rawKey = [] then out else out ++ [(urlDecode rawKey, urlDecode (rawValue.getD []))]

def parseUrlEncoded (input : Bytes) : ParamList := (input.splitOn ampersand).foldl parseUrlPair []

def parseQueryParams (r : Request) : ParamList := parseUrlEncoded r.query

def parseFormParams (r : Request) : ParamList :=
  if bytes "application/x-www-form-urlencoded" <:+: r.contentType then parseUrlEncoded r.body else []

/-- The value of a name, as `unordered_map::find` and `count` see it. -/
def lookup (m : ParamList) (name : Bytes) : Option Bytes := (m.find? (·.1 == name)).map (·.2)

def cookie (r : Request) (name : Bytes) : Bytes := (lookup r.parseCookies name).getD []

end Request

end Hical
