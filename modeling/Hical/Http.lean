import Hical.Bytes

namespace Hical

inductive HttpMethod where
  | hGet | hPost | hPut | hDelete | hPatch | hHead | hOptions | hUnknown
  deriving DecidableEq, Repr

/-- The underlying value of the enumeration, which is also its bit in a method mask. -/
def HttpMethod.toNat : HttpMethod → Nat
  | .hGet => 0
  | .hPost => 1
  | .hPut => 2
  | .hDelete => 3
  | .hPatch => 4
  | .hHead => 5
  | .hOptions => 6
  | .hUnknown => 7

/-- Every enumerator, in declaration order. -/
def HttpMethod.all : List HttpMethod :=
  [.hGet, .hPost, .hPut, .hDelete, .hPatch, .hHead, .hOptions, .hUnknown]

theorem HttpMethod.mem_all (m : HttpMethod) : m ∈ HttpMethod.all := by
  cases m <;> decide

def httpMethodToString : HttpMethod → Bytes
  | .hGet => bytes "GET"
  | .hPost => bytes "POST"
  | .hPut => bytes "PUT"
  | .hDelete => bytes "DELETE"
  | .hPatch => bytes "PATCH"
  | .hHead => bytes "HEAD"
  | .hOptions => bytes "OPTIONS"
  | .hUnknown => bytes "UNKNOWN"

/-- The method name of a request line; the leading-character switch of the source only narrows the
comparisons. -/
def methodFromStringView (sv : Bytes) : HttpMethod :=
  if sv = bytes "GET" then .hGet
  else if sv = bytes "POST" then .hPost
  else if sv = bytes "PUT" then .hPut
  else if sv = bytes "PATCH" then .hPatch
  else if sv = bytes "DELETE" then .hDelete
  else if sv = bytes "HEAD" then .hHead
  else if sv = bytes "OPTIONS" then .hOptions
  else .hUnknown

/-- `HeaderMap::toLower`: only `A`..`Z` change. -/
def toLower (c : UInt8) : UInt8 :=
  if 65 ≤ c ∧ c ≤ 90 then c + 32 else c

def iequals (a b : Bytes) : Bool :=
  a.map toLower == b.map toLower

/-- A header field, as `RequestHeaders::Entry` and `HeaderMap::Entry` hold it. -/
structure Field where
  name : Bytes
  value : Bytes
  deriving DecidableEq, Repr

/-- A header container: the fields in order of insertion. -/
abbrev Fields := List Field

namespace Fields

def find (h : Fields) (name : Bytes) : Bytes :=
  match List.find? (fun e => iequals e.name name) h with
  | some e => e.value
  | none => []

def set : Fields → Bytes → Bytes → Fields
  | [], name, value => [⟨name, value⟩]
  | e :: h, name, value =>
    if iequals e.name name then ⟨e.name, value⟩ :: h else e :: set h name value

def insert (h : Fields) (name value : Bytes) : Fields :=
  h ++ [⟨name, value⟩]

def erase (h : Fields) (name : Bytes) : Fields :=
  h.filter fun e => !iequals e.name name

end Fields

theorem iequals_iff : iequals a b = true ↔ a.map toLower = b.map toLower := beq_iff_eq

@[simp] theorem iequals_self (a : Bytes) : iequals a a = true := iequals_iff.2 rfl

theorem iequals_other (h : iequals a b = true) (hne : iequals b c = false) : iequals a c = false := by
  rw [iequals, iequals_iff.1 h]
  exact hne

namespace Fields
variable {h : Fields} {name name' value : Bytes}

theorem find_cons (e : Field) (h : Fields) (name : Bytes) :
    find (e :: h) name = if iequals e.name name then e.value else h.find name := by
  rw [find, List.find?_cons]
  cases iequals e.name name with
  | false => rfl
  | true => rfl

theorem find_set_self (h : Fields) (name value : Bytes) : (h.set name value).find name = value := by
  induction h with
  | nil => rw [set, find_cons, if_pos (iequals_self name)]
  | cons e h ih =>
    rw [set]
    by_cases he : iequals e.name name = true
    · rw [if_pos he, find_cons, if_pos he]
    · rw [if_neg he, find_cons, if_neg he, ih]

theorem find_set_other (hne : iequals name name' = false) (h : Fields) (value : Bytes) :
    (h.set name value).find name' = h.find name' := by
  induction h with
  | nil => rw [set, find_cons, hne, if_neg Bool.false_ne_true]
  | cons e h ih =>
    rw [set]
    by_cases he : iequals e.name name = true
    · rw [if_pos he, find_cons, find_cons, iequals_other he hne]
      rfl
    · rw [if_neg he, find_cons, find_cons, ih]

theorem find_erase_self (h : Fields) (name : Bytes) : (h.erase name).find name = [] := by
  induction h with
  | nil => rfl
  | cons e h ih =>
    by_cases he : iequals e.name name = true
    · have hdrop : erase (e :: h) name = erase h name := List.filter_cons_of_neg (by rw [he]; decide)
      rw [hdrop, ih]
    · have hkeep : erase (e :: h) name = e :: erase h name :=
        List.filter_cons_of_pos (Bool.not_eq_true' _ ▸ eq_false_of_ne_true he)
      rw [hkeep, find_cons, if_neg he, ih]

theorem find_erase_other (hne : iequals name name' = false) (h : Fields) :
    (h.erase name).find name' = h.find name' := by
  induction h with
  | nil => rfl
  | cons e h ih =>
    by_cases he : iequals e.name name = true
    · have hdrop : erase (e :: h) name = erase h name := List.filter_cons_of_neg (by rw [he]; decide)
      rw [hdrop, ih, find_cons, iequals_other he hne, if_neg Bool.false_ne_true]
    · have hkeep : erase (e :: h) name = e :: erase h name :=
        List.filter_cons_of_pos (Bool.not_eq_true' _ ▸ eq_false_of_ne_true he)
      rw [hkeep, find_cons, find_cons, ih]

end Fields

end Hical
