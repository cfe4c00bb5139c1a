import Hical.Http2.Headers

/-! The authorities that requests name, in `:authority` and in `host`. -/

namespace Hical.Http2

def kHttpPort : Nat := 80

def kHttpsPort : Nat := 443

def kMaxPort : Nat := 65535

def validScheme (scheme : Bytes) : Bool :=
  scheme.head?.any isAlpha &&
    scheme.all fun c => isAlpha c || isDigit c || (bytes "+-.").contains c

/-- `ipv6` are the octets of the address. -/
structure Authority where
  host : Bytes
  port : Option Nat := none
  ipv6 : Option Bytes := none
  deriving DecidableEq, Repr

namespace Authority

def forbidden : Bytes := bytes "@/?#\\"

def kHostSpecial : Bytes := bytes "!$%&'()*+,-.;=_~"

def hostCharacter (c : UInt8) : Bool := isAlpha c || isDigit c || kHostSpecial.contains c

def lbracket : UInt8 := 91

def rbracket : UInt8 := 93

def percent : UInt8 := 37

/-- An authority with what stands behind its colon, if there is one. -/
def withPort (host : Bytes) (ipv6 : Option Bytes) : Option Bytes → Option Authority
  | none => some { host, ipv6 }
  | some port =>
    match unsignedDecimal port with
    | none => none
    | some number => if kMaxPort < number then none else some { host, port := some number, ipv6 }

/-- The branch of an address literal, behind its opening bracket. -/
def parseLiteral (makeAddressV6 : Bytes → Option Bytes) (inner : Bytes) : Option Authority :=
  match cut rbracket inner with
  | (_, none) => none
  | (literal, some rest) =>
    if literal = [] ∨ percent ∈ literal then none
    else
      match makeAddressV6 literal with
      | none => none
      | some ipv6 =>
        let host := lbracket :: literal ++ [rbracket]
        match rest with
        | [] => withPort host ipv6 none
        | c :: port => if c ≠ colon then none else withPort host ipv6 (some port)

def parseName (value : Bytes) : Option Authority :=
  let (host, port) := cut colon value
  if port.any (·.contains colon) then none
  else if host = [] ∨ host.all hostCharacter = false then none
  else withPort host none port

/-- `parseAuthority`, where `make_address_v6` gives no address for an error. -/
def parseAuthority (makeAddressV6 : Bytes → Option Bytes) (value : Bytes) : Option Authority :=
  if value = [] ∨ value.any forbidden.contains then none
  else if value.head? = some lbracket then parseLiteral makeAddressV6 value.tail
  else parseName value

def defaultPort (scheme : Bytes) : Option Nat :=
  if iequals scheme (bytes "https") then some kHttpsPort
  else if iequals scheme (bytes "http") then some kHttpPort
  else none

def sameAuthority (first second : Authority) (scheme : Bytes) : Bool :=
  if first.ipv6 ≠ second.ipv6 ∨ (first.ipv6 = none ∧ iequals first.host second.host = false) then false
  else (first.port <|> defaultPort scheme) == (second.port <|> defaultPort scheme)

inductive IsPort : Bytes → Option Nat → Prop where
  | absent : IsPort [] none
  | given (h : unsignedDecimal digits = some number) (hn : number ≤ kMaxPort) :
      IsPort (colon :: digits) (some number)

/-- How an authority is written. -/
inductive IsAuthority (makeAddressV6 : Bytes → Option Bytes) : Bytes → Authority → Prop where
  | literal {literal port ipv6 : Bytes} {number : Option Nat} (hne : literal ≠ [])
      (hclosed : rbracket ∉ literal) (hzone : percent ∉ literal)
      (hallowed : ∀ c ∈ literal, c ∉ forbidden) (haddress : makeAddressV6 literal = some ipv6)
      (hport : IsPort port number) :
      IsAuthority makeAddressV6 (lbracket :: literal ++ rbracket :: port)
        ⟨lbracket :: literal ++ [rbracket], number, some ipv6⟩
  | name {host port : Bytes} {number : Option Nat} (hne : host ≠ [])
      (hhost : ∀ c ∈ host, hostCharacter c = true) (hport : IsPort port number) :
      IsAuthority makeAddressV6 (host ++ port) ⟨host, number, none⟩

/-- What stands in an authority behind its host. -/
def portText : Option Bytes → Bytes
  | none => []
  | some port => colon :: port

theorem withPort_iff (host : Bytes) (ipv6 port : Option Bytes) (a : Authority) :
    withPort host ipv6 port = some a ↔
      ∃ number, IsPort (portText port) number ∧ a = ⟨host, number, ipv6⟩ := by
  constructor
  · intro h
    cases port with
    | none =>
      cases h
      exact ⟨none, .absent, rfl⟩
    | some port =>
      rw [withPort] at h
      cases hnumber : unsignedDecimal port with
      | none =>
        rw [hnumber] at h
        cases h
      | some number =>
        rw [hnumber] at h
        dsimp only at h
        split at h
        · cases h
        next hle =>
          cases h
          exact ⟨some number, .given hnumber (Nat.le_of_not_lt hle), rfl⟩
  · rintro ⟨number, hport, rfl⟩
    cases port with
    | none =>
      cases hport
      rfl
    | some port =>
      cases hport with
      | given hnumber hle =>
        rw [withPort, hnumber]
        exact if_neg (Nat.not_lt_of_le hle)

theorem isDigit_of_decimal (h : unsignedDecimal digits = some number) :
    ∀ c ∈ digits, isDigit c = true := by
  unfold unsignedDecimal at h
  split at h
  · cases h
  next hdigits =>
    simp only [Bool.or_eq_true, Bool.not_eq_true', not_or, Bool.not_eq_false] at hdigits
    exact List.all_eq_true.1 hdigits.2

theorem not_forbidden_of_digit (h : isDigit c = true) : c ∉ forbidden := by
  intro hc
  have hall : forbidden.all (fun c => !isDigit c) = true := by decide
  have := List.all_eq_true.1 hall c hc
  rw [h] at this
  cases this

theorem not_forbidden_of_host (h : hostCharacter c = true) : c ∉ forbidden := by
  intro hc
  have hall : forbidden.all (fun c => !hostCharacter c) = true := by decide
  have := List.all_eq_true.1 hall c hc
  rw [h] at this
  cases this

theorem IsPort.text {port : Bytes} (h : IsPort port number) :
    (∀ c ∈ port, c ∉ forbidden) ∧ ∃ text, port = portText text ∧ ∀ p, text = some p → colon ∉ p := by
  cases h with
  | absent => exact ⟨fun c hc => absurd hc List.not_mem_nil, none, rfl, nofun⟩
  | given hdigits hle =>
    have hall := isDigit_of_decimal hdigits
    refine ⟨?_, some _, rfl, ?_⟩
    · intro c hc
      rw [List.mem_cons] at hc
      cases hc with
      | inl hc =>
        subst hc
        decide
      | inr hc => exact not_forbidden_of_digit (hall c hc)
    · intro p hp hcolon
      cases hp
      have := hall colon hcolon
      cases this

theorem any_forbidden (value : Bytes) :
    value.any forbidden.contains = false ↔ ∀ c ∈ value, c ∉ forbidden := by
  rw [List.any_eq_false]
  simp only [List.contains_iff_mem]

theorem parseLiteral_iff (makeAddressV6 : Bytes → Option Bytes) (inner : Bytes) (a : Authority)
    (hallowed : ∀ c ∈ inner, c ∉ forbidden) :
    parseLiteral makeAddressV6 inner = some a ↔
      IsAuthority makeAddressV6 (lbracket :: inner) a := by
  constructor
  · intro h
    unfold parseLiteral at h
    split at h
    · cases h
    next literal rest hcut =>
      obtain ⟨rfl, hclosed⟩ := cut_some hcut
      split at h
      · cases h
      next hliteral =>
        rw [not_or] at hliteral
        split at h
        · cases h
        next ipv6 haddress =>
          have hport : ∃ number, IsPort rest number ∧
              a = ⟨lbracket :: literal ++ [rbracket], number, some ipv6⟩ := by
            cases rest with
            | nil => exact (withPort_iff _ _ none a).1 h
            | cons c port =>
              dsimp only at h
              split at h
              · cases h
              next hcolon =>
                rw [not_not.1 hcolon]
                exact (withPort_iff _ _ (some port) a).1 h
          obtain ⟨number, hport, rfl⟩ := hport
          exact .literal hliteral.1 hclosed hliteral.2
            (fun c hc => hallowed c (List.mem_append_left _ hc)) haddress hport
  · intro h
    generalize hvalue : lbracket :: inner = value at h
    cases h with
    | @literal literal port ipv6 number hne hclosed hzone _ haddress hport =>
      have hinner : inner = literal ++ rbracket :: port := (List.cons.inj hvalue).2
      rw [hinner, parseLiteral, cut_append_sep hclosed]
      dsimp only
      rw [if_neg (not_or.2 ⟨hne, hzone⟩), haddress]
      dsimp only
      cases hport with
      | absent => exact (withPort_iff _ _ none _).2 ⟨none, .absent, rfl⟩
      | given hnumber hle =>
        dsimp only
        rw [if_neg (not_not.2 rfl)]
        exact (withPort_iff _ _ (some _) _).2 ⟨_, .given hnumber hle, rfl⟩
    | @name host port _ hne hhost _ =>
      cases host with
      | nil => exact absurd rfl hne
      | cons c host =>
        cases hvalue
        have := hhost lbracket List.mem_cons_self
        cases this

theorem parseName_iff (makeAddressV6 : Bytes → Option Bytes) (value : Bytes) (a : Authority)
    (hhead : value.head? ≠ some lbracket) :
    parseName value = some a ↔ IsAuthority makeAddressV6 value a := by
  constructor
  · intro h
    rw [parseName] at h
    cases hcut : cut colon value with
    | mk host port =>
      rw [hcut] at h
      dsimp only at h
      split at h
      · cases h
      · split at h
        · cases h
        next hhost =>
          rw [not_or, Bool.not_eq_false] at hhost
          obtain ⟨number, hport, rfl⟩ := (withPort_iff host none port a).1 h
          have hvalue : value = host ++ portText port := by
            cases port with
            | none => rw [portText, List.append_nil, (cut_none hcut).1]
            | some port => exact (cut_some hcut).1
          rw [hvalue]
          exact .name hhost.1 (List.all_eq_true.1 hhost.2) hport
  · intro h
    cases h with
    | literal => exact absurd rfl hhead
    | @name host port number hne hhost hport =>
      obtain ⟨-, text, htext, hcolon⟩ := hport.text
      have hnot : colon ∉ host := by
        intro hmem
        have := hhost colon hmem
        cases this
      have hcut : cut colon (host ++ port) = (host, text) := by
        rw [htext]
        cases text with
        | none => rw [portText, List.append_nil, cut_eq_self hnot]
        | some text => exact cut_append_sep hnot text
      rw [parseName, hcut]
      dsimp only
      rw [if_neg, if_neg (not_or.2 ⟨hne, by rw [List.all_eq_true.2 hhost]; exact Bool.noConfusion⟩)]
      · rw [withPort_iff, ← htext]
        exact ⟨number, hport, rfl⟩
      · cases text with
        | none => exact Bool.noConfusion
        | some text =>
          rw [Option.any_some, List.contains_iff_mem]
          exact hcolon text rfl

/-- The authorities that are taken are those that are written as they should be. -/
theorem parseAuthority_iff (makeAddressV6 : Bytes → Option Bytes) (value : Bytes) (a : Authority) :
    parseAuthority makeAddressV6 value = some a ↔ IsAuthority makeAddressV6 value a := by
  have hsound (h : IsAuthority makeAddressV6 value a) :
      ¬(value = [] ∨ value.any forbidden.contains = true) := by
    rw [not_or, Bool.not_eq_true, any_forbidden]
    cases h with
    | literal hne hclosed hzone hallowed haddress hport =>
      refine ⟨nofun, fun c hc => ?_⟩
      rw [List.cons_append, List.mem_cons, List.mem_append, List.mem_cons] at hc
      obtain rfl | hc | rfl | hc := hc
      · decide
      · exact hallowed c hc
      · decide
      · exact hport.text.1 c hc
    | name hne hhost hport =>
      refine ⟨fun h => hne (List.append_eq_nil_iff.1 h).1, fun c hc => ?_⟩
      cases List.mem_append.1 hc with
      | inl hc => exact not_forbidden_of_host (hhost c hc)
      | inr hc => exact hport.text.1 c hc
  rw [parseAuthority]
  by_cases hbad : value = [] ∨ value.any forbidden.contains = true
  · rw [if_pos hbad]
    exact ⟨(nomatch ·), fun h => absurd hbad (hsound h)⟩
  · rw [if_neg hbad]
    rw [not_or, Bool.not_eq_true, any_forbidden] at hbad
    split
    next hhead =>
      obtain ⟨inner, rfl⟩ := List.head?_eq_some_iff.1 hhead
      exact parseLiteral_iff makeAddressV6 inner a fun c hc => hbad.2 c (List.mem_cons_of_mem _ hc)
    next hhead => exact parseName_iff makeAddressV6 value a hhead

end Authority

end Hical.Http2
