import Hical.SessionStore.Store

namespace Hical

structure CookieOptions where
  path : String := "/"
  domain : String := ""
  maxAge : Int := -1
  httpOnly : Bool := true
  secure : Bool := true
  sameSite : String := "Lax"

def containsCRLF (s : String) : Bool := s.toList.any fun c => c == '\r' || c == '\n'

/-- A cookie name holds neither control characters nor separators. -/
def isValidCookieName (name : String) : Bool :=
  !name.isEmpty && name.toList.all fun c =>
    !(decide (c.toNat ≤ 0x20) || c.toNat == 0x7f || "()<>@,;:\\\"/[]?=\x7b\x7d".toList.contains c)

def kHexDigits : List Char := "0123456789ABCDEF".toList

def isSafe (c : Char) : Bool :=
  let c := c.toNat
  c == 0x21 || (decide (0x23 ≤ c) && decide (c ≤ 0x2b)) || (decide (0x2d ≤ c) && decide (c ≤ 0x3a)) ||
    (decide (0x3c ≤ c) && decide (c ≤ 0x5b)) || (decide (0x5d ≤ c) && decide (c ≤ 0x7e))

/-- The characters that a cookie value may not hold go as percent codes; a character is a byte here. -/
def encodeCookieValue (raw : String) : String :=
  String.ofList <| raw.toList.flatMap fun c =>
    if isSafe c then [c]
    else ['%', kHexDigits.getD (c.toNat / 16) '0', kHexDigits.getD (c.toNat % 16) '0']

def CookieOptions.attributes (options : CookieOptions) : String :=
  (if options.path.isEmpty then "" else "; Path=" ++ options.path) ++
    (if options.domain.isEmpty then "" else "; Domain=" ++ options.domain) ++
    (if 0 ≤ options.maxAge then "; Max-Age=" ++ toString options.maxAge else "") ++
    (if options.httpOnly then "; HttpOnly" else "") ++
    (if options.secure then "; Secure" else "") ++
    (if options.sameSite.isEmpty then "" else "; SameSite=" ++ options.sameSite)

def setCookie (name value : String) (options : CookieOptions) : Option String :=
  if !isValidCookieName name then none
  else if containsCRLF value then none
  else if containsCRLF options.path || containsCRLF options.domain || containsCRLF options.sameSite then none
  else some (name ++ "=" ++ encodeCookieValue value ++ options.attributes)

/-- The value that a client keeps of a `Set-Cookie` header. -/
def cookieValue (header : String) : String :=
  String.ofList (((header.toList.dropWhile (· != '=')).drop 1).takeWhile (· != ';'))

def kHex : List Char := "0123456789abcdef".toList

/-- The id that is made of 16 random bytes. -/
def generateId (buf : Vector UInt8 16) : SessionId :=
  String.ofList <| buf.toList.flatMap fun b => [kHex.getD (b.toNat / 16) '0', kHex.getD (b.toNat % 16) '0']

def SessionOptions.cookieOptions (opts : SessionOptions) : CookieOptions where
  maxAge := opts.maxAge
  httpOnly := opts.httpOnly
  secure := opts.secure
  sameSite := opts.sameSite
  path := opts.path

section Cookies
variable {opts : SessionOptions} {options : CookieOptions} {buf : Vector UInt8 16}

/-- Options with which `setCookie` writes the cookie. -/
def SessionOptions.writable (opts : SessionOptions) : Bool :=
  isValidCookieName opts.cookieName && !containsCRLF opts.path && !containsCRLF opts.sameSite

/-- A text that starts with the next attribute, if there is one. -/
def Attribute (s : String) : Prop := s.toList.takeWhile (· != ';') = []

theorem Attribute.append {s t : String} (hs : Attribute s) (ht : Attribute t) : Attribute (s ++ t) := by
  rw [Attribute, String.toList_append]
  cases h : s.toList with
  | nil => exact ht
  | cons c cs =>
    rw [Attribute, h] at hs
    have hc : c = ';' := by
      by_contra hne
      simp [hne] at hs
    simp [hc]

theorem attribute_ite {p : Prop} [Decidable p] {s : String} (hs : Attribute s) : Attribute (if p then s else "") := by
  split
  · exact hs
  · rfl

theorem attribute_ite' {p : Prop} [Decidable p] {s : String} (hs : Attribute s) : Attribute (if p then "" else s) := by
  split
  · rfl
  · exact hs

theorem attribute_attributes (options : CookieOptions) : Attribute options.attributes := by
  have named : ∀ name s : String, Attribute name → name ≠ "" → Attribute (name ++ s) := by
    intro name s hn hne
    rw [Attribute, String.toList_append]
    cases h : name.toList with
    | nil => exact absurd (String.toList_inj.1 h) hne
    | cons c cs =>
      rw [Attribute, h] at hn
      have hc : c = ';' := by
        by_contra hne
        simp [hne] at hn
      simp [hc]
  refine (((((attribute_ite' ?_).append (attribute_ite' ?_)).append (attribute_ite ?_)).append
    (attribute_ite ?_)).append (attribute_ite ?_)).append (attribute_ite' ?_)
  · exact named _ _ (by unfold Attribute; decide) (by decide)
  · exact named _ _ (by unfold Attribute; decide) (by decide)
  · exact named _ _ (by unfold Attribute; decide) (by decide)
  · unfold Attribute
    decide
  · unfold Attribute
    decide
  · exact named _ _ (by unfold Attribute; decide) (by decide)

theorem mem_generateId {c : Char} (hc : c ∈ (generateId buf).toList) : c ∈ kHex := by
  have digit : ∀ n < 16, kHex.getD n '0' ∈ kHex := by decide
  rw [generateId, String.toList_ofList, List.mem_flatMap] at hc
  obtain ⟨b, -, hc⟩ := hc
  have hb := b.toNat_lt
  rcases List.mem_pair.1 hc with rfl | rfl
  · exact digit _ (by omega)
  · exact digit _ (by omega)

theorem generateId_ne_empty : generateId buf ≠ "" := by
  intro h
  have hl := congrArg (fun s => s.toList.length) h
  simp [generateId, List.length_flatMap] at hl

theorem containsCRLF_generateId : containsCRLF (generateId buf) = false := by
  have digit : kHex.any (fun c => c == '\r' || c == '\n') = false := rfl
  rw [List.any_eq_false] at digit
  rw [containsCRLF, List.any_eq_false]
  intro c hc
  exact digit c (mem_generateId hc)

theorem encodeCookieValue_generateId : encodeCookieValue (generateId buf) = generateId buf := by
  have digit : ∀ c ∈ kHex, isSafe c = true := List.all_eq_true.1 rfl
  rw [encodeCookieValue, ← String.toList_inj, String.toList_ofList]
  have hall : ∀ l : List Char, (∀ c ∈ l, isSafe c = true) → (l.flatMap fun c =>
      if isSafe c then [c]
      else ['%', kHexDigits.getD (c.toNat / 16) '0', kHexDigits.getD (c.toNat % 16) '0']) = l := by
    intro l hl
    induction l with
    | nil => rfl
    | cons c l ih =>
      rw [List.flatMap_cons, if_pos (hl c (List.mem_cons_self ..)), List.singleton_append,
        ih fun c hc => hl c (List.mem_cons_of_mem _ hc)]
  exact hall _ fun c hc => digit c (mem_generateId hc)

theorem cookieValue_setCookie (hw : opts.writable = true) (buf : Vector UInt8 16) :
    ∃ cookie, setCookie opts.cookieName (generateId buf) opts.cookieOptions = some cookie ∧
      cookieValue cookie = generateId buf := by
  rw [SessionOptions.writable, Bool.and_eq_true, Bool.and_eq_true, Bool.not_eq_true', Bool.not_eq_true'] at hw
  obtain ⟨⟨hname, hpath⟩, hsite⟩ := hw
  refine ⟨opts.cookieName ++ "=" ++ generateId buf ++ opts.cookieOptions.attributes, ?_, ?_⟩
  · have hoptions : (containsCRLF opts.cookieOptions.path || containsCRLF opts.cookieOptions.domain ||
        containsCRLF opts.cookieOptions.sameSite) = false := by
      show (containsCRLF opts.path || containsCRLF "" || containsCRLF opts.sameSite) = false
      rw [hpath, hsite]
      rfl
    rw [setCookie, hname, containsCRLF_generateId, encodeCookieValue_generateId, hoptions]
    rfl
  · rw [isValidCookieName, Bool.and_eq_true, List.all_eq_true] at hname
    have htoken : ∀ c ∈ opts.cookieName.toList, (c != '=') = true := by
      intro c hc
      have h := hname.2 c hc
      rw [bne_iff_ne]
      rintro rfl
      exact absurd h (by decide)
    have hvalue : ∀ c ∈ (generateId buf).toList, (c != ';') = true := by
      have digit : ∀ c ∈ kHex, (c != ';') = true := List.all_eq_true.1 rfl
      exact fun c hc => digit c (mem_generateId hc)
    rw [cookieValue, ← String.toList_inj, String.toList_ofList]
    simp only [String.toList_append, List.append_assoc]
    rw [List.dropWhile_append_of_pos htoken]
    have hattributes : opts.cookieOptions.attributes.toList.takeWhile (· != ';') = [] :=
      attribute_attributes _
    show ((generateId buf).toList ++ opts.cookieOptions.attributes.toList).takeWhile (· != ';') = _
    rw [List.takeWhile_append_of_pos hvalue, hattributes, List.append_nil]

end Cookies

/-- What a handler does with its session, which is the one that `regenerate` gave it last. -/
inductive SessionAction (V : Type) where
  | set (key : String) (value : V)
  | remove (key : String)
  | clear
  | regenerate (now : Nat) (draws : List (Vector UInt8 16))
  | destroy

/-- A handler at work on its session. -/
structure Handling (V : Type) where
  manager : SessionManager V
  ref : Nat

namespace Handling
variable {V : Type}

def session (h : Handling V) : Session V := h.manager.session h.ref

def act (h : Handling V) : SessionAction V → Handling V
  | .set key value => { h with manager := h.manager.onSession h.ref fun s => s.set key value }
  | .remove key => { h with manager := h.manager.onSession h.ref fun s => s.remove key }
  | .clear => { h with manager := h.manager.onSession h.ref Session.clear }
  | .regenerate now draws =>
    match h.manager.regenerate now (draws.map generateId) h.session.id with
    | (m, .ok (some ref)) => { manager := m, ref }
    | (m, _) => { h with manager := m }
  | .destroy => { h with manager := h.manager.destroy h.session.id }

def run (h : Handling V) (actions : List (SessionAction V)) : Handling V := actions.foldl act h

end Handling

/-- The readings of the clock before the handler. -/
structure SessionClock where
  find : Nat
  create : CreateClock
  touch : Nat

namespace SessionManager
variable {V : Type}

/-- The session of a request with this cookie; none where the store is full. -/
def acquire (m : SessionManager V) (clock : SessionClock) (draws : List (Vector UInt8 16)) (sessionId : String) :
    SessionManager V × Except String (Option Nat) :=
  match if sessionId.isEmpty then none else m.find clock.find sessionId with
  | some ref => (m.onSession ref fun s => s.touch clock.touch, .ok (some ref))
  | none =>
    match m.create clock.create (draws.map generateId) with
    | (m, .ok (some ref)) => (m.onSession ref fun s => s.touch clock.touch, .ok (some ref))
    | (m, result) => (m, result)

/-- The `Set-Cookie` header behind the handler. -/
def refresh (m : SessionManager V) (ref : Nat) (sessionId : String) : Option String :=
  if (m.session ref).dirty || sessionId != (m.session ref).id then
    setCookie m.opts.cookieName (m.session ref).id m.opts.cookieOptions
  else none

end SessionManager

/-- What a client gets of a request. -/
inductive SessionReply where
  | handled (cookie : Option String)
  | storeFull
  | thrown (error : String)

/-- `makeSessionMiddleware`, around a handler that does this. -/
def sessionMiddleware (m : SessionManager V) (clock : SessionClock) (draws : List (Vector UInt8 16))
    (actions : List (SessionAction V)) (sessionId : String) : SessionManager V × SessionReply :=
  match m.acquire clock draws sessionId with
  | (m, .ok (some ref)) =>
    let m := (Handling.run ⟨m, ref⟩ actions).manager
    (m, .handled (m.refresh ref sessionId))
  | (m, .ok none) => (m, .storeFull)
  | (m, .error error) => (m, .thrown error)

end Hical
