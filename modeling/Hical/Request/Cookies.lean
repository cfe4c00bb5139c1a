import Hical.Request.Parsing

namespace Hical.Response
open Request

structure CookieOptions where
  path : Bytes := bytes "/"
  domain : Bytes := []
  maxAge : Int := -1
  httpOnly : Bool := true
  secure : Bool := true
  sameSite : Bytes := bytes "Lax"
  deriving DecidableEq

def isValidCookieName (name : Bytes) : Bool :=
  name != [] && name.all fun c =>
    !(decide (c ≤ 0x20) || c == 0x7f || (bytes "()<>@,;:\\\"/[]?=\x7b\x7d").contains c)

def isSafe (c : UInt8) : Bool :=
  c == 0x21 || (decide (0x23 ≤ c) && decide (c ≤ 0x2b)) || (decide (0x2d ≤ c) && decide (c ≤ 0x3a)) ||
    (decide (0x3c ≤ c) && decide (c ≤ 0x5b)) || (decide (0x5d ≤ c) && decide (c ≤ 0x7e))

def kHexDigits : Bytes := bytes "0123456789ABCDEF"

/-- What is written for a byte that is not safe. -/
def percentCode (c : UInt8) : Bytes :=
  [37, kHexDigits.getD (c.toNat / 16) 0, kHexDigits.getD (c.toNat % 16) 0]

def encodeCookieValue (raw : Bytes) : Bytes := raw.flatMap fun c => if isSafe c then [c] else percentCode c

def CookieOptions.attributes (options : CookieOptions) : Bytes :=
  (if options.path = [] then [] else bytes "; Path=" ++ options.path) ++
    ((if options.domain = [] then [] else bytes "; Domain=" ++ options.domain) ++
      ((if 0 ≤ options.maxAge then bytes "; Max-Age=" ++ decimal options.maxAge.toNat else []) ++
        ((if options.httpOnly then bytes "; HttpOnly" else []) ++
          ((if options.secure then bytes "; Secure" else []) ++
            if options.sameSite = [] then [] else bytes "; SameSite=" ++ options.sameSite))))

def cookieText (name value : Bytes) (options : CookieOptions) : Bytes :=
  name ++ (equalSign :: encodeCookieValue value) ++ options.attributes

def setCookie (r : Response) (name value : Bytes) (options : CookieOptions) : Response :=
  if !isValidCookieName name then r
  else if containsCRLF value then r
  else if containsCRLF options.path || containsCRLF options.domain || containsCRLF options.sameSite then r
  else { r with headers := r.headers.insert (bytes "Set-Cookie") (cookieText name value options) }

/-- A cookie that `setCookie` accepts. -/
structure Cookie where
  name : Bytes
  value : Bytes
  options : CookieOptions
  validName : isValidCookieName name = true
  validValue : containsCRLF value = false
  validOptions : (containsCRLF options.path || containsCRLF options.domain ||
    containsCRLF options.sameSite) = false

namespace Cookie

/-- The `Set-Cookie` header of a response with this cookie. -/
def emitted (c : Cookie) : Bytes :=
  (setCookie {} c.name c.value c.options).headers.find (bytes "Set-Cookie")

/-- What a client echoes of the header. -/
def pair (c : Cookie) : Bytes := (cut semicolon c.emitted).1

def echo (req : Request) (cookies : List Cookie) : Request :=
  { req with headers := ⟨bytes "Cookie", (bytes "; ").intercalate (cookies.map pair)⟩ :: req.headers }

end Cookie

/-- Values that are written as they are and as nothing else is. -/
structure Verbatim (value : Bytes) : Prop where
  safe : value.all isSafe = true
  uncoded : ∀ c, isSafe c = false → c ≠ CR → c ≠ LF → ¬ percentCode c <:+: value

namespace Cookie

theorem emitted_eq (c : Cookie) : c.emitted = cookieText c.name c.value c.options := by
  rw [emitted, setCookie, c.validName, c.validValue, c.validOptions]
  rfl

/-- A text that starts with the next attribute, if there is one. -/
def Attribute (s : Bytes) : Prop := (cut semicolon s).1 = []

theorem Attribute.nil : Attribute [] := rfl

theorem Attribute.cons (s : Bytes) : Attribute (semicolon :: s) := by
  rw [Attribute, cut_cons_self]

theorem Attribute.append (hs : Attribute s) (ht : Attribute t) : Attribute (s ++ t) := by
  cases s with
  | nil => exact ht
  | cons b s =>
    by_cases hb : b = semicolon
    · subst hb
      exact .cons _
    · rw [Attribute, cut_cons_ne hb] at hs
      cases hs

theorem attributes_attribute (options : CookieOptions) : Attribute options.attributes := by
  have hif : ∀ {p : Prop} [Decidable p] {s t : Bytes}, Attribute s → Attribute t →
      Attribute (if p then s else t) := by
    intro p _ s t hs ht
    split
    · exact hs
    · exact ht
  apply Attribute.append (hif .nil (.cons _))
  apply Attribute.append (hif .nil (.cons _))
  apply Attribute.append (hif (.cons _) .nil)
  apply Attribute.append (hif (.cons _) .nil)
  apply Attribute.append (hif (.cons _) .nil)
  exact hif .nil (.cons _)

theorem mem_name (c : Cookie) (hb : b ∈ c.name) :
    0x20 < b ∧ b ∉ bytes "()<>@,;:\\\"/[]?=\x7b\x7d" := by
  have h := c.validName
  rw [isValidCookieName, Bool.and_eq_true, List.all_eq_true] at h
  have hbyte := h.2 b hb
  rw [Bool.not_eq_true', Bool.or_eq_false_iff, Bool.or_eq_false_iff, decide_eq_false_iff_not] at hbyte
  apply And.intro (UInt8.not_le.1 hbyte.1.1)
  intro hmem
  exact absurd (List.contains_iff_mem.2 hmem) (ne_true_of_eq_false hbyte.2)

theorem not_mem_encodeCookieValue (h : isSafe b = false) (hcode : ∀ c, b ∉ percentCode c) (value : Bytes) :
    b ∉ encodeCookieValue value := by
  intro hb
  obtain ⟨c, -, hc⟩ := List.mem_flatMap.1 hb
  split at hc
  · next hsafe =>
    rw [List.mem_singleton.1 hc, hsafe] at h
    cases h
  · exact hcode c hc

theorem mem_percentCode (h : b ∈ percentCode c) : b = 37 ∨ b ∈ kHexDigits := by
  have hdigit : ∀ i < 16, kHexDigits.getD i 0 ∈ kHexDigits := by decide
  have hc : c.toNat < 256 := UInt8.toNat_lt c
  cases h with
  | head => exact .inl rfl
  | tail _ h =>
    cases h with
    | head => exact .inr (hdigit _ (by omega))
    | tail _ h =>
      cases h with
      | head => exact .inr (hdigit _ (by omega))
      | tail _ h => cases h

/-- The client keeps the name and what `setCookie` made of the value. -/
theorem pair_eq (c : Cookie) : c.pair = c.name ++ equalSign :: encodeCookieValue c.value := by
  have hname : semicolon ∉ c.name := fun hmem => (c.mem_name hmem).2 (by decide)
  have hcode : ∀ b, semicolon ∉ percentCode b := by
    intro b hb
    cases mem_percentCode hb with
    | inl h => exact absurd h (by decide)
    | inr h => exact absurd h (by decide)
  have hvalue : semicolon ∉ encodeCookieValue c.value := not_mem_encodeCookieValue (by decide) hcode _
  have hpair : semicolon ∉ c.name ++ equalSign :: encodeCookieValue c.value := by
    rw [List.mem_append, List.mem_cons]
    rintro (h | h | h)
    · exact hname h
    · exact absurd h (by decide)
    · exact hvalue h
  rw [pair, emitted_eq, cookieText, cut_append hpair, attributes_attribute, List.append_nil]

theorem not_mem_pair (c : Cookie) : semicolon ∉ c.pair := not_mem_cut semicolon c.emitted

theorem splitOn_pairs (c : Cookie) (cookies : List Cookie) :
    ((bytes "; ").intercalate ((c :: cookies).map pair)).splitOn semicolon =
      c.pair :: cookies.map fun d => SP :: d.pair := by
  have hrest : ∀ p, semicolon ∉ p → ((bytes "; ").intercalate (p :: cookies.map pair)).splitOn semicolon =
      p :: cookies.map fun d => SP :: d.pair := by
    induction cookies with
    | nil =>
      intro p hp
      rw [List.map_nil, List.map_nil, List.intercalate_singleton]
      exact List.splitOn_eq_singleton hp
    | cons d cookies ih =>
      intro p hp
      have hd : semicolon ∉ SP :: d.pair := by
        apply List.not_mem_cons_of_ne_of_not_mem
        · decide
        · exact d.not_mem_pair
      have hsep : (bytes "; ").intercalate (p :: d.pair :: cookies.map pair) =
          p ++ semicolon :: (bytes "; ").intercalate ((SP :: d.pair) :: cookies.map pair) := by
        rw [List.intercalate_cons_cons, List.append_assoc, List.intercalate_cons_cons_left]
        rfl
      rw [List.map_cons, hsep, List.splitOn_append_cons_self_of_not_mem hp, ih _ hd]
      rfl
  exact hrest _ c.not_mem_pair

theorem trim_name (c : Cookie) : trimWith (· == SP) c.name = c.name := by
  have hsp : ∀ b ∈ c.name, (b == SP) = false := by
    intro b hb
    apply beq_false_of_ne
    rintro rfl
    exact absurd (c.mem_name hb).1 (by decide)
  have hdrop : ∀ l : Bytes, (∀ b ∈ l, (b == SP) = false) → l.dropWhile (· == SP) = l := by
    intro l hl
    cases l with
    | nil => rfl
    | cons b l => exact List.dropWhile_cons_of_neg (ne_true_of_eq_false (hl b (List.mem_cons_self ..)))
  rw [trimWith, hdrop _ hsp, hdrop, List.reverse_reverse]
  intro b hb
  exact hsp b (List.mem_reverse.1 hb)

theorem name_cons (c : Cookie) : ∃ b rest, c.name = b :: rest ∧ b ≠ SP := by
  have hvalid := c.validName
  cases hname : c.name with
  | nil =>
    rw [hname] at hvalid
    cases hvalid
  | cons b rest =>
    have hb := (c.mem_name (hname ▸ List.mem_cons_self ..)).1
    exact ⟨b, rest, rfl, fun h => absurd (h ▸ hb) (by decide)⟩

theorem dropWhile_pair (c : Cookie) : c.pair.dropWhile (· == SP) = c.pair := by
  obtain ⟨b, rest, hname, hb⟩ := c.name_cons
  rw [pair_eq, hname]
  exact List.dropWhile_cons_of_neg (fun h => hb (beq_iff_eq.1 h))

theorem parseCookie_pair (c : Cookie) (m : ParamList)
    (htext : text.dropWhile (· == SP) = c.pair) :
    parseCookie m text = tryEmplace m c.name (encodeCookieValue c.value) := by
  have hname : equalSign ∉ c.name := fun hmem => (c.mem_name hmem).2 (by decide)
  obtain ⟨b, rest, hcons, -⟩ := c.name_cons
  rw [parseCookie, htext, pair_eq, cut_append_sep hname]
  simp only [trim_name]
  apply if_neg
  rw [hcons]
  exact List.cons_ne_nil b rest

/-- What `parseCookies` makes of the cookies, in the order of the header. -/
def readBack (cookies : List Cookie) : ParamList :=
  cookies.foldl (fun m c => tryEmplace m c.name (encodeCookieValue c.value)) []

theorem parseCookies_echo (req : Request) (c : Cookie) (cookies : List Cookie) :
    (echo req (c :: cookies)).parseCookies = readBack (c :: cookies) := by
  have hheader : (echo req (c :: cookies)).header (bytes "Cookie") =
      (bytes "; ").intercalate ((c :: cookies).map pair) := rfl
  have hrest : ∀ m, (cookies.map fun d => SP :: d.pair).foldl parseCookie m =
      cookies.foldl (fun m c => tryEmplace m c.name (encodeCookieValue c.value)) m := by
    intro m
    rw [List.foldl_map]
    congr 1
    funext m d
    apply parseCookie_pair
    rw [List.dropWhile_cons_of_pos rfl, dropWhile_pair]
  rw [parseCookies, hheader, splitOn_pairs, List.foldl_cons, parseCookie_pair c _ c.dropWhile_pair, hrest]
  rfl

theorem lookup_tryEmplace (m : ParamList) (name value key : Bytes) :
    lookup (tryEmplace m name value) key =
      (lookup m key).or (if name = key then some value else none) := by
  rw [tryEmplace]
  split
  · next hany =>
    by_cases hkey : name = key
    · subst hkey
      obtain ⟨p, hp, hname⟩ := List.any_eq_true.1 hany
      have hfound : (m.find? (·.1 == name)).isSome := List.find?_isSome.2 ⟨p, hp, hname⟩
      obtain ⟨q, hq⟩ := Option.isSome_iff_exists.1 hfound
      rw [lookup, hq]
      rfl
    · rw [if_neg hkey, Option.or_none]
  · rw [lookup, List.find?_append, Option.map_or]
    congr 1
    by_cases hkey : name = key
    · rw [List.find?_singleton, if_pos hkey, if_pos (beq_iff_eq.2 hkey)]
      rfl
    · rw [List.find?_singleton, if_neg hkey, if_neg (fun h => hkey (beq_iff_eq.1 h))]
      rfl

theorem lookup_readBack (cookies : List Cookie) (key : Bytes) :
    lookup (readBack cookies) key =
      (cookies.find? (·.name == key)).map fun c => encodeCookieValue c.value := by
  have hfold : ∀ m : ParamList,
      lookup (cookies.foldl (fun m c => tryEmplace m c.name (encodeCookieValue c.value)) m) key =
        (lookup m key).or ((cookies.find? (·.name == key)).map fun c => encodeCookieValue c.value) := by
    induction cookies with
    | nil =>
      intro m
      exact (Option.or_none ..).symm
    | cons c cookies ih =>
      intro m
      rw [List.foldl_cons, ih, lookup_tryEmplace, Option.or_assoc]
      congr 1
      by_cases hkey : c.name = key
      · rw [if_pos hkey, List.find?_cons, beq_iff_eq.2 hkey]
        rfl
      · rw [if_neg hkey, List.find?_cons, beq_false_of_ne hkey]
        rfl
  exact hfold []

theorem cookie_echo (req : Request) (before : List Cookie) (c : Cookie) (after : List Cookie) :
    (echo req (before ++ c :: after)).cookie c.name =
      encodeCookieValue (((before.find? (·.name == c.name)).getD c).value) := by
  have hparse : (echo req (before ++ c :: after)).parseCookies = readBack (before ++ c :: after) := by
    cases before with
    | nil => exact parseCookies_echo ..
    | cons d before => exact parseCookies_echo ..
  rw [cookie, hparse, lookup_readBack, List.find?_append, List.find?_cons, beq_self_eq_true]
  cases before.find? (·.name == c.name) with
  | none => rfl
  | some d => rfl

end Cookie

theorem encodeCookieValue_append (s t : Bytes) :
    encodeCookieValue (s ++ t) = encodeCookieValue s ++ encodeCookieValue t := List.flatMap_append

theorem encodeCookieValue_of_safe (h : s.all isSafe = true) : encodeCookieValue s = s := by
  induction s with
  | nil => rfl
  | cons b s ih =>
    rw [List.all_cons, Bool.and_eq_true] at h
    rw [encodeCookieValue, List.flatMap_cons, if_pos h.1]
    exact congrArg (b :: ·) (ih h.2)

theorem encodeCookieValue_escaped (h : isSafe u = false) (p s : Bytes) :
    encodeCookieValue (p ++ u :: s) = encodeCookieValue p ++ percentCode u ++ encodeCookieValue s := by
  rw [encodeCookieValue_append, List.append_assoc]
  congr 1
  rw [encodeCookieValue, List.flatMap_cons, h]
  rfl

theorem percentCode_safe (u : UInt8) : (percentCode u).all isSafe = true := by
  have hdigits : kHexDigits.all isSafe = true := by decide
  have hdigit := List.all_eq_true.1 hdigits
  apply List.all_eq_true.2
  intro b hb
  cases Cookie.mem_percentCode hb with
  | inl h =>
    subst h
    rfl
  | inr h => exact hdigit b h

theorem isSafe_not_crlf (h : isSafe b = true) : b ≠ CR ∧ b ≠ LF := by
  constructor
  · rintro rfl
    exact absurd h (by decide)
  · rintro rfl
    exact absurd h (by decide)

theorem encodeCookieValue_percentCode (h : isSafe u = false) (p s : Bytes) :
    encodeCookieValue (p ++ percentCode u ++ s) = encodeCookieValue (p ++ u :: s) := by
  rw [encodeCookieValue_escaped h, encodeCookieValue_append, encodeCookieValue_append,
    encodeCookieValue_of_safe (percentCode_safe u)]

theorem exists_unsafe (h : s.all isSafe ≠ true) : ∃ p u t, s = p ++ u :: t ∧ isSafe u = false := by
  have hmem : ∃ u ∈ s, isSafe u ≠ true := by
    by_contra hall
    push Not at hall
    exact h (List.all_eq_true.2 hall)
  obtain ⟨u, hu, hunsafe⟩ := hmem
  obtain ⟨p, t, hs⟩ := List.append_of_mem hu
  exact ⟨p, u, t, hs, eq_false_of_ne_true hunsafe⟩

namespace Cookie
variable {c d : Cookie}

theorem value_ne (c : Cookie) (hb : b ∈ c.value) : b ≠ CR ∧ b ≠ LF :=
  containsCRLF_eq_false.1 c.validValue b hb

theorem exists_cookie (c : Cookie) (h : ∀ b ∈ v, b ≠ CR ∧ b ≠ LF)
    (hencode : encodeCookieValue v = encodeCookieValue c.value) :
    ∃ d : Cookie, d.value = v ∧ d.emitted = c.emitted := by
  let d : Cookie := { c with value := v, validValue := containsCRLF_eq_false.2 h }
  have hemitted : d.emitted = c.emitted := by
    rw [emitted_eq, emitted_eq, cookieText, cookieText, hencode]
  exact ⟨d, rfl, hemitted⟩

theorem encode_eq_of_emitted (h : d.emitted = c.emitted) :
    encodeCookieValue d.value = encodeCookieValue c.value := by
  have hname : ∀ c : Cookie, equalSign ∉ c.name := fun c hmem => (c.mem_name hmem).2 (by decide)
  have hcut : ∀ c : Cookie, cut equalSign c.pair = (c.name, some (encodeCookieValue c.value)) := by
    intro c
    rw [pair_eq, cut_append_sep (hname c)]
  have hpair : d.pair = c.pair := by
    rw [pair, pair, h]
  have heq := (hcut d).symm.trans (hpair ▸ hcut c)
  injection heq with _ hvalue
  exact Option.some.inj hvalue

/-- No other value is written like this one. -/
def Distinct (c : Cookie) : Prop := ∀ d : Cookie, d.emitted = c.emitted → d.value = c.value

theorem Distinct.verbatim (h : c.Distinct) : Verbatim c.value := by
  constructor
  · by_contra hunsafe
    obtain ⟨p, u, s, hvalue, hu⟩ := exists_unsafe hunsafe
    have hb : ∀ b ∈ p ++ percentCode u ++ s, b ≠ CR ∧ b ≠ LF := by
      intro b hb
      rw [List.mem_append, List.mem_append] at hb
      rcases hb with (hb | hb) | hb
      · exact c.value_ne (hvalue ▸ List.mem_append_left _ hb)
      · exact isSafe_not_crlf (List.all_eq_true.1 (percentCode_safe u) b hb)
      · exact c.value_ne (hvalue ▸ List.mem_append_right _ (List.mem_cons_of_mem _ hb))
    obtain ⟨d, hd, hemitted⟩ := c.exists_cookie hb (hvalue ▸ encodeCookieValue_percentCode hu p s)
    have heq : p ++ percentCode u ++ s = p ++ u :: s := hd.symm.trans ((h d hemitted).trans hvalue)
    have hlength := congrArg List.length heq
    simp only [List.length_append, List.length_cons, percentCode, List.length_nil] at hlength
    omega
  · rintro u hu hcr hlf ⟨p, s, hvalue⟩
    have hb : ∀ b ∈ p ++ u :: s, b ≠ CR ∧ b ≠ LF := by
      intro b hb
      rw [List.mem_append, List.mem_cons] at hb
      rcases hb with hb | rfl | hb
      · exact c.value_ne (hvalue ▸ List.mem_append_left _ (List.mem_append_left _ hb))
      · exact ⟨hcr, hlf⟩
      · exact c.value_ne (hvalue ▸ List.mem_append_right _ hb)
    obtain ⟨d, hd, hemitted⟩ := c.exists_cookie hb (hvalue ▸ (encodeCookieValue_percentCode hu p s).symm)
    have heq : p ++ u :: s = p ++ percentCode u ++ s := hd.symm.trans ((h d hemitted).trans hvalue.symm)
    have hlength := congrArg List.length heq
    simp only [List.length_append, List.length_cons, percentCode, List.length_nil] at hlength
    omega

theorem distinct_of_verbatim (h : Verbatim c.value) : c.Distinct := by
  intro d hemitted
  have hencode := encode_eq_of_emitted hemitted
  rw [encodeCookieValue_of_safe h.safe] at hencode
  by_cases hsafe : d.value.all isSafe = true
  · exact (encodeCookieValue_of_safe hsafe).symm.trans hencode
  · obtain ⟨p, u, s, hvalue, hu⟩ := exists_unsafe hsafe
    have hcrlf := d.value_ne (hvalue ▸ List.mem_append_right _ (List.mem_cons_self ..))
    have hinfix : percentCode u <:+: c.value := by
      rw [← hencode, hvalue, encodeCookieValue_escaped hu]
      exact List.infix_append ..
    exact absurd hinfix (h.uncoded u hu hcrlf.1 hcrlf.2)

end Cookie

/-- Among the cookies that a client echoes, a handler reads the value that was set, and no other value
looks the same to the client, exactly when the value needs no percent code and looks like none, and the
first cookie of this name has it. -/
theorem cookie_round_trip_iff (req : Request) (before : List Cookie) (c : Cookie) (after : List Cookie) :
    ((Cookie.echo req (before ++ c :: after)).cookie c.name = c.value ∧
        ∀ d : Cookie, d.emitted = c.emitted → d.value = c.value) ↔
      Verbatim c.value ∧ ∀ d, before.find? (·.name == c.name) = some d → d.value = c.value := by
  rw [Cookie.cookie_echo]
  constructor
  · rintro ⟨hread, hdistinct⟩
    have hverbatim := Cookie.Distinct.verbatim hdistinct
    apply And.intro hverbatim
    intro d hd
    rw [hd, Option.getD_some] at hread
    have hencode : encodeCookieValue d.value = encodeCookieValue c.value := by
      rw [hread, encodeCookieValue_of_safe hverbatim.safe]
    obtain ⟨e, he, hemitted⟩ := c.exists_cookie (fun b hb => d.value_ne hb) hencode
    exact he.symm.trans (hdistinct e hemitted)
  · rintro ⟨hverbatim, hfirst⟩
    apply And.intro
    · have hvalue : ((before.find? (·.name == c.name)).getD c).value = c.value := by
        cases hd : before.find? (·.name == c.name) with
        | none => rfl
        | some d => exact hfirst d hd
      rw [hvalue, encodeCookieValue_of_safe hverbatim.safe]
    · exact Cookie.distinct_of_verbatim hverbatim

/-- A semicolon comes back as its percent code, and that code is a value of its own. -/
theorem cookie_semicolon :
    let req : Request := ⟨.hGet, bytes "/", 1, [], [], true, false, none, []⟩
    let c : Cookie := ⟨bytes "a", bytes ";", {}, by decide, by decide, by decide⟩
    let d : Cookie := ⟨bytes "a", bytes "%3B", {}, by decide, by decide, by decide⟩
    (Cookie.echo req [c]).cookie c.name = d.value ∧ d.emitted = c.emitted ∧ d.value ≠ c.value := by
  decide

end Hical.Response
