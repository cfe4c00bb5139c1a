import Hical.Http2.Authority
import Mathlib.Data.List.Induction

/-! Which header blocks are valid, as a property of the whole list of fields, and what becomes of
the fields of a valid one. -/

namespace Hical.Http2

open Http2Headers (isPseudo isCookie fieldSize)

namespace HeaderRules
variable (makeAddressV6 : Bytes → Option Bytes)

def valueOf (fs : Fields) (name : Bytes) : Bytes :=
  ((fs.find? fun f => f.name == name).map Field.value).getD []

def PseudoOk (kind : HeaderKind) (f : Field) : Prop :=
  f.value ≠ [] ∧
    match kind with
    | .hTrailers => False
    | .hResponse =>
      f.name = bytes ":status" ∧ f.value.length = 3 ∧ (∀ c ∈ f.value, isDigit c = true) ∧
        f.value.head? ≠ some 48 ∧ f.value ≠ bytes "101"
    | .hRequest =>
      (f.name = bytes ":method" ∧ token f.value false = true) ∨
        (f.name = bytes ":scheme" ∧ validScheme f.value = true) ∨
        (f.name = bytes ":authority" ∧ ∃ a, Authority.IsAuthority makeAddressV6 f.value a) ∨
        (f.name = bytes ":path" ∧ ∀ c ∈ f.value, c ≠ 35 ∧ 0x20 < c ∧ c ≠ 0x7f)

/-- An ordinary field that a block of this kind may have. -/
structure RegularOk (kind : HeaderKind) (f : Field) : Prop where
  connection : f.name ∉ kConnectionFields
  trailer : kind = .hTrailers → ¬bytes "if-" <+: f.name ∧ f.name ∉ kForbiddenTrailers
  te : f.name = bytes "te" → kind = .hRequest ∧ iequals f.value (bytes "trailers") = true
  length : f.name = bytes "content-length" → ∃ n, unsignedDecimal f.value = some n
  host : kind = .hRequest → f.name = bytes "host" → ∃ a, Authority.IsAuthority makeAddressV6 f.value a

/-- The rules for the fields of a block, apart from those for what it must have. -/
structure Rules (kind : HeaderKind) (options : Http2Options) (fs : Fields) : Prop where
  count : fs.length ≤ options.maxHeaderFields.toNat
  size : (fs.map fun f => fieldSize f.name f.value).sum ≤ options.maxHeaderBytes.toNat
  names : ∀ f ∈ fs, token (if isPseudo f.name then f.name.tail else f.name) true = true
  values : ∀ f ∈ fs, validValue f.value = true
  pseudoFirst : fs.Pairwise fun f g => isPseudo g.name = true → isPseudo f.name = true
  pseudoOnce : fs.Pairwise fun f g => isPseudo g.name = true → f.name ≠ g.name
  pseudoOk : ∀ f ∈ fs, isPseudo f.name = true → PseudoOk makeAddressV6 kind f
  regularOk : ∀ f ∈ fs, isPseudo f.name = false → RegularOk makeAddressV6 kind f
  lengthOnce : fs.Pairwise fun f g => g.name = bytes "content-length" → f.name ≠ bytes "content-length"
  hostOnce : kind = .hRequest →
    fs.Pairwise fun f g => g.name = bytes "host" → f.name ≠ bytes "host"

/-- What a request must have. -/
structure RequestComplete (fs : Fields) : Prop where
  method : valueOf fs (bytes ":method") ≠ []
  connect : valueOf fs (bytes ":method") = bytes "CONNECT" →
    valueOf fs (bytes ":scheme") = [] ∧ valueOf fs (bytes ":path") = [] ∧
      ∃ a port, Authority.IsAuthority makeAddressV6 (valueOf fs (bytes ":authority")) a ∧
        a.port = some port
  ordinary : valueOf fs (bytes ":method") ≠ bytes "CONNECT" →
    valueOf fs (bytes ":scheme") ≠ [] ∧ valueOf fs (bytes ":path") ≠ []
  http : valueOf fs (bytes ":method") ≠ bytes "CONNECT" →
    (iequals (valueOf fs (bytes ":scheme")) (bytes "http") = true ∨
      iequals (valueOf fs (bytes ":scheme")) (bytes "https") = true) →
    (valueOf fs (bytes ":authority") ≠ [] ∨ valueOf fs (bytes "host") ≠ []) ∧
      ((valueOf fs (bytes ":path")).head? = some slash ∨
        (valueOf fs (bytes ":method") = bytes "OPTIONS" ∧ valueOf fs (bytes ":path") = bytes "*"))
  target : valueOf fs (bytes ":authority") ≠ [] → valueOf fs (bytes "host") ≠ [] →
    ∀ first second, Authority.IsAuthority makeAddressV6 (valueOf fs (bytes ":authority")) first →
      Authority.IsAuthority makeAddressV6 (valueOf fs (bytes "host")) second →
      Authority.sameAuthority first second (valueOf fs (bytes ":scheme")) = true

/-- What a block of this kind must have. -/
def Complete (kind : HeaderKind) (fs : Fields) : Prop :=
  match kind with
  | .hTrailers => True
  | .hResponse => ∃ code, unsignedDecimal (valueOf fs (bytes ":status")) = some code ∧
      (code / 100 = 1 → ∀ f ∈ fs, f.name ≠ bytes "content-length")
  | .hRequest => RequestComplete makeAddressV6 fs

structure Valid (kind : HeaderKind) (options : Http2Options) (fs : Fields) : Prop where
  rules : Rules makeAddressV6 kind options fs
  complete : Complete makeAddressV6 kind fs

/-- The first cookie takes the values of all the others. -/
def mergeCookies : Fields → Fields
  | [] => []
  | f :: fs =>
    if isCookie f then
      ⟨f.name, (bytes "; ").intercalate (f.value :: (fs.filter isCookie).map Field.value)⟩ ::
        fs.filter (!isCookie ·)
    else f :: mergeCookies fs

/-- The `host` of a request names its authority. -/
def withHost (authority : Bytes) (fs : Fields) : Fields :=
  if authority = [] then fs
  else if fs.any (·.name == bytes "host") then
    fs.map fun f => if f.name = bytes "host" then ⟨f.name, authority⟩ else f
  else fs ++ [⟨bytes "host", authority⟩]

/-- The fields of a valid block, as the application sees them. -/
def normalized (kind : HeaderKind) (fs : Fields) : Fields :=
  match kind with
  | .hRequest =>
    withHost (valueOf fs (bytes ":authority")) ((mergeCookies fs).filter (!isPseudo ·.name))
  | _ => fs.filter (!isPseudo ·.name)

variable {makeAddressV6}

/-- What one more field must meet behind these. -/
structure Allows (makeAddressV6 : Bytes → Option Bytes) (kind : HeaderKind) (options : Http2Options)
    (fs : Fields) (f : Field) : Prop where
  count : fs.length < options.maxHeaderFields.toNat
  size : (fs.map fun f => fieldSize f.name f.value).sum + fieldSize f.name f.value ≤
    options.maxHeaderBytes.toNat
  name : token (if isPseudo f.name then f.name.tail else f.name) true = true
  value : validValue f.value = true
  pseudoFirst : isPseudo f.name = true → ∀ g ∈ fs, isPseudo g.name = true
  pseudoOnce : isPseudo f.name = true → ∀ g ∈ fs, g.name ≠ f.name
  pseudoOk : isPseudo f.name = true → PseudoOk makeAddressV6 kind f
  regularOk : isPseudo f.name = false → RegularOk makeAddressV6 kind f
  lengthOnce : f.name = bytes "content-length" → ∀ g ∈ fs, g.name ≠ bytes "content-length"
  hostOnce : kind = .hRequest → f.name = bytes "host" → ∀ g ∈ fs, g.name ≠ bytes "host"

theorem pairwise_snoc {R : Field → Field → Prop} (fs : Fields) (f : Field) :
    (fs ++ [f]).Pairwise R ↔ fs.Pairwise R ∧ ∀ g ∈ fs, R g f := by
  rw [List.pairwise_append]
  constructor
  · intro h
    exact ⟨h.1, fun g hg => h.2.2 g hg f List.mem_cons_self⟩
  · intro h
    refine ⟨h.1, List.pairwise_singleton _ _, fun g hg g' hg' => ?_⟩
    rw [List.mem_singleton.1 hg']
    exact h.2 g hg

theorem rules_nil (kind : HeaderKind) (options : Http2Options) :
    Rules makeAddressV6 kind options [] where
  count := Nat.zero_le _
  size := Nat.zero_le _
  names := fun _ h => absurd h List.not_mem_nil
  values := fun _ h => absurd h List.not_mem_nil
  pseudoFirst := .nil
  pseudoOnce := .nil
  pseudoOk := fun _ h => absurd h List.not_mem_nil
  regularOk := fun _ h => absurd h List.not_mem_nil
  lengthOnce := .nil
  hostOnce := fun _ => .nil

theorem rules_snoc (kind : HeaderKind) (options : Http2Options) (fs : Fields) (f : Field) :
    Rules makeAddressV6 kind options (fs ++ [f]) ↔
      Rules makeAddressV6 kind options fs ∧ Allows makeAddressV6 kind options fs f := by
  have hsum : ((fs ++ [f]).map fun f => fieldSize f.name f.value).sum =
      (fs.map fun f => fieldSize f.name f.value).sum + fieldSize f.name f.value := by
    rw [List.map_append, List.sum_append, List.map_singleton, List.sum_singleton]
  have hlast : f ∈ fs ++ [f] := List.mem_append_right _ List.mem_cons_self
  have hfront {g : Field} (hg : g ∈ fs) : g ∈ fs ++ [f] := List.mem_append_left _ hg
  have hall {P : Field → Prop} (hfs : ∀ g ∈ fs, P g) (hf : P f) : ∀ g ∈ fs ++ [f], P g := by
    intro g hg
    cases List.mem_append.1 hg with
    | inl hg => exact hfs g hg
    | inr hg =>
      rw [List.mem_singleton.1 hg]
      exact hf
  constructor
  · intro h
    have hcount := h.count
    have hsize := h.size
    rw [List.length_append, List.length_singleton] at hcount
    rw [hsum] at hsize
    obtain ⟨hfirst, hfirst'⟩ := (pairwise_snoc fs f).1 h.pseudoFirst
    obtain ⟨honce, honce'⟩ := (pairwise_snoc fs f).1 h.pseudoOnce
    obtain ⟨hlength, hlength'⟩ := (pairwise_snoc fs f).1 h.lengthOnce
    exact ⟨{
      count := by omega
      size := by omega
      names := fun g hg => h.names g (hfront hg)
      values := fun g hg => h.values g (hfront hg)
      pseudoFirst := hfirst
      pseudoOnce := honce
      pseudoOk := fun g hg => h.pseudoOk g (hfront hg)
      regularOk := fun g hg => h.regularOk g (hfront hg)
      lengthOnce := hlength
      hostOnce := fun hk => ((pairwise_snoc fs f).1 (h.hostOnce hk)).1 }, {
      count := hcount
      size := hsize
      name := h.names f hlast
      value := h.values f hlast
      pseudoFirst := fun hp g hg => hfirst' g hg hp
      pseudoOnce := fun hp g hg => honce' g hg hp
      pseudoOk := h.pseudoOk f hlast
      regularOk := h.regularOk f hlast
      lengthOnce := fun hn g hg => hlength' g hg hn
      hostOnce := fun hk hn g hg => ((pairwise_snoc fs f).1 (h.hostOnce hk)).2 g hg hn }⟩
  · intro ⟨h, hf⟩
    exact {
      count := by
        rw [List.length_append, List.length_singleton]
        exact hf.count
      size := by
        rw [hsum]
        exact hf.size
      names := hall h.names hf.name
      values := hall h.values hf.value
      pseudoFirst := (pairwise_snoc fs f).2 ⟨h.pseudoFirst, fun g hg hp => hf.pseudoFirst hp g hg⟩
      pseudoOnce := (pairwise_snoc fs f).2 ⟨h.pseudoOnce, fun g hg hp => hf.pseudoOnce hp g hg⟩
      pseudoOk := hall h.pseudoOk hf.pseudoOk
      regularOk := hall h.regularOk hf.regularOk
      lengthOnce := (pairwise_snoc fs f).2 ⟨h.lengthOnce, fun g hg hn => hf.lengthOnce hn g hg⟩
      hostOnce := fun hk =>
        (pairwise_snoc fs f).2 ⟨h.hostOnce hk, fun g hg hn => hf.hostOnce hk hn g hg⟩ }

theorem Rules.front (h : Rules makeAddressV6 kind options (fs ++ gs)) :
    Rules makeAddressV6 kind options fs := by
  induction gs using List.reverseRecOn with
  | nil =>
    rw [List.append_nil] at h
    exact h
  | append_singleton gs g ih =>
    rw [← List.append_assoc] at h
    exact ih ((rules_snoc kind options _ g).1 h).1

theorem valueOf_field {name : Bytes} (h : valueOf fs name ≠ []) :
    ∃ f ∈ fs, f.name = name ∧ f.value = valueOf fs name := by
  rw [valueOf] at h ⊢
  cases hfind : fs.find? (·.name == name) with
  | none =>
    rw [hfind] at h
    exact absurd rfl h
  | some f =>
    have hnamed := List.find?_some hfind
    exact ⟨f, List.mem_of_find?_eq_some hfind, beq_iff_eq.1 hnamed, rfl⟩

theorem mergeCookies_of_none (h : fs.findIdx? isCookie = none) : mergeCookies fs = fs := by
  induction fs with
  | nil => rfl
  | cons f fs ih =>
    rw [List.findIdx?_cons] at h
    rw [mergeCookies]
    cases hf : isCookie f with
    | true =>
      rw [hf, if_pos rfl] at h
      cases h
    | false =>
      rw [hf, if_neg Bool.false_ne_true, Option.map_eq_none_iff] at h
      rw [if_neg Bool.false_ne_true, ih h]

theorem mergeCookies_of_one (h : fs.findIdx? isCookie = some i)
    (hone : (fs.drop (i + 1)).any isCookie = false) : mergeCookies fs = fs := by
  induction fs generalizing i with
  | nil => rfl
  | cons f fs ih =>
    rw [List.findIdx?_cons] at h
    rw [mergeCookies]
    cases hf : isCookie f with
    | true =>
      rw [hf, if_pos rfl] at h
      cases h
      rw [List.drop_succ_cons, List.drop_zero, List.any_eq_false] at hone
      rw [if_pos rfl, List.filter_eq_nil_iff.2 hone, List.map_nil, List.intercalate_singleton,
        List.filter_eq_self.2 fun g hg => by rw [Bool.eq_false_iff.2 (hone g hg)]; rfl]
    | false =>
      rw [hf, if_neg Bool.false_ne_true] at h
      obtain ⟨j, hj, rfl⟩ := Option.map_eq_some_iff.1 h
      rw [List.drop_succ_cons] at hone
      rw [if_neg Bool.false_ne_true, ih hj hone]

theorem length_mergeCookies (fs : Fields) : (mergeCookies fs).length ≤ fs.length := by
  induction fs with
  | nil => exact Nat.le_refl _
  | cons f fs ih =>
    rw [mergeCookies]
    split
    · exact Nat.succ_le_succ (List.length_filter_le _ _)
    · exact Nat.succ_le_succ ih

theorem find_mergeCookies {name : Bytes} (hname : name ≠ bytes "cookie") (fs : Fields) :
    (mergeCookies fs).find? (·.name == name) = fs.find? (·.name == name) := by
  have hother {f : Field} (hf : isCookie f = true) : (f.name == name) = false := by
    rw [isCookie, beq_iff_eq] at hf
    rw [hf]
    exact beq_false_of_ne hname.symm
  induction fs with
  | nil => rfl
  | cons f fs ih =>
    rw [mergeCookies]
    cases hf : isCookie f with
    | true =>
      rw [if_pos rfl, List.find?_cons, List.find?_cons, hother hf, List.find?_filter]
      refine congrArg (List.find? · fs) (funext fun g => ?_)
      cases hg : isCookie g with
      | true => rw [hother hg]; rfl
      | false => simp only [Bool.not_false, true_and, Bool.decide_eq_true]
    | false => rw [if_neg Bool.false_ne_true, List.find?_cons, List.find?_cons, ih]

theorem valueOf_mergeCookies {name : Bytes} (hname : name ≠ bytes "cookie") (fs : Fields) :
    valueOf (mergeCookies fs) name = valueOf fs name := by
  rw [valueOf, valueOf, find_mergeCookies hname]

theorem length_normalized (kind : HeaderKind) (fs : Fields) :
    (normalized kind fs).length ≤ fs.length := by
  cases kind with
  | hResponse => exact List.length_filter_le _ _
  | hTrailers => exact List.length_filter_le _ _
  | hRequest =>
    have hfilter := List.length_filter_le (!isPseudo ·.name) (mergeCookies fs)
    have hmerge := length_mergeCookies fs
    rw [normalized, withHost]
    split
    · omega
    next hauthority =>
      split
      · rw [List.length_map]
        omega
      · have hpseudo : ((mergeCookies fs).filter (!isPseudo ·.name)).length <
            (mergeCookies fs).length := by
          rw [← valueOf_mergeCookies (by decide)] at hauthority
          obtain ⟨f, hf, hname, -⟩ := valueOf_field hauthority
          refine List.length_filter_lt_length_iff_exists.2 ⟨f, hf, ?_⟩
          rw [hname]
          decide
        rw [List.length_append, List.length_singleton]
        omega

end HeaderRules

end Hical.Http2
