import Hical.Router.Index
import Hical.Session.Serve

namespace Hical

section Wildcard
variable {η : Type}

def param (params : ParamList) (name : Bytes) : Bytes :=
  match params with
  | [] => []
  | q :: params => if q.1 = name then q.2 else param params name

theorem param_setParam (params : ParamList) (name value : Bytes) :
    param (setParam params (name, value)) name = value := by
  induction params with
  | nil => exact if_pos rfl
  | cons q params ih =>
    rw [setParam]
    split
    · next h => exact if_pos h
    · next h =>
      rw [param, if_neg h]
      exact ih

theorem Router.lookup_wildcard {r : Router η}
    (h : r.lookup m p = some (some (.wildcardEntry e), params)) :
    e.pre <+: p ∧ params = (matchWildcardPath e.pre e.paramName p).getD [] := by
  rw [Router.lookup] at h
  split at h
  · next entry _ => cases entry <;> cases h
  · split at h
    · cases h
    · split at h
      · cases h
      · split at h
        · next hfind =>
          cases h
          have htakes := List.find?_some hfind
          rw [WildcardRouteEntry.takes] at htakes
          exact ⟨List.isPrefixOf_iff_prefix.1 htakes, rfl⟩
        · cases h

theorem Router.resolveRoute_wildcard {r : Router η}
    (h : (r.resolveRoute m rawPath).entry = some (.wildcardEntry e)) :
    e.pre <+: decodedPath rawPath ∧ (r.resolveRoute m rawPath).params =
      (matchWildcardPath e.pre e.paramName (decodedPath rawPath)).getD [] := by
  rw [Router.resolveRoute] at h ⊢
  split at h
  · cases h
  · next hdeep =>
    rw [if_neg hdeep]
    dsimp only at h ⊢
    cases hl : r.lookup m (decodedPath rawPath) with
    | none =>
      rw [hl] at h
      cases h
    | some found =>
      obtain ⟨entry, params⟩ := found
      rw [hl] at h
      obtain rfl : entry = some (.wildcardEntry e) := h
      exact Router.lookup_wildcard hl

/-- The parameter is the whole remainder, within the limit. -/
def CapturedWhole (params : ParamList) (e : WildcardRouteEntry η) (reqPath : Bytes) : Prop :=
  reqPath = e.pre ++ param params e.paramName ∧
    (param params e.paramName).length ≤ kMaxParamValueLength

/-- A reported wildcard entry has captured the remainder exactly when that is short enough. -/
theorem wildcard_captured_iff (r : Router η) (m : HttpMethod) (rawPath : Bytes) (before : ParamList)
    (e : WildcardRouteEntry η) (h : (r.resolveRoute m rawPath).entry = some (.wildcardEntry e))
    (hname : e.paramName ≠ []) :
    CapturedWhole ((r.resolveRoute m rawPath).params.foldl setParam before) e (decodedPath rawPath) ↔
      (decodedPath rawPath).length ≤ e.pre.length + kMaxParamValueLength := by
  obtain ⟨⟨captured, hpath⟩, hparams⟩ := Router.resolveRoute_wildcard h
  rw [hparams, ← hpath, CapturedWhole, List.append_right_inj, List.length_append,
    Nat.add_le_add_iff_left]
  constructor
  · rintro ⟨heq, hle⟩
    rw [heq]
    exact hle
  · intro hle
    have hshort : ¬kMaxParamValueLength < captured.length := Nat.not_lt.2 hle
    have hnamed : e.paramName.isEmpty = false := by
      rw [List.isEmpty_eq_false_iff]
      exact hname
    rw [matchWildcardPath, List.drop_left]
    rw [if_neg hshort, hnamed, if_neg Bool.false_ne_true, Option.getD_some, List.foldl_cons,
      List.foldl_nil, param_setParam]
    exact ⟨rfl, hle⟩

/-- A file route, and a path as long as its prefix and `n` more octets. -/
def fileRoute : Router Unit := registered [.route .hGet (bytes "/f/*path") ()]

def longPath (n : Nat) : Bytes := bytes "/f/" ++ List.replicate n 97

def fileEntry : WildcardRouteEntry Unit :=
  ⟨bytes "/f/*path", bytes "/f/", bytes "path", .asyncHandler ()⟩

theorem wildcard_captured_short :
    CapturedWhole ((fileRoute.resolveRoute .hGet (longPath 2)).params.foldl setParam []) fileEntry
      (decodedPath (longPath 2)) :=
  (wildcard_captured_iff fileRoute .hGet (longPath 2) [] fileEntry (by decide +kernel)
    (by decide +kernel)).2 (by decide +kernel)

/-- One octet too many: the entry is reported, and the parameter is missing. -/
theorem wildcard_not_captured :
    (fileRoute.resolveRoute .hGet (longPath 1025)).entry = some (.wildcardEntry fileEntry) ∧
      param ((fileRoute.resolveRoute .hGet (longPath 1025)).params.foldl setParam [])
        fileEntry.paramName = [] ∧
      ¬CapturedWhole ((fileRoute.resolveRoute .hGet (longPath 1025)).params.foldl setParam [])
        fileEntry (decodedPath (longPath 1025)) := by
  have hmissing : param ((fileRoute.resolveRoute .hGet (longPath 1025)).params.foldl setParam [])
      fileEntry.paramName = [] := by decide +kernel
  have hlong : decodedPath (longPath 1025) ≠ fileEntry.pre ++ [] := by decide +kernel
  refine ⟨by decide +kernel, hmissing, ?_⟩
  rintro ⟨hwhole, -⟩
  rw [hmissing] at hwhole
  exact hlong hwhole

end Wildcard

end Hical
