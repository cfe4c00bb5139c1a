import Hical.Router.Segments
import Hical.Router.Transparent
import Hical.Session.Serve

namespace Hical

section Decoding

theorem urlDecode_length (s : Bytes) :
    (urlDecode s).length = s.length ∨ (urlDecode s).length + 2 ≤ s.length := by
  fun_induction urlDecode s with
  | case1 => exact .inl rfl
  | case2 h l rest hi lo hl hh hzero ih | case3 h l rest hi lo hl hh hzero ih
  | case7 c s hshort ih =>
    simp only [List.length_cons]
    omega
  | case4 h l rest hno ih | case5 h l rest hne ih | case6 c h l rest hne hne' ih =>
    simp only [List.length_cons] at ih ⊢
    omega

theorem urlDecode_slash (s : Bytes) : urlDecode (slash :: s) = slash :: urlDecode s := by
  match s with
  | [] => rfl
  | [_] => rfl
  | _ :: _ :: _ => rfl

theorem urlDecode_cons (c : UInt8) (s : Bytes) :
    urlDecode (c :: s) = (if c = 43 then SP else c) :: urlDecode s ∨
      (urlDecode (c :: s)).length + 2 ≤ (c :: s).length := by
  match s with
  | [] => exact .inl rfl
  | [_] => exact .inl rfl
  | h :: l :: rest =>
    by_cases hc : c = 37
    · subst hc
      have hlen := urlDecode_length rest
      cases hh : hexDigit h with
      | none =>
        refine .inl ?_
        simp only [urlDecode, hh, ↓reduceIte]
        rfl
      | some hi =>
        cases hl : hexDigit l with
        | none =>
          refine .inl ?_
          simp only [urlDecode, hh, hl, ↓reduceIte]
          rfl
        | some lo =>
          refine .inr ?_
          simp only [urlDecode, hh, hl, ↓reduceIte]
          split
          · simp only [List.length_cons]
            omega
          · simp only [List.length_cons]
            omega
    · refine .inl ?_
      rw [urlDecode, if_neg hc]
      split
      · rfl
      · rfl

theorem urlDecode_head (hlen : (urlDecode s).length = s.length) (h : urlDecode s = slash :: t) :
    ∃ t', s = slash :: t' := by
  cases s with
  | nil => cases h
  | cons c s =>
    rcases urlDecode_cons c s with hcons | hshort
    · rw [hcons] at h
      have hhead := (List.cons.inj h).1
      split at hhead
      · cases hhead
      · exact ⟨s, by rw [hhead]⟩
    · omega

theorem intercalate_concat_nil (h : parts ≠ []) :
    [slash].intercalate (parts ++ [[]]) = [slash].intercalate parts ++ [slash] := by
  induction parts with
  | nil => exact absurd rfl h
  | cons p parts ih =>
    cases parts with
    | nil =>
      rw [List.cons_append, List.nil_append, List.intercalate_cons_cons, List.intercalate_singleton,
        List.intercalate_singleton, List.append_nil]
    | cons q parts =>
      rw [List.cons_append, List.cons_append, List.intercalate_cons_cons, ← List.cons_append,
        ih (List.cons_ne_nil _ _), List.intercalate_cons_cons, List.append_assoc, List.append_assoc,
        List.append_assoc]

theorem intercalate_splitSegments (s : Bytes) :
    s = [slash].intercalate (splitSegments s) ∨ s = [slash].intercalate (splitSegments s) ++ [slash] := by
  have hjoin : [slash].intercalate (s.splitOn slash) = s := List.intercalate_splitOn slash
  rw [splitSegments, dropTrailing]
  split
  · next hlast =>
    have hparts := List.dropLast_append_getLast? [] hlast
    by_cases hempty : (s.splitOn slash).dropLast = []
    · refine .inl ?_
      rw [hempty, List.nil_append] at hparts
      rw [hempty, ← hjoin, ← hparts]
      rfl
    · refine .inr ?_
      rw [← intercalate_concat_nil hempty, hparts, hjoin]
  · exact .inl hjoin.symm

theorem splitSegments_inj (h : splitSegments s = splitSegments t) :
    s.length ≤ t.length + 1 ∧ t.length ≤ s.length + 1 ∧ (s.length = t.length → s = t) := by
  have hs := intercalate_splitSegments s
  have ht := intercalate_splitSegments t
  rw [h] at hs
  generalize [slash].intercalate (splitSegments t) = joined at hs ht
  rcases hs with rfl | rfl
  · rcases ht with rfl | rfl
    · exact ⟨by omega, by omega, fun _ => rfl⟩
    · simp only [List.length_append, List.length_singleton]
      exact ⟨by omega, by omega, fun h => by omega⟩
  · rcases ht with rfl | rfl
    · simp only [List.length_append, List.length_singleton]
      exact ⟨by omega, by omega, fun h => by omega⟩
    · exact ⟨by omega, by omega, fun _ => rfl⟩

theorem decodedPath_eq_of_segments (h : segments p = segments (decodedPath p)) : decodedPath p = p := by
  rw [decodedPath] at h ⊢
  split
  · next hdecodes =>
    rw [if_pos hdecodes] at h
    obtain ⟨hle, hle', hsame⟩ := splitSegments_inj h
    have hlen := urlDecode_length p
    match p with
    | [] => rfl
    | c :: s =>
      by_cases hc : c = slash
      · subst hc
        rw [urlDecode_slash] at hle hle' hsame hlen ⊢
        simp only [dropSlash, ↓reduceIte, List.length_cons] at hle hle' hsame hlen
        rw [← hsame (by omega)]
      · have hkeep : dropSlash (c :: s) = c :: s := if_neg hc
        rw [hkeep] at hle hle' hsame
        by_cases hhead : ∃ t, urlDecode (c :: s) = slash :: t
        · obtain ⟨t, ht⟩ := hhead
          have hdrop : dropSlash (urlDecode (c :: s)) = t := by
            rw [ht]
            simp only [dropSlash, ↓reduceIte]
          rw [hdrop] at hle
          rcases hlen with hlen | hlen
          · obtain ⟨t', ht'⟩ := urlDecode_head hlen ht
            exact absurd (List.cons.inj ht').1 hc
          · rw [ht] at hlen
            simp only [List.length_cons] at hlen hle
            omega
        · have hdrop : dropSlash (urlDecode (c :: s)) = urlDecode (c :: s) := by
            cases hd : urlDecode (c :: s) with
            | nil => rfl
            | cons d t =>
              refine if_neg fun hslash => ?_
              rw [hslash] at hd
              exact hhead ⟨t, hd⟩
          rw [hdrop] at hle hsame
          exact (hsame (by omega)).symm
  · rfl

theorem captured_inj (h : List.Forall₂ Faces ps xs) (h' : List.Forall₂ Faces ps ys)
    (heq : captured (ps.zip xs) = captured (ps.zip ys)) : xs = ys := by
  induction h generalizing ys with
  | nil =>
    cases h'
    rfl
  | @cons p x ps xs hx hxs ih =>
    cases h' with
    | @cons _ y _ ys hy hys =>
      rw [List.zip_cons_cons, List.zip_cons_cons, captured, captured, List.filterMap_cons,
        List.filterMap_cons] at heq
      by_cases hp : isParamSegment p
      · simp only [if_pos hp] at heq
        obtain ⟨hpair, hrest⟩ := List.cons.inj heq
        rw [(Prod.mk.inj hpair).2, ih hys hrest]
      · simp only [if_neg hp] at heq
        rw [Faces, if_neg hp] at hx hy
        rw [← hx, ← hy, ih hys heq]

/-- Nothing to decode, or a pattern that takes the path neither raw nor decoded. -/
def Undecoded (pattern path : Bytes) : Prop :=
  decodedPath path = path ∨
    (matchParamPath pattern path).isSome = false ∧
      (matchParamPath pattern (decodedPath path)).isSome = false

/-- A pattern matches the raw and the decoded path alike in no other case. -/
theorem matchParamPath_decoded_iff (pattern path : Bytes) :
    matchParamPath pattern path = matchParamPath pattern (decodedPath path) ↔
      Undecoded pattern path := by
  constructor
  · intro h
    cases hm : matchParamPath pattern path with
    | none =>
      rw [hm] at h
      refine .inr ⟨by rw [hm]; rfl, by rw [← h]; rfl⟩
    | some params =>
      rw [hm] at h
      obtain ⟨hfits, hparams⟩ := matchParamPath_eq_some.1 hm
      obtain ⟨hfits', hparams'⟩ := matchParamPath_eq_some.1 h.symm
      refine .inl (decodedPath_eq_of_segments (captured_inj hfits.2 hfits'.2 ?_))
      rw [← hparams, ← hparams']
  · rintro (hsame | ⟨hno, hno'⟩)
    · rw [hsame]
    · rw [Option.isSome_eq_false_iff, Option.isNone_iff_eq_none] at hno hno'
      rw [hno, hno']

end Decoding

/-- `Router::exists`: the static and the parameter routes of the method. -/
def HashedRouter.exists (s : HashedRouter η) (method : HttpMethod) (path : Bytes) : Bool :=
  let reqPath := decodedPath path
  (s.routes.staticRoutes method reqPath).isSome ||
    (s.routes.paramRoutesByMethod method).any fun e => (matchParamPath e.path reqPath).isSome

section Matchers
variable {η α : Type} {s : HashedRouter η} {calls : List (RouteCall η)}

/-- `findWsRoute` and `findSseRoute` get as far as this parameter route. -/
structure UpgradeReaches (pathOf : α → Bytes) (routes : List α) (r : α) (path : Bytes) : Prop where
  parameter : isParamRoute (pathOf r) = true
  exact : ∀ r' ∈ routes, isParamRoute (pathOf r') = false → pathOf r' ≠ path
  first : ∃ front back, routes = front ++ r :: back ∧
    ∀ r' ∈ front, isParamRoute (pathOf r') = true → matchParamPath (pathOf r') path = none

/-- `resolveRoute` gets as far as this parameter route. -/
structure Router.Reaches (r : Router η) (m : HttpMethod) (e : ParamRouteEntry η) (reqPath : Bytes) :
    Prop where
  static : r.staticRoutes m reqPath = none
  first : ∃ front back, r.paramRoutesByMethod m = front ++ e :: back ∧
    ∀ e' ∈ front, matchParamPath e'.path reqPath = none

/-- The two lookups take the same paths with the same captures, wherever both get to routes of one
pattern. -/
def UpgradeAgrees (pathOf : α → Bytes) (routes : List α) (s : HashedRouter η) (m : HttpMethod)
    (path : Bytes) : Prop :=
  ∀ r e, UpgradeReaches pathOf routes r path → s.routes.Reaches m e (decodedPath path) →
    pathOf r = e.path → ∀ params, findUpgradeRoute pathOf routes path = some (r, params) ↔
      (s.resolveRoute m path).entry = some (.paramEntry e) ∧ (s.resolveRoute m path).params = params

theorem find?_front {p : α → Bool} {front back : List α} (h : ∀ a ∈ front, p a = false) :
    (front ++ r :: back).find? p = if p r then some r else back.find? p := by
  have hfront : front.find? p = none := by
    rw [List.find?_eq_none]
    intro a ha
    rw [h a ha]
    exact Bool.false_ne_true
  rw [List.find?_append, hfront, Option.none_or, List.find?_cons]
  cases p r with
  | true => rfl
  | false => rfl

theorem findUpgradeRoute_iff {pathOf : α → Bytes} {routes : List α}
    (h : UpgradeReaches pathOf routes r path) :
    findUpgradeRoute pathOf routes path = some (r, params) ↔
      matchParamPath (pathOf r) path = some params := by
  obtain ⟨hparameter, hexact, front, back, hroutes, hfirst⟩ := h
  have hliteral : routes.find? (fun r => !isParamRoute (pathOf r) && pathOf r == path) = none := by
    rw [List.find?_eq_none]
    intro r' hr' hmatch
    rw [Bool.and_eq_true, Bool.not_eq_true', beq_iff_eq] at hmatch
    exact hexact r' hr' hmatch.1 hmatch.2
  have hfront : ∀ r' ∈ front,
      (isParamRoute (pathOf r') && (matchParamPath (pathOf r') path).isSome) = false := by
    intro r' hr'
    cases hp : isParamRoute (pathOf r') with
    | true =>
      rw [hfirst r' hr' hp]
      rfl
    | false => rfl
  rw [findUpgradeRoute, hliteral]
  dsimp only
  rw [hroutes, find?_front hfront, hparameter, Bool.true_and]
  cases hm : matchParamPath (pathOf r) path with
  | some found =>
    rw [Option.isSome_some, if_pos rfl, Option.map_some, hm, Option.getD_some]
    constructor
    · intro heq
      cases heq
      rfl
    · intro heq
      cases heq
      rfl
  | none =>
    rw [Option.isSome_none, if_neg Bool.false_ne_true]
    constructor
    · intro heq
      obtain ⟨r', hfind, hpair⟩ := Option.map_eq_some_iff.1 heq
      obtain ⟨rfl, -⟩ := Prod.mk.inj hpair
      have hmatch := List.find?_some hfind
      rw [hm, Option.isSome_none, Bool.and_false] at hmatch
      cases hmatch
    · intro heq
      cases heq

theorem resolveRoute_param_iff {r : Router η} (hphr : r.phrLookup = none)
    (hdeep : pathTooDeep path = false) (h : r.Reaches m e (decodedPath path)) :
    ((r.resolveRoute m path).entry = some (.paramEntry e) ∧ (r.resolveRoute m path).params = params) ↔
      matchParamPath e.path (decodedPath path) = some params := by
  obtain ⟨hstatic, front, back, hroutes, hfirst⟩ := h
  have hfront : ∀ e' ∈ front, (matchParamPath e'.path (decodedPath path)).isSome = false := by
    intro e' he'
    rw [hfirst e' he']
    rfl
  rw [Router.resolveRoute, hdeep, if_neg Bool.false_ne_true]
  dsimp only
  simp only [Router.lookup, hphr, Option.bind_none, hstatic, hroutes, find?_front hfront]
  cases hm : matchParamPath e.path (decodedPath path) with
  | some found =>
    simp only [Option.isSome_some, ↓reduceIte, hm, Option.getD_some, true_and, Option.some.injEq]
  | none =>
    simp only [Option.isSome_none, Bool.false_eq_true, ↓reduceIte]
    constructor
    · intro heq
      exfalso
      cases hfind : back.find? (fun e => (matchParamPath e.path (decodedPath path)).isSome) with
      | some e' =>
        simp only [hfind] at heq
        obtain ⟨hentry, -⟩ := heq
        cases hentry
        have hmatch := List.find?_some hfind
        rw [hm] at hmatch
        cases hmatch
      | none =>
        simp only [hfind] at heq
        split at heq
        · next hw =>
          split at hw
          · cases hw
            cases heq.1
          · cases hw
        · cases heq.1
    · intro heq
      cases heq

theorem upgradeAgrees_iff (hs : s.Registered calls) (hdeep : pathTooDeep path = false)
    (pathOf : α → Bytes) (routes : List α) :
    UpgradeAgrees pathOf routes s m path ↔ ∀ r e, UpgradeReaches pathOf routes r path →
      s.routes.Reaches m e (decodedPath path) → pathOf r = e.path → Undecoded e.path path := by
  have hphr : (registered calls).phrLookup = none := (registered_files calls).phr
  constructor
  · intro h r e hr he hpath
    rw [← matchParamPath_decoded_iff]
    apply Option.ext
    intro params
    have hagree := h r e hr he hpath params
    rw [hs.resolveRoute_eq] at hagree
    rw [hs.routes_eq] at he
    rw [findUpgradeRoute_iff hr, resolveRoute_param_iff hphr hdeep he, hpath] at hagree
    exact hagree
  · intro h r e hr he hpath params
    have hsame := (matchParamPath_decoded_iff _ _).2 (h r e hr he hpath)
    rw [hs.resolveRoute_eq]
    rw [hs.routes_eq] at he
    rw [findUpgradeRoute_iff hr, resolveRoute_param_iff hphr hdeep he, hpath, hsame]

theorem resolveRoute_isMatch (calls : List (RouteCall η)) (hdeep : pathTooDeep path = false) :
    ((registered calls).resolveRoute m path).isMatch = routed calls m (decodedPath path) := by
  have hfiles := registered_files calls
  rw [Router.resolveRoute, hdeep, if_neg Bool.false_ne_true]
  dsimp only
  cases hr : routed calls m (decodedPath path) with
  | false =>
    rw [hfiles.lookup_none hr]
    rfl
  | true =>
    have htables := (hfiles.routed_iff m (decodedPath path)).1 hr
    rw [Router.lookup, hfiles.phr, Option.bind_none]
    dsimp only
    cases hstatic : (registered calls).staticRoutes m (decodedPath path) with
    | some e => rfl
    | none =>
      dsimp only
      cases hparam : ((registered calls).paramRoutesByMethod m).find?
          (fun e => (matchParamPath e.path (decodedPath path)).isSome) with
      | some e => rfl
      | none =>
        dsimp only
        cases hwild : ((registered calls).wildcardRoutesByMethod m).find?
            (·.takes (decodedPath path)) with
        | some e => rfl
        | none =>
          exfalso
          rw [hstatic] at htables
          rcases htables with h | h | h
          · cases h
          · rw [List.any_eq_true] at h
            obtain ⟨e, he, htakes⟩ := h
            exact List.find?_eq_none.1 hparam e he htakes
          · rw [List.any_eq_true] at h
            obtain ⟨e, he, htakes⟩ := h
            exact List.find?_eq_none.1 hwild e he htakes

theorem exists_iff (hs : s.Registered calls) (m : HttpMethod) (path : Bytes) :
    s.exists m path = true ↔
      ∃ g ∈ calls, g.kind ≠ .hWildcard ∧ g.method = m ∧ g.accepts (decodedPath path) = true := by
  have hfiles := registered_files calls
  rw [HashedRouter.exists, hs.routes_eq, Bool.or_eq_true, hfiles.staticRoute, List.any_eq_true]
  constructor
  · rintro (⟨g, hg, hkind, hm, hpath⟩ | ⟨e, he, htakes⟩)
    · refine ⟨g, hg, by rw [hkind]; exact RouteKind.noConfusion, hm, ?_⟩
      rw [RouteCall.accepts, hkind]
      exact beq_iff_eq.2 hpath
    · obtain ⟨g, hg, hkind, hm, hpath⟩ := (hfiles.param m e.path).1 ⟨e, he, rfl⟩
      refine ⟨g, hg, by rw [hkind]; exact RouteKind.noConfusion, hm, ?_⟩
      rw [RouteCall.accepts, hkind, hpath]
      exact htakes
  · rintro ⟨g, hg, hkind, hm, haccepts⟩
    rw [RouteCall.accepts] at haccepts
    cases hk : g.kind with
    | hWildcard => exact absurd hk hkind
    | hStatic =>
      rw [hk] at haccepts
      exact .inl ⟨g, hg, hk, hm, beq_iff_eq.1 haccepts⟩
    | hParam =>
      rw [hk] at haccepts
      obtain ⟨e, he, hpath⟩ := (hfiles.param m g.path).2 ⟨g, hg, hk, hm, rfl⟩
      refine .inr ⟨e, he, ?_⟩
      rw [hpath]
      exact haccepts

/-- Where a wildcard route takes the path, so does another route of the method. -/
def WildcardsCovered (calls : List (RouteCall η)) (m : HttpMethod) (reqPath : Bytes) : Prop :=
  ∀ g ∈ calls, g.kind = .hWildcard → g.method = m → g.accepts reqPath = true →
    ∃ g' ∈ calls, g'.kind ≠ .hWildcard ∧ g'.method = m ∧ g'.accepts reqPath = true

theorem exists_eq_isMatch_iff (hs : s.Registered calls) (hdeep : pathTooDeep path = false) :
    s.exists m path = (s.resolveRoute m path).isMatch ↔
      WildcardsCovered calls m (decodedPath path) := by
  have hrouted : routed calls m (decodedPath path) = true ↔
      ∃ g ∈ calls, g.method = m ∧ g.accepts (decodedPath path) = true := by
    simp only [routed, List.any_eq_true, Bool.and_eq_true, decide_eq_true_eq]
  rw [hs.resolveRoute_eq, resolveRoute_isMatch calls hdeep, Bool.eq_iff_iff, exists_iff hs, hrouted]
  constructor
  · intro h g hg _ hm haccepts
    exact h.2 ⟨g, hg, hm, haccepts⟩
  · intro h
    constructor
    · rintro ⟨g, hg, -, hm, haccepts⟩
      exact ⟨g, hg, hm, haccepts⟩
    · rintro ⟨g, hg, hm, haccepts⟩
      by_cases hkind : g.kind = .hWildcard
      · exact h g hg hkind hm haccepts
      · exact ⟨g, hg, hkind, hm, haccepts⟩

/-- The four lookups agree on this method and raw path. -/
structure MatchersAgree (s : HashedRouter η) (wsRoutes : List WsRoute) (sseRoutes : List Bytes)
    (m : HttpMethod) (path : Bytes) : Prop where
  existence : s.exists m path = (s.resolveRoute m path).isMatch
  ws : UpgradeAgrees WsRoute.path wsRoutes s m path
  sse : UpgradeAgrees id sseRoutes s m path

/-- Nothing to decode for the upgrade routes that share a pattern with a parameter route. -/
def UpgradesUndecoded (pathOf : α → Bytes) (routes : List α) (s : HashedRouter η) (m : HttpMethod)
    (path : Bytes) : Prop :=
  ∀ r e, UpgradeReaches pathOf routes r path → s.routes.Reaches m e (decodedPath path) →
    pathOf r = e.path → Undecoded e.path path

/-- Within the depth limit the lookups agree exactly when no wildcard route is alone in taking the
path and the upgrade routes have nothing to decode. -/
theorem matchers_agree_iff (hs : s.Registered calls) (wsRoutes : List WsRoute)
    (sseRoutes : List Bytes) (m : HttpMethod) (path : Bytes) (hdeep : pathTooDeep path = false) :
    MatchersAgree s wsRoutes sseRoutes m path ↔
      WildcardsCovered calls m (decodedPath path) ∧
        UpgradesUndecoded WsRoute.path wsRoutes s m path ∧ UpgradesUndecoded id sseRoutes s m path := by
  constructor
  · rintro ⟨hexists, hws, hsse⟩
    exact ⟨(exists_eq_isMatch_iff hs hdeep).1 hexists, (upgradeAgrees_iff hs hdeep _ _).1 hws,
      (upgradeAgrees_iff hs hdeep _ _).1 hsse⟩
  · rintro ⟨hcovered, hws, hsse⟩
    exact ⟨(exists_eq_isMatch_iff hs hdeep).2 hcovered, (upgradeAgrees_iff hs hdeep _ _).2 hws,
      (upgradeAgrees_iff hs hdeep _ _).2 hsse⟩

/-- A parameter route, a wildcard route, and a WebSocket route with the parameter route's pattern. -/
def userCalls : List (RouteCall Unit) := [.route .hGet (bytes "/u/{id}") (), .route .hGet (bytes "/f/*p") ()]

def userRouter : HashedRouter Unit :=
  ((HashedRouter.empty Unit).route (.route .hGet (bytes "/u/{id}") ())).route
    (.route .hGet (bytes "/f/*p") ())

def userSocket : WsRoute := ⟨bytes "/u/{id}", []⟩

theorem userRouter_registered : userRouter.Registered userCalls :=
  (HashedRouter.Registered.start.route (.route .hGet (bytes "/u/{id}") ())).route
    (.route .hGet (bytes "/f/*p") ())

theorem matchers_agree_plain : MatchersAgree userRouter [userSocket] [] .hGet (bytes "/u/ab") :=
  (matchers_agree_iff userRouter_registered [userSocket] [] .hGet (bytes "/u/ab") (by decide)).2
    ⟨by unfold WildcardsCovered; decide, fun _ _ _ _ _ => .inl (by decide),
      fun _ _ _ _ _ => .inl (by decide)⟩

/-- A path below the wildcard only, and a path with an escape. -/
theorem matchers_disagree :
    ¬MatchersAgree userRouter [userSocket] [] .hGet (bytes "/f/a") ∧
      ¬MatchersAgree userRouter [userSocket] [] .hGet (bytes "/u/a%20b") := by
  constructor
  · intro h
    have hexists : userRouter.exists .hGet (bytes "/f/a") = false := by decide
    have hmatch : (userRouter.resolveRoute .hGet (bytes "/f/a")).isMatch = true := by decide
    have heq := h.existence
    rw [hexists, hmatch] at heq
    cases heq
  · intro h
    have hundecoded := (upgradeAgrees_iff userRouter_registered (by decide) _ _).1 h.ws userSocket
      ⟨bytes "/u/{id}", .asyncHandler ()⟩
      ⟨by decide, by decide, [], [], rfl, fun _ hr => (nomatch hr)⟩
      ⟨by decide, [], [], rfl, fun _ he => (nomatch he)⟩ rfl
    rcases hundecoded with hsame | ⟨hno, -⟩
    · exact absurd hsame (by decide)
    · exact absurd hno (by decide)

end Matchers

end Hical
