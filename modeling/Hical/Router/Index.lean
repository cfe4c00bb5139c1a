import Mathlib.Data.BitVec
import Hical.Router.Table

namespace Hical

/-- A registration call made on a router. -/
inductive RouteCall (η : Type) where
  | route (method : HttpMethod) (path : Bytes) (handler : η)
  | routeSync (method : HttpMethod) (path : Bytes) (handler : η)
  | compileTimeRoute (method : HttpMethod) (path : Bytes) (chain : η)
  deriving DecidableEq, Repr

namespace RouteCall

def method : RouteCall η → HttpMethod
  | .route m _ _ => m
  | .routeSync m _ _ => m
  | .compileTimeRoute m _ _ => m

def path : RouteCall η → Bytes
  | .route _ p _ => p
  | .routeSync _ p _ => p
  | .compileTimeRoute _ p _ => p

def endpoint : RouteCall η → Endpoint η
  | .route _ _ h => .asyncHandler h
  | .routeSync _ _ h => .syncHandler h
  | .compileTimeRoute _ _ h => .compileTimeChain h

def apply (r : Router η) : RouteCall η → Router η
  | .route m p h => r.route m p h
  | .routeSync m p h => r.routeSync m p h
  | .compileTimeRoute m p h => r.compileTimeRoute m p h

theorem apply_eq (r : Router η) (g : RouteCall η) :
    g.apply r = r.register g.method g.path g.endpoint := by
  cases g <;> rfl

def kind (g : RouteCall η) : RouteKind :=
  if isWildcardRoute g.path then .hWildcard
  else if isParamRoute g.path then .hParam
  else .hStatic

def accepts (g : RouteCall η) (reqPath : Bytes) : Bool :=
  match g.kind with
  | .hWildcard => (cut star g.path).1.isPrefixOf reqPath
  | .hParam => (matchParamPath g.path reqPath).isSome
  | .hStatic => g.path == reqPath

end RouteCall

/-- The router after a sequence of registrations. -/
def registered (calls : List (RouteCall η)) : Router η :=
  calls.foldl RouteCall.apply (Router.empty η)

def routed (calls : List (RouteCall η)) (m : HttpMethod) (reqPath : Bytes) : Bool :=
  calls.any fun g => g.method = m && g.accepts reqPath

/-- The value of an `Allow` field that lists the given methods. -/
def allowValue (methods : List HttpMethod) : Bytes :=
  (bytes ", ").intercalate (methods.map httpMethodToString)

section Masks

theorem methodBit_getLsbD (m n : HttpMethod) :
    (methodBit m).getLsbD n.toNat = decide (m = n) := by
  cases m <;> cases n <;> decide

theorem and_methodBit_eq_zero (mask : BitVec 32) (m : HttpMethod) :
    mask &&& methodBit m = 0 ↔ mask.getLsbD m.toNat = false := by
  constructor
  · intro h
    have hb := congrArg (fun v : BitVec 32 => v.getLsbD m.toNat) h
    simpa only [BitVec.getLsbD_and, methodBit_getLsbD, decide_true, Bool.and_true,
      BitVec.ofNat_eq_ofNat, BitVec.getLsbD_zero] using hb
  · intro h
    apply BitVec.eq_of_getLsbD_eq
    intro i hi
    by_cases he : i = m.toNat
    · subst he
      simp [h]
    · have hm : (methodBit m).getLsbD i = false := by
        simp only [methodBit, BitVec.getLsbD_shiftLeft, BitVec.getLsbD_one]
        grind
      simp [hm]

theorem foldl_groups_getLsbD (other : BitVec 32) (hit : HttpMethod → Bool) (n : HttpMethod)
    (ms : List HttpMethod) (mask : BitVec 32) :
    (ms.foldl (fun mask m => if other &&& methodBit m = 0 then mask
      else if hit m then mask ||| methodBit m else mask) mask).getLsbD n.toNat =
    (mask.getLsbD n.toNat || (ms.contains n && other.getLsbD n.toNat && hit n)) := by
  induction ms generalizing mask with
  | nil => simp
  | cons m ms ih =>
    rw [List.foldl_cons, ih]
    simp only [and_methodBit_eq_zero]
    by_cases hm : m = n
    · subst hm
      cases ho : other.getLsbD m.toNat <;> cases hh : hit m <;>
        simp [methodBit_getLsbD]
    · have hc : (m :: ms).contains n = ms.contains n := by simp [Ne.symm hm]
      have hb : (if other.getLsbD m.toNat = false then mask
          else if hit m = true then mask ||| methodBit m else mask).getLsbD n.toNat =
          mask.getLsbD n.toNat := by
        split
        · rfl
        · split
          · simp [methodBit_getLsbD, hm]
          · rfl
      rw [hb, hc]

theorem scanGroups_getLsbD (other : BitVec 32) (hit : HttpMethod → Bool) (mask : BitVec 32)
    (n : HttpMethod) :
    (scanGroups other hit mask).getLsbD n.toNat =
      (mask.getLsbD n.toNat || (other.getLsbD n.toNat && hit n)) := by
  rw [scanGroups, foldl_groups_getLsbD]
  simp [HttpMethod.mem_all]

theorem foldl_methods_getLsbD (reqMethod n : HttpMethod) (ms : List HttpMethod)
    (mask : BitVec 32) :
    (ms.foldl (fun mask m => if m ≠ reqMethod then mask ||| methodBit m else mask)
      mask).getLsbD n.toNat =
    (mask.getLsbD n.toNat || (ms.contains n && decide (n ≠ reqMethod))) := by
  induction ms generalizing mask with
  | nil => simp
  | cons m ms ih =>
    rw [List.foldl_cons, ih]
    by_cases hm : m = n
    · subst hm
      by_cases hr : m = reqMethod
      · simp [hr]
      · simp [hr, methodBit_getLsbD]
    · by_cases hr : m = reqMethod
      · simp [hr, show ¬ n = reqMethod from fun e => hm (hr.trans e.symm)]
      · simp [hr, methodBit_getLsbD, hm, Ne.symm hm]

theorem foldl_allow_append (mask : BitVec 32) (ms : List HttpMethod) (out : Bytes)
    (ho : out ≠ []) :
    ms.foldl (fun out method => if mask &&& methodBit method = 0 then out
      else (if out = [] then out else out ++ bytes ", ") ++ httpMethodToString method) out =
    out ++ (ms.filter fun m => mask.getLsbD m.toNat).flatMap
      (fun m => bytes ", " ++ httpMethodToString m) := by
  induction ms generalizing out with
  | nil => simp
  | cons m ms ih =>
    rw [List.foldl_cons]
    by_cases hm : mask.getLsbD m.toNat
    · have hz : ¬ (mask &&& methodBit m = 0) := by
        rw [and_methodBit_eq_zero]
        simp [hm]
      rw [if_neg hz, if_neg ho, ih _ (by simp [ho])]
      simp [hm]
    · have hz : mask &&& methodBit m = 0 := by
        rw [and_methodBit_eq_zero]
        simpa using hm
      rw [if_pos hz, ih _ ho]
      simp [hm]

theorem httpMethodToString_ne_nil (m : HttpMethod) : httpMethodToString m ≠ [] := by
  cases m <;> decide

theorem intercalate_cons_flatMap (sep a : Bytes) (l : List Bytes) :
    sep.intercalate (a :: l) = a ++ l.flatMap (sep ++ ·) := by
  induction l generalizing a with
  | nil => simp
  | cons b l ih =>
    rw [List.intercalate_cons_cons, ih]
    simp

theorem foldl_allow (mask : BitVec 32) (ms : List HttpMethod) :
    ms.foldl (fun out method => if mask &&& methodBit method = 0 then out
      else (if out = [] then out else out ++ bytes ", ") ++ httpMethodToString method) [] =
    allowValue (ms.filter fun m => mask.getLsbD m.toNat) := by
  induction ms with
  | nil => rfl
  | cons m ms ih =>
    rw [List.foldl_cons]
    by_cases hm : mask.getLsbD m.toNat
    · have hz : ¬ (mask &&& methodBit m = 0) := by
        rw [and_methodBit_eq_zero]
        simp [hm]
      rw [if_neg hz, if_pos rfl, List.nil_append,
        foldl_allow_append _ _ _ (httpMethodToString_ne_nil m)]
      simp only [List.filter_cons, hm, ↓reduceIte, allowValue, List.map_cons,
        intercalate_cons_flatMap, List.flatMap_map]
    · have hz : mask &&& methodBit m = 0 := by
        rw [and_methodBit_eq_zero]
        simpa using hm
      rw [if_pos hz, ih]
      simp only [List.filter_cons, hm, Bool.false_eq_true, ↓reduceIte]

theorem allowedMethodsFromMask_eq (mask : BitVec 32) :
    allowedMethodsFromMask mask = allowValue (kMethods.filter fun m => mask.getLsbD m.toNat) :=
  foldl_allow mask kMethods

end Masks

section Index
variable {η : Type} {r : Router η} {calls : List (RouteCall η)} {g : RouteCall η}

/-- The first-segment index admits this method for this path. -/
def Router.Covers (r : Router η) (reqPath : Bytes) (m : HttpMethod) : Prop :=
  (r.candidateMask reqPath).getLsbD m.toNat = true

theorem foldl_prefix_getLsbD (seg : Bytes) (i : Nat) (es : List (Bytes × BitVec 32))
    (mask : BitVec 32) :
    (es.foldl (fun mask e => if e.1.isPrefixOf seg then mask ||| e.2 else mask) mask).getLsbD i =
      (mask.getLsbD i || es.any fun e => e.1.isPrefixOf seg && e.2.getLsbD i) := by
  induction es generalizing mask with
  | nil => simp
  | cons e es ih =>
    rw [List.foldl_cons, ih, List.any_cons]
    cases h : e.1.isPrefixOf seg <;> simp [Bool.or_assoc]

theorem Router.covers_iff (r : Router η) (reqPath : Bytes) (m : HttpMethod) :
    r.Covers reqPath m ↔ r.dynamicFirstSegmentMask.getLsbD m.toNat = true ∨
      (r.firstSegmentMethodMasks (firstPathSegment reqPath)).getLsbD m.toNat = true ∨
      ∃ e ∈ r.wildcardSegmentPrefixMasks,
        e.1.isPrefixOf (firstPathSegment reqPath) = true ∧ e.2.getLsbD m.toNat = true := by
  simp only [Router.Covers, Router.candidateMask, foldl_prefix_getLsbD, BitVec.getLsbD_or,
    Bool.or_eq_true, List.any_eq_true, Bool.and_eq_true, or_assoc]

theorem indexWildcardSegmentPrefix_admits (bit : BitVec 32) (token seg : Bytes) (i : Nat)
    (es : List (Bytes × BitVec 32)) :
    (∃ e ∈ indexWildcardSegmentPrefix bit token es,
        e.1.isPrefixOf seg = true ∧ e.2.getLsbD i = true) ↔
      (∃ e ∈ es, e.1.isPrefixOf seg = true ∧ e.2.getLsbD i = true) ∨
        (token.isPrefixOf seg = true ∧ bit.getLsbD i = true) := by
  induction es with
  | nil => simp [indexWildcardSegmentPrefix]
  | cons e es ih =>
    rw [indexWildcardSegmentPrefix]
    split
    · next he =>
      subst he
      simp only [List.mem_cons, exists_eq_or_imp, BitVec.getLsbD_or, Bool.or_eq_true]
      grind
    · simp only [List.mem_cons, exists_eq_or_imp, ih]
      grind

theorem Router.addFirstSegment_covers (r : Router η) (seg : Bytes) (m n : HttpMethod)
    (reqPath : Bytes) :
    (r.addFirstSegment seg (methodBit m)).Covers reqPath n ↔
      r.Covers reqPath n ∨ (firstPathSegment reqPath = seg ∧ m = n) := by
  simp only [Router.covers_iff, Router.addFirstSegment, Function.update_apply]
  by_cases h : firstPathSegment reqPath = seg
  · simp only [h, ↓reduceIte, BitVec.getLsbD_or, methodBit_getLsbD, Bool.or_eq_true,
      decide_eq_true_eq]
    grind
  · simp only [h, ↓reduceIte, false_and, or_false]

theorem Router.addDynamic_covers (r : Router η) (m n : HttpMethod) (reqPath : Bytes) :
    { r with dynamicFirstSegmentMask := r.dynamicFirstSegmentMask ||| methodBit m : Router η }.Covers
        reqPath n ↔ r.Covers reqPath n ∨ m = n := by
  simp only [Router.covers_iff, BitVec.getLsbD_or, methodBit_getLsbD, Bool.or_eq_true,
    decide_eq_true_eq]
  grind

/-- Filing a route never removes a method from the index. -/
theorem Router.index_covers_mono (h : r.Covers reqPath n) (m : HttpMethod) (path : Bytes)
    (kind : RouteKind) : (r.indexRouteFirstSegment m path kind).Covers reqPath n := by
  cases kind with
  | hStatic => exact (r.addFirstSegment_covers _ _ _ _).2 (.inl h)
  | hParam =>
    simp only [Router.indexRouteFirstSegment]
    split
    · exact (r.addDynamic_covers _ _ _).2 (.inl h)
    · exact (r.addFirstSegment_covers _ _ _ _).2 (.inl h)
  | hWildcard =>
    simp only [Router.indexRouteFirstSegment]
    split
    · exact (r.addDynamic_covers _ _ _).2 (.inl h)
    · split
      · exact (r.addDynamic_covers _ _ _).2 (.inl h)
      · split
        · rw [Router.covers_iff] at h ⊢
          simp only [indexWildcardSegmentPrefix_admits]
          grind
        · exact (r.addFirstSegment_covers _ _ _ _).2 (.inl h)

theorem matchSegments_first (h : (matchSegments n pattern path).isSome = true)
    (hp : isParamSegment (cut slash pattern).1 = false) :
    (cut slash path).1 = (cut slash pattern).1 := by
  unfold matchSegments at h
  split at h
  · split at h
    · next he => rw [he.1, he.2]
    · cases h
  · cases n with
    | zero => cases h
    | succ n =>
      simp only [hp, Bool.false_eq_true, ↓reduceIte] at h
      split at h
      · cases h
      · next he => exact (not_not.1 he).symm

/-- The index admits the route that was just filed, wherever that route accepts. -/
theorem Router.index_covers_new (r : Router η) (g : RouteCall η) (h : g.accepts reqPath = true) :
    (r.indexRouteFirstSegment g.method g.path g.kind).Covers reqPath g.method := by
  cases hk : g.kind with
  | hStatic =>
    simp only [RouteCall.accepts, hk, beq_iff_eq] at h
    subst h
    exact (r.addFirstSegment_covers _ _ _ _).2 (.inr ⟨rfl, rfl⟩)
  | hParam =>
    simp only [RouteCall.accepts, hk] at h
    simp only [Router.indexRouteFirstSegment]
    split
    · exact (r.addDynamic_covers _ _ _).2 (.inr rfl)
    · next hs =>
      refine (r.addFirstSegment_covers _ _ _ _).2 (.inr ⟨?_, rfl⟩)
      exact matchSegments_first h (by simpa only [Bool.not_eq_true, firstPathSegment] using hs)
  | hWildcard =>
    simp only [RouteCall.accepts, hk] at h
    simp only [Router.indexRouteFirstSegment]
    split
    · exact (r.addDynamic_covers _ _ _).2 (.inr rfl)
    · next b rest hp =>
      rw [hp] at h
      split
      · exact (r.addDynamic_covers _ _ _).2 (.inr rfl)
      · next hb =>
        have hb : b = slash := not_not.1 hb
        subst hb
        obtain ⟨t, rfl⟩ := List.isPrefixOf_iff_prefix.1 h
        have hf : firstPathSegment ((slash :: rest) ++ t) = (cut slash (rest ++ t)).1 := by
          simp only [firstPathSegment, dropSlash, List.cons_append, ↓reduceIte]
        split
        · next hc =>
          -- no further slash: the whole rest lies in the first segment of the path
          rw [Router.covers_iff, hf, cut_append (cut_none hc).2]
          refine .inr (.inr ((indexWildcardSegmentPrefix_admits _ _ _ _ _).2 (.inr ⟨?_, ?_⟩)))
          · exact List.isPrefixOf_iff_prefix.2 (List.prefix_append _ _)
          · rw [methodBit_getLsbD, decide_eq_true rfl]
        · next segment q hc =>
          obtain ⟨hr, hn⟩ := cut_some hc
          refine (r.addFirstSegment_covers _ _ _ _).2 (.inr ⟨?_, rfl⟩)
          rw [hf, hr, List.append_assoc, List.cons_append, cut_append_sep hn]

theorem Router.index_tables (r : Router η) (m : HttpMethod) (path : Bytes) (kind : RouteKind) :
    (r.indexRouteFirstSegment m path kind).staticRoutes = r.staticRoutes ∧
    (r.indexRouteFirstSegment m path kind).staticPathMethods = r.staticPathMethods ∧
    (r.indexRouteFirstSegment m path kind).paramRoutesByMethod = r.paramRoutesByMethod ∧
    (r.indexRouteFirstSegment m path kind).wildcardRoutesByMethod = r.wildcardRoutesByMethod ∧
    (r.indexRouteFirstSegment m path kind).phrLookup = r.phrLookup := by
  cases kind with
  | hStatic => exact ⟨rfl, rfl, rfl, rfl, rfl⟩
  | hParam =>
    simp only [Router.indexRouteFirstSegment]
    split <;> exact ⟨rfl, rfl, rfl, rfl, rfl⟩
  | hWildcard =>
    simp only [Router.indexRouteFirstSegment]
    split
    · exact ⟨rfl, rfl, rfl, rfl, rfl⟩
    · split
      · exact ⟨rfl, rfl, rfl, rfl, rfl⟩
      · split <;> exact ⟨rfl, rfl, rfl, rfl, rfl⟩

/-- The tables hold exactly the registered routes, and the index admits all of them. -/
structure Router.Files (r : Router η) (calls : List (RouteCall η)) : Prop where
  phr : r.phrLookup = none
  staticRoute : ∀ m p, (r.staticRoutes m p).isSome = true ↔
    ∃ g ∈ calls, g.kind = .hStatic ∧ g.method = m ∧ g.path = p
  staticMethod : ∀ p m, m ∈ r.staticPathMethods p ↔
    ∃ g ∈ calls, g.kind = .hStatic ∧ g.method = m ∧ g.path = p
  param : ∀ m p, (∃ e ∈ r.paramRoutesByMethod m, e.path = p) ↔
    ∃ g ∈ calls, g.kind = .hParam ∧ g.method = m ∧ g.path = p
  wildcard : ∀ m p, (∃ e ∈ r.wildcardRoutesByMethod m, e.pre = p) ↔
    ∃ g ∈ calls, g.kind = .hWildcard ∧ g.method = m ∧ (cut star g.path).1 = p
  covers : ∀ g ∈ calls, ∀ reqPath, g.accepts reqPath = true → r.Covers reqPath g.method

theorem Router.files_empty : (Router.empty η).Files [] where
  phr := rfl
  staticRoute := by simp [Router.empty]
  staticMethod := by simp [Router.empty]
  param := by simp [Router.empty]
  wildcard := by simp [Router.empty]
  covers := by simp

def Router.enter (r : Router η) (g : RouteCall η) : Router η :=
  match g.kind with
  | .hStatic => r.addStatic g.method g.path g.endpoint
  | .hParam => r.addParam g.method g.path g.endpoint
  | .hWildcard => r.addWildcard g.method g.path g.endpoint

theorem RouteCall.apply_enter (r : Router η) (g : RouteCall η) :
    g.apply r = (r.enter g).indexRouteFirstSegment g.method g.path g.kind := by
  rw [RouteCall.apply_eq, Router.register, Router.enter]
  unfold RouteCall.kind
  split
  · rfl
  · split <;> rfl

theorem exists_mem_snoc {p : RouteCall η → Prop} :
    (∃ c ∈ calls ++ [g], p c) ↔ (∃ c ∈ calls, p c) ∨ p g := by
  simp only [List.mem_append, List.mem_singleton, or_and_right, exists_or, exists_eq_left]

theorem Router.covers_snoc (r' : Router η) (g : RouteCall η)
    (h : ∀ c ∈ calls, ∀ reqPath, c.accepts reqPath = true → r'.Covers reqPath c.method) :
    ∀ c ∈ calls ++ [g], ∀ reqPath, c.accepts reqPath = true →
      (r'.indexRouteFirstSegment g.method g.path g.kind).Covers reqPath c.method := by
  intro c hc reqPath ha
  rcases List.mem_append.1 hc with hc | hc
  · exact Router.index_covers_mono (h c hc reqPath ha) _ _ _
  · rw [List.mem_singleton] at hc
    subst hc
    exact r'.index_covers_new c ha

theorem Router.Files.filed (h : r.Files calls) (henter : r.enter g = r') (hphr : r'.phrLookup = r.phrLookup)
    (hcovers : ∀ reqPath m, r.Covers reqPath m → r'.Covers reqPath m)
    (hstaticRoute : ∀ m p, (r'.staticRoutes m p).isSome = true ↔
      (r.staticRoutes m p).isSome = true ∨ g.kind = .hStatic ∧ g.method = m ∧ g.path = p)
    (hstaticMethod : ∀ p m, m ∈ r'.staticPathMethods p ↔
      m ∈ r.staticPathMethods p ∨ g.kind = .hStatic ∧ g.method = m ∧ g.path = p)
    (hparam : ∀ m p, (∃ e ∈ r'.paramRoutesByMethod m, e.path = p) ↔
      (∃ e ∈ r.paramRoutesByMethod m, e.path = p) ∨ g.kind = .hParam ∧ g.method = m ∧ g.path = p)
    (hwildcard : ∀ m p, (∃ e ∈ r'.wildcardRoutesByMethod m, e.pre = p) ↔
      (∃ e ∈ r.wildcardRoutesByMethod m, e.pre = p) ∨
        g.kind = .hWildcard ∧ g.method = m ∧ (cut star g.path).1 = p) :
    (g.apply r).Files (calls ++ [g]) := by
  rw [RouteCall.apply_enter, henter]
  obtain ⟨h₁, h₂, h₃, h₄, h₅⟩ := r'.index_tables g.method g.path g.kind
  refine ⟨h₅.trans (hphr.trans h.phr), ?_, ?_, ?_, ?_, ?_⟩
  · intro m p
    rw [h₁, exists_mem_snoc, ← h.staticRoute, hstaticRoute]
  · intro p m
    rw [h₂, exists_mem_snoc, ← h.staticMethod, hstaticMethod]
  · intro m p
    rw [h₃, exists_mem_snoc, ← h.param, hparam]
  · intro m p
    rw [h₄, exists_mem_snoc, ← h.wildcard, hwildcard]
  · exact Router.covers_snoc r' g fun c hc reqPath ha => hcovers _ _ (h.covers c hc reqPath ha)

theorem Router.Files.snoc (h : r.Files calls) (g : RouteCall η) :
    (g.apply r).Files (calls ++ [g]) := by
  cases hk : g.kind with
  | hStatic =>
    have henter : r.enter g = r.addStatic g.method g.path g.endpoint := by rw [Router.enter, hk]
    apply h.filed henter rfl fun _ _ => id
    · intro m p
      by_cases hm : m = g.method
      · by_cases hp : p = g.path
        · simp [Router.addStatic, hm, hp, hk]
        · simp [Router.addStatic, hm, hp, Ne.symm hp]
      · simp [Router.addStatic, hm, Ne.symm hm]
    · intro p m
      by_cases hp : p = g.path
      · simp [Router.addStatic, hp, hk, eq_comm]
      · simp [Router.addStatic, hp, Ne.symm hp]
    · simp [Router.addStatic, hk]
    · simp [Router.addStatic, hk]
  | hParam =>
    have henter : r.enter g = r.addParam g.method g.path g.endpoint := by rw [Router.enter, hk]
    apply h.filed henter rfl fun _ _ => id
    · simp [Router.addParam, hk]
    · simp [Router.addParam, hk]
    · intro m p
      by_cases hm : m = g.method
      · simp [Router.addParam, hm, hk, or_and_right, exists_or]
      · simp [Router.addParam, hm, Ne.symm hm]
    · simp [Router.addParam, hk]
  | hWildcard =>
    have henter : r.enter g = r.addWildcard g.method g.path g.endpoint := by rw [Router.enter, hk]
    apply h.filed henter rfl fun _ _ => id
    · simp [Router.addWildcard, hk]
    · simp [Router.addWildcard, hk]
    · simp [Router.addWildcard, hk]
    · intro m p
      by_cases hm : m = g.method
      · simp [Router.addWildcard, hm, hk, or_and_right, exists_or]
      · simp [Router.addWildcard, hm, Ne.symm hm]

theorem registered_files (calls : List (RouteCall η)) : (registered calls).Files calls := by
  have h (done : List (RouteCall η)) (r : Router η) (hr : r.Files done) :
      (calls.foldl RouteCall.apply r).Files (done ++ calls) := by
    induction calls generalizing done r with
    | nil => simpa using hr
    | cons g calls ih => simpa using ih _ _ (hr.snoc g)
  simpa [registered] using h [] _ Router.files_empty

/-- A route of this method accepts the path exactly when one of the three tables has it. -/
theorem Router.Files.routed_iff (h : r.Files calls) (m : HttpMethod) (reqPath : Bytes) :
    routed calls m reqPath = true ↔ (r.staticRoutes m reqPath).isSome = true ∨
      ((r.paramRoutesByMethod m).any fun e => (matchParamPath e.path reqPath).isSome) = true ∨
      ((r.wildcardRoutesByMethod m).any (·.takes reqPath)) = true := by
  have hp : ((r.paramRoutesByMethod m).any fun e => (matchParamPath e.path reqPath).isSome) = true ↔
      ∃ p, (∃ e ∈ r.paramRoutesByMethod m, e.path = p) ∧
        (matchParamPath p reqPath).isSome = true := by
    simp only [List.any_eq_true]
    grind
  have hw : ((r.wildcardRoutesByMethod m).any (·.takes reqPath)) = true ↔
      ∃ p, (∃ e ∈ r.wildcardRoutesByMethod m, e.pre = p) ∧ p.isPrefixOf reqPath = true := by
    simp only [List.any_eq_true, WildcardRouteEntry.takes]
    grind
  rw [hp, hw, h.staticRoute]
  simp only [h.param, h.wildcard, routed, List.any_eq_true, Bool.and_eq_true, decide_eq_true_eq]
  constructor
  · rintro ⟨g, hg, hm, ha⟩
    cases hk : g.kind with
    | hStatic => exact .inl ⟨g, hg, hk, hm, by simpa [RouteCall.accepts, hk] using ha⟩
    | hParam =>
      simp only [RouteCall.accepts, hk] at ha
      exact .inr (.inl ⟨_, ⟨g, hg, hk, hm, rfl⟩, ha⟩)
    | hWildcard =>
      simp only [RouteCall.accepts, hk] at ha
      exact .inr (.inr ⟨_, ⟨g, hg, hk, hm, rfl⟩, ha⟩)
  · rintro (⟨g, hg, hk, hm, hp⟩ | ⟨p, ⟨g, hg, hk, hm, rfl⟩, ha⟩ | ⟨p, ⟨g, hg, hk, hm, rfl⟩, ha⟩)
    · exact ⟨g, hg, hm, by simp [RouteCall.accepts, hk, hp]⟩
    · exact ⟨g, hg, hm, by simp [RouteCall.accepts, hk, ha]⟩
    · exact ⟨g, hg, hm, by simp [RouteCall.accepts, hk, ha]⟩

theorem Router.Files.lookup_none (h : r.Files calls) (hn : routed calls m reqPath = false) :
    r.lookup m reqPath = none := by
  have hr : ¬ routed calls m reqPath = true := by simp [hn]
  rw [h.routed_iff] at hr
  push Not at hr
  obtain ⟨hs, hp, hw⟩ := hr
  have hs : r.staticRoutes m reqPath = none := by simpa using hs
  have hp : (r.paramRoutesByMethod m).find?
      (fun e => (matchParamPath e.path reqPath).isSome) = none := by
    simpa [List.find?_eq_none] using hp
  have hw : (r.wildcardRoutesByMethod m).find? (·.takes reqPath) = none := by
    simpa [List.find?_eq_none] using hw
  simp only [Router.lookup, h.phr, Option.bind_none, hs, hp, hw]

/-- The index prunes nothing: the mask has the bit of exactly the other methods that have a route
for the path. -/
theorem Router.Files.allowMask_getLsbD (h : r.Files calls) (reqMethod m : HttpMethod)
    (reqPath : Bytes) :
    (r.allowMask reqMethod reqPath).getLsbD m.toNat =
      (decide (m ≠ reqMethod) && routed calls m reqPath) := by
  -- a routed method is a candidate, because the index covers the route that accepts
  have hcover : routed calls m reqPath = true →
      (r.candidateMask reqPath).getLsbD m.toNat = true := by
    simp only [routed, List.any_eq_true, Bool.and_eq_true, decide_eq_true_eq]
    rintro ⟨g, hg, rfl, ha⟩
    exact h.covers g hg reqPath ha
  have hlt : m.toNat < 32 := by cases m <;> decide
  have hother : (r.candidateMask reqPath &&& ~~~methodBit reqMethod).getLsbD m.toNat =
      ((r.candidateMask reqPath).getLsbD m.toNat && decide (m ≠ reqMethod)) := by
    rw [BitVec.getLsbD_and, BitVec.getLsbD_not, methodBit_getLsbD]
    simp [hlt, eq_comm]
  have hstatic : (r.staticPathMethods reqPath).contains m =
      (r.staticRoutes m reqPath).isSome := by
    rw [Bool.eq_iff_iff, List.contains_iff_mem, h.staticMethod, h.staticRoute]
  have hr := h.routed_iff m reqPath
  by_cases hz : r.candidateMask reqPath &&& ~~~methodBit reqMethod = 0
  · rw [hz] at hother
    simp only [BitVec.ofNat_eq_ofNat, BitVec.getLsbD_zero] at hother
    simp only [Router.allowMask, hz, ↓reduceIte, BitVec.ofNat_eq_ofNat, BitVec.getLsbD_zero]
    grind
  · simp only [Router.allowMask]
    rw [if_neg hz, scanGroups_getLsbD, scanGroups_getLsbD, foldl_methods_getLsbD, hother, hstatic]
    simp only [BitVec.ofNat_eq_ofNat, BitVec.getLsbD_zero, Bool.false_or]
    generalize (r.staticRoutes m reqPath).isSome = a at hr ⊢
    generalize ((r.paramRoutesByMethod m).any
      fun e => (matchParamPath e.path reqPath).isSome) = b at hr ⊢
    generalize ((r.wildcardRoutesByMethod m).any (·.takes reqPath)) = c at hr ⊢
    generalize routed calls m reqPath = d at hr hcover ⊢
    generalize (r.candidateMask reqPath).getLsbD m.toNat = e at hcover ⊢
    generalize decide (m ≠ reqMethod) = f
    revert hr hcover
    cases a <;> cases b <;> cases c <;> cases d <;> cases e <;> cases f <;> decide

end Index

/-- When no route of the request's own method accepts the path, the `Allow` value lists exactly the
other real methods under which some registered route accepts it. -/
theorem resolveRoute_allowedMethods (calls : List (RouteCall η)) (reqMethod : HttpMethod)
    (rawPath : Bytes) (hdeep : pathTooDeep rawPath = false)
    (hmiss : routed calls reqMethod (decodedPath rawPath) = false) :
    (registered calls).resolveRoute reqMethod rawPath =
      ⟨none, allowValue (kMethods.filter fun m =>
        decide (m ≠ reqMethod) && routed calls m (decodedPath rawPath)), false, []⟩ := by
  have hf := registered_files calls
  simp only [Router.resolveRoute, hdeep, Bool.false_eq_true, ↓reduceIte, hf.lookup_none hmiss,
    allowedMethodsFromMask_eq, hf.allowMask_getLsbD]

/-- A path under a parameter route, a static route and an in-segment wildcard, asked for with a
method none of them has. -/
theorem resolveRoute_allowedMethods_files :
    (registered [.route .hGet (bytes "/files*x") 1, .routeSync .hPut (bytes "/{id}/a b") 2,
      .compileTimeRoute .hDelete (bytes "/files/a b") 3]).resolveRoute .hPost
        (bytes "/files/a%20b") =
      ⟨none, bytes "GET, PUT, DELETE", false, []⟩ :=
  resolveRoute_allowedMethods
    [.route .hGet (bytes "/files*x") 1, .routeSync .hPut (bytes "/{id}/a b") 2,
      .compileTimeRoute .hDelete (bytes "/files/a b") 3] .hPost (bytes "/files/a%20b")
    (by decide) (by decide)

end Hical
