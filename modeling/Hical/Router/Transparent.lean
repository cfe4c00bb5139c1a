import Hical.Router.PerfectHash

namespace Hical

/-- The router with its injected table. An entry pointer is the key of the map node it points to;
nodes are never removed, and a later registration of the key rewrites the node in place. -/
structure HashedRouter (η : Type) where
  /-- The tables, without the injected lookup. -/
  routes : Router η
  phrLookup : RuntimePerfectHashLookup
  phrEntryMap : List (Option (HttpMethod × Bytes))

/-- One row of a handler's route table. -/
structure RouteRegistrar (η : Type) where
  method : HttpMethod
  path : StringView
  handler : η
  sync : Bool

/-- `registerOneRoute`. -/
def RouteRegistrar.call (row : RouteRegistrar η) : RouteCall η :=
  if row.sync then .routeSync row.method row.path.str row.handler
  else .route row.method row.path.str row.handler

/-- The keys of the static rows: neither `{` nor `*` in the path. -/
def collectStaticRouteKeys (table : List (RouteRegistrar η)) : List (HttpMethod × StringView) :=
  (table.filter fun row => !row.path.str.contains 123 && !row.path.str.contains star).map
    fun row => (row.method, row.path)

namespace HashedRouter

def empty (η : Type) : HashedRouter η := ⟨.empty η, .invalid, []⟩

/-- One pointer for each key of the table, filled in the order in which the map is walked. -/
def setPerfectHashLookup (s : HashedRouter η) (lookup : RuntimePerfectHashLookup)
    (order : List (HttpMethod × Bytes)) : HashedRouter η where
  routes := s.routes
  phrLookup := lookup
  phrEntryMap := Slots.fill (List.replicate lookup.keyCount none) <|
    order.filterMap fun key => (lookup.lookup key.1 key.2).bind fun idx =>
      if idx < lookup.keyCount then some (idx, some key) else none

def route (s : HashedRouter η) (g : RouteCall η) : HashedRouter η :=
  { s with routes := g.apply s.routes }

def registerAll (s : HashedRouter η) (table : List (RouteRegistrar η)) : HashedRouter η :=
  { s with routes := (table.map RouteRegistrar.call).foldl RouteCall.apply s.routes }

def registerRoutes (s : HashedRouter η) (table : List (RouteRegistrar η))
    (order : List (HttpMethod × Bytes)) : HashedRouter η :=
  let s := s.registerAll table
  let keys := collectStaticRouteKeys table
  if keys.isEmpty then s
  else
    let lookup := RuntimePerfectHashLookup.buildFromKeys keys
    if lookup.valid then s.setPerfectHashLookup lookup order else s

/-- What a valid table finds: nothing, or the entry behind the pointer. -/
def pointed (s : HashedRouter η) (method : HttpMethod) (path : Bytes) :
    Option (Option (Endpoint η)) :=
  match s.phrLookup.lookup method path with
  | none => none
  | some idx =>
    match s.phrEntryMap[idx]? with
    | none => none
    | some pointer => some (pointer.bind fun key => s.routes.staticRoutes key.1 key.2)

def router (s : HashedRouter η) : Router η :=
  { s.routes with phrLookup := if s.phrLookup.valid then some s.pointed else none }

def resolveRoute (s : HashedRouter η) (method : HttpMethod) (rawPath : Bytes) : ResolveResult η :=
  s.router.resolveRoute method rawPath

/-- The routers that registrations lead to, each with the plain calls it amounts to. -/
inductive Registered : HashedRouter η → List (RouteCall η) → Prop where
  | start : Registered (empty η) []
  | route {s : HashedRouter η} (h : Registered s calls) (g : RouteCall η) :
      Registered (s.route g) (calls ++ [g])
  /-- The map's walk meets every static route, in some order. -/
  | registerRoutes {s : HashedRouter η} (h : Registered s calls) (table : List (RouteRegistrar η))
      (horder : ∀ m p, (m, p) ∈ order ↔ ((s.registerAll table).routes.staticRoutes m p).isSome = true) :
      Registered (s.registerRoutes table order) (calls ++ table.map RouteRegistrar.call)

/-- A pointer that a lookup reaches is the node of the key looked up, which was registered. -/
def Points (s : HashedRouter η) (calls : List (RouteCall η)) : Prop :=
  s.phrLookup.valid = true → ∀ m p idx, s.phrLookup.lookup m p = some idx →
    s.phrEntryMap[idx]? = some (some (m, p)) ∧
      ∃ g ∈ calls, g.kind = .hStatic ∧ g.method = m ∧ g.path = p

end HashedRouter

section Transparent
variable {η : Type} {s : HashedRouter η} {calls : List (RouteCall η)}
open HashedRouter

theorem RouteRegistrar.call_method (row : RouteRegistrar η) : row.call.method = row.method := by
  rw [RouteRegistrar.call]
  split
  · rfl
  · rfl

theorem RouteRegistrar.call_path (row : RouteRegistrar η) : row.call.path = row.path.str := by
  rw [RouteRegistrar.call]
  split
  · rfl
  · rfl

theorem mem_collectStaticRouteKeys {table : List (RouteRegistrar η)} {view : StringView}
    (h : (m, view) ∈ collectStaticRouteKeys table) :
    ∃ g ∈ table.map RouteRegistrar.call, g.kind = .hStatic ∧ g.method = m ∧ g.path = view.str := by
  obtain ⟨row, hrow, heq⟩ := List.mem_map.1 h
  obtain ⟨rfl, rfl⟩ := Prod.mk.inj heq
  obtain ⟨hmem, hstatic⟩ := List.mem_filter.1 hrow
  rw [Bool.and_eq_true, Bool.not_eq_true', Bool.not_eq_true'] at hstatic
  refine ⟨row.call, List.mem_map_of_mem hmem, ?_, row.call_method, row.call_path⟩
  have hstar : star ∉ row.path.str := by
    intro hin
    rw [List.contains_iff_mem.2 hin] at hstatic
    cases hstatic.2
  rw [RouteCall.kind, row.call_path, isWildcardRoute, cut_eq_self hstar, isParamRoute, hstatic.1]
  rfl

theorem registerRoutes_routes (table : List (RouteRegistrar η)) (order : List (HttpMethod × Bytes)) :
    (s.registerRoutes table order).routes = (s.registerAll table).routes := by
  rw [registerRoutes]
  dsimp only
  split
  · rfl
  · split
    · rfl
    · rfl

theorem HashedRouter.Registered.routes_eq (h : Registered s calls) : s.routes = registered calls := by
  induction h with
  | start => rfl
  | route h g ih =>
    rw [registered, List.foldl_append, HashedRouter.route, ih]
    rfl
  | registerRoutes h table horder ih =>
    rw [registerRoutes_routes, registerAll, registered, List.foldl_append, ih]
    rfl

theorem HashedRouter.Points.more (h : Points s calls) (s' : HashedRouter η) (hphr : s'.phrLookup = s.phrLookup)
    (hmap : s'.phrEntryMap = s.phrEntryMap) (more : List (RouteCall η)) :
    Points s' (calls ++ more) := by
  intro hvalid m p idx hl
  rw [hphr] at hvalid hl
  obtain ⟨hpoint, g, hg, hkind⟩ := h hvalid m p idx hl
  rw [hmap]
  exact ⟨hpoint, g, List.mem_append_left _ hg, hkind⟩

theorem setPerfectHashLookup_points {keys : List (HttpMethod × StringView)}
    {t : RuntimePerfectHashLookup} (ht : t.Built keys)
    (hkeys : ∀ m view, (m, view) ∈ keys →
      ∃ g ∈ calls, g.kind = .hStatic ∧ g.method = m ∧ g.path = StringView.str view)
    (horder : ∀ m p, (∃ g ∈ calls, g.kind = .hStatic ∧ g.method = m ∧ g.path = p) → (m, p) ∈ order) :
    Points (s.setPerfectHashLookup t order) calls := by
  intro _ m p idx hl
  have hl : t.lookup m p = some idx := hl
  obtain ⟨view, hkey, rfl, -⟩ := ht.lookup_some hl
  have hreg := hkeys m view (List.mem_of_getElem? hkey)
  refine ⟨?_, hreg⟩
  have hidx : idx < t.keyCount := by
    rw [RuntimePerfectHashLookup.keyCount, ht.keyed, RuntimePerfectHashLookup.indexed,
      List.length_map, List.length_zipIdx]
    exact (List.getElem?_eq_some_iff.1 hkey).1
  have hwritten : (idx, some (m, view.str)) ∈ order.filterMap fun key =>
      (t.lookup key.1 key.2).bind fun idx =>
        if idx < t.keyCount then some (idx, some key) else none := by
    refine List.mem_filterMap.2 ⟨(m, view.str), horder m view.str hreg, ?_⟩
    rw [hl, Option.bind_some, if_pos hidx]
  obtain ⟨w, hw, hplace, hval⟩ := Slots.fill_written ⟨_, hwritten, rfl⟩
    (Nat.lt_of_lt_of_eq hidx (List.length_replicate (a := (none : Option (HttpMethod × Bytes)))).symm)
  obtain ⟨key, hkey', heq⟩ := List.mem_filterMap.1 hw
  -- only this key's content has the index
  obtain ⟨i, hi, heq⟩ := Option.bind_eq_some_iff.1 heq
  split at heq
  · obtain rfl := Option.some.inj heq
    obtain rfl : i = idx := hplace
    obtain ⟨view', hkey'', hstr, -⟩ := ht.lookup_some hi
    rw [hkey] at hkey''
    obtain ⟨hm, rfl⟩ := Prod.mk.inj (Option.some.inj hkey'')
    rw [setPerfectHashLookup, hval, hm, hstr]
  · cases heq

theorem HashedRouter.Registered.points (h : Registered s calls) : Points s calls := by
  induction h with
  | start =>
    intro hvalid
    cases hvalid
  | route h g ih => exact Points.more ih _ rfl rfl _
  | @registerRoutes calls order s h table horder ih =>
    have hall : Points (s.registerAll table) (calls ++ table.map RouteRegistrar.call) :=
      Points.more ih _ rfl rfl _
    rw [HashedRouter.registerRoutes]
    dsimp only
    split
    · exact hall
    · split
      · next hvalid =>
        apply setPerfectHashLookup_points (buildFromKeys_built hvalid)
        · intro m view hkey
          obtain ⟨g, hg, hkind⟩ := mem_collectStaticRouteKeys hkey
          exact ⟨g, List.mem_append_right _ hg, hkind⟩
        · intro m p hg
          have hroutes := (h.registerRoutes table horder).routes_eq
          rw [registerRoutes_routes] at hroutes
          rw [horder, hroutes]
          exact ((registered_files _).staticRoute m p).2 hg
      · exact hall

theorem HashedRouter.Registered.pointed_eq (h : Registered s calls)
    (hvalid : s.phrLookup.valid = true) (hp : s.pointed m p = some entry) :
    entry = s.routes.staticRoutes m p ∧ (s.routes.staticRoutes m p).isSome = true := by
  rw [pointed] at hp
  cases hl : s.phrLookup.lookup m p with
  | none =>
    rw [hl] at hp
    cases hp
  | some idx =>
    obtain ⟨hpoint, hreg⟩ := h.points hvalid m p idx hl
    rw [hl] at hp
    dsimp only at hp
    rw [hpoint] at hp
    refine ⟨(Option.some.inj hp).symm, ?_⟩
    rw [h.routes_eq]
    exact ((registered_files calls).staticRoute m p).2 hreg

theorem HashedRouter.Registered.resolveRoute_eq (h : Registered s calls) (m : HttpMethod)
    (rawPath : Bytes) : s.resolveRoute m rawPath = (registered calls).resolveRoute m rawPath := by
  have hlookup : ∀ p, s.router.lookup m p = s.routes.lookup m p := by
    intro p
    have hbase : s.routes.phrLookup = none := by
      rw [h.routes_eq]
      exact (registered_files calls).phr
    cases hvalid : s.phrLookup.valid with
    | false =>
      have hrouter : s.router = s.routes := by
        rw [router, hvalid, ← hbase]
        rfl
      rw [hrouter]
    | true =>
      have hphr : s.router.phrLookup = some s.pointed := by
        rw [router, hvalid]
        rfl
      cases hp : s.pointed m p with
      | none =>
        simp only [Router.lookup, hphr, hbase, Option.bind_some, Option.bind_none, hp]
        rfl
      | some entry =>
        obtain ⟨rfl, hsome⟩ := h.pointed_eq hvalid hp
        obtain ⟨e, he⟩ := Option.isSome_iff_exists.1 hsome
        simp only [Router.lookup, hphr, hbase, Option.bind_some, Option.bind_none, hp, he,
          Option.map_some]
  rw [← h.routes_eq, HashedRouter.resolveRoute, Router.resolveRoute, Router.resolveRoute]
  simp only [hlookup]
  rfl

/-- Every key is found at its index, nothing else is found, and no lookup leaves the table. -/
def RuntimePerfectHashLookup.Exact (keys : List (HttpMethod × StringView))
    (t : RuntimePerfectHashLookup) : Prop :=
  (∀ (i : Nat) (m : HttpMethod) (view : StringView), keys[i]? = some (m, view) →
    t.lookup m view.str = some i) ∧
  (∀ m p, (∀ k ∈ keys, ¬(k.1 = m ∧ StringView.str k.2 = p)) → t.lookup m p = none) ∧
  (∀ m p, t.slot m p < t.entries.length) ∧
  t.entries.length = RuntimePerfectHashLookup.tableSize keys.length

theorem RuntimePerfectHashLookup.Built.exact_iff {keys : List (HttpMethod × StringView)}
    {t : RuntimePerfectHashLookup} (h : t.Built keys) :
    t.Exact keys ↔ ∀ k ∈ keys, k.2.isSome = true := by
  constructor
  · rintro ⟨hkeys, -⟩ ⟨m, view⟩ hmem
    obtain ⟨i, hi⟩ := List.mem_iff_getElem?.1 hmem
    have hfound := hkeys i m view hi
    rw [h.lookup_key hi] at hfound
    split at hfound
    · next hsome => exact hsome
    · cases hfound
  · intro hdata
    refine ⟨fun i m view hi => ?_, fun m p hno => ?_, h.inside, h.size⟩
    · rw [h.lookup_key hi, if_pos (hdata _ (List.mem_of_getElem? hi))]
    · cases hl : t.lookup m p with
      | none => rfl
      | some i =>
        obtain ⟨view, hkey, hstr, -⟩ := h.lookup_some hl
        exact absurd ⟨rfl, hstr⟩ (hno _ (List.mem_of_getElem? hkey))

/-- A valid table is exact when every key has data, and only then; injected tables never show. -/
theorem perfect_hash_exact_iff {η : Type} (keys : List (HttpMethod × StringView))
    (hvalid : (RuntimePerfectHashLookup.buildFromKeys keys).valid = true) :
    (((RuntimePerfectHashLookup.buildFromKeys keys).Exact keys ∧
        ∀ (s : HashedRouter η) (calls : List (RouteCall η)), s.Registered calls →
          ∀ m rawPath, s.resolveRoute m rawPath = (registered calls).resolveRoute m rawPath) ↔
      ∀ k ∈ keys, k.2.isSome = true) := by
  rw [(buildFromKeys_built hvalid).exact_iff]
  constructor
  · exact And.left
  · intro hdata
    exact ⟨hdata, fun s calls hs m rawPath => hs.resolveRoute_eq m rawPath⟩

/-- Two methods on one path, and other paths. -/
def fourKeys : List (HttpMethod × StringView) :=
  [(.hGet, some (bytes "/users")), (.hPost, some (bytes "/users")), (.hGet, some (bytes "/health")),
    (.hDelete, some (bytes "/"))]

theorem perfect_hash_exact_four : (RuntimePerfectHashLookup.buildFromKeys fourKeys).Exact fourKeys :=
  ((@perfect_hash_exact_iff Unit fourKeys (by decide +kernel)).2 (by decide)).1

/-- A key whose view has no data sits in its slot like an empty slot. -/
theorem perfect_hash_blank_key :
    (RuntimePerfectHashLookup.buildFromKeys [(.hGet, none)]).valid = true ∧
      (RuntimePerfectHashLookup.buildFromKeys [(.hGet, none)]).lookup .hGet [] = none ∧
      ¬(RuntimePerfectHashLookup.buildFromKeys [(.hGet, none)]).Exact [(.hGet, none)] := by
  have hmiss : (RuntimePerfectHashLookup.buildFromKeys [(.hGet, none)]).lookup .hGet [] = none := by
    decide +kernel
  refine ⟨by decide +kernel, hmiss, fun h => ?_⟩
  have hfound := h.1 0 .hGet none rfl
  rw [StringView.str, Option.getD_none, hmiss] at hfound
  cases hfound

end Transparent

end Hical
