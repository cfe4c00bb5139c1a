import Hical.Middleware.Onion
import Mathlib.Data.List.TakeWhile

namespace Hical
open Effect

section CompileTime
variable {S ε ρ : Type}

/-- The tags of a compile-time chain, with what they hold. -/
inductive CompileTimeMw (S ε ρ : Type) where
  | asyncMw (handler : Prog S ε ρ)
  | syncMw (before : Eff S ε (Option ρ))
  | syncFullMw (before : Eff S ε (Option ρ)) (after : ρ → Eff S ε ρ)

namespace CompileTimeMw

/-- `SyncRunCollector`: the synchronous entries that were collected, and the remaining entries. -/
def syncRun : List (CompileTimeMw S ε ρ) → List (CompileTimeMw S ε ρ) →
    List (CompileTimeMw S ε ρ) × List (CompileTimeMw S ε ρ)
  | acc, [] => (acc, [])
  | acc, .syncMw b :: rest => syncRun (acc ++ [.syncMw b]) rest
  | acc, .syncFullMw b a :: rest => syncRun (acc ++ [.syncFullMw b a]) rest
  | acc, .asyncMw h :: rest => (acc, .asyncMw h :: rest)

theorem syncRun_remaining (acc rest : List (CompileTimeMw S ε ρ)) :
    (syncRun acc rest).2.length ≤ rest.length := by
  induction rest generalizing acc with
  | nil => exact Nat.le_refl _
  | cons e rest ih =>
    cases e with
    | asyncMw h => exact Nat.le_refl _
    | syncMw b => exact Nat.le_succ_of_le (ih _)
    | syncFullMw b a => exact Nat.le_succ_of_le (ih _)

def collectOne (s : List (Eff S ε (Option ρ)) × List (ρ → Eff S ε ρ)) :
    CompileTimeMw S ε ρ → List (Eff S ε (Option ρ)) × List (ρ → Eff S ε ρ)
  | .asyncMw _ => s
  | .syncMw before => (s.1 ++ [before], s.2)
  | .syncFullMw before after => (s.1 ++ [before], s.2 ++ [after])

def buildSyncGroup (entries : List (CompileTimeMw S ε ρ)) (next : Eff S ε ρ) : Eff S ε ρ := do
  let (befores, afters) := entries.foldl collectOne ([], [])
  match ← runBefores befores with
  | some intercepted => return intercepted
  | none =>
    let res ← next
    runAfters afters res

/-- `CompileTimeChainBuilder::build`, which takes the first group off the list. -/
def build (finalHandler : Eff S ε ρ) : List (CompileTimeMw S ε ρ) → Eff S ε ρ
  | [] => finalHandler
  | .asyncMw handler :: rest => handler.exec (build finalHandler rest)
  | .syncMw b :: rest =>
    have : (syncRun [.syncMw b] rest).2.length ≤ rest.length := syncRun_remaining _ _
    buildSyncGroup (syncRun [.syncMw b] rest).1 (build finalHandler (syncRun [.syncMw b] rest).2)
  | .syncFullMw b a :: rest =>
    have : (syncRun [.syncFullMw b a] rest).2.length ≤ rest.length := syncRun_remaining _ _
    buildSyncGroup (syncRun [.syncFullMw b a] rest).1
      (build finalHandler (syncRun [.syncFullMw b a] rest).2)
termination_by entries => entries.length
decreasing_by all_goals (simp only [List.length_cons]; omega)

/-- The runtime entry that is registered with the same handlers. -/
def entry : CompileTimeMw S ε ρ → MiddlewareEntry S ε ρ
  | .asyncMw handler => .hAsync (.code handler) false
  | .syncMw before => .hSync (some before) none false
  | .syncFullMw before after => .hSync (some before) (some after) false

/-- A tag whose handlers report their calls. -/
def traced (i : Nat) : CompileTimeMw S ε ρ → CompileTimeMw (S × List Event) ε ρ
  | .asyncMw p => .asyncMw (.act (fun s => (s.1, s.2 ++ [.async i])) fun _ => p.lift)
  | .syncMw b => .syncMw do report (.before i); b.lift
  | .syncFullMw b a =>
    .syncFullMw (do report (.before i); b.lift) fun res => do report (.after i); (a res).lift

end CompileTimeMw

def buildCompileTimeChain (entries : List (CompileTimeMw S ε ρ)) (finalHandler : Eff S ε ρ) :
    Eff S ε ρ :=
  CompileTimeMw.build finalHandler entries

/-- The befores of the fast path of a route group: those of all entries, in one loop. -/
def syncBefores : List (MiddlewareEntry S ε ρ) → Eff S ε (Option ρ)
  | [] => pure none
  | entry :: entries =>
    match entry.before with
    | some before => do
      match ← before with
      | some result => return some result
      | none => syncBefores entries
    | none => syncBefores entries

def syncAfters : List (MiddlewareEntry S ε ρ) → ρ → Eff S ε ρ
  | [], res => pure res
  | entry :: entries, res => do
    let res ← syncAfters entries res
    match entry.after with
    | some after => after res
    | none => pure res

/-- `RouteGroup::route` with a synchronous handler: what is called for the route. -/
def routeGroup (readBody : Option (Eff S ε (Option ρ))) (entries : List (MiddlewareEntry S ε ρ))
    (handler : Eff S ε ρ) : Eff S ε ρ :=
  if entries = [] then handler
  else if entries.all MiddlewareEntry.isSync then do
    match ← syncBefores entries with
    | some result => return result
    | none =>
      let res ← handler
      syncAfters entries res
  else buildOptimizedChain readBody entries handler

end CompileTime

section Agree
variable {S ε ρ : Type} (readBody : Option (Eff S ε (Option ρ))) (finalHandler : Eff S ε ρ)

/-- The chain that the backward loop leaves for some entries. -/
def merged (es : List (MiddlewareEntry S ε ρ)) : Eff S ε ρ :=
  closeRun (mergeRuns readBody finalHandler es).1 (mergeRuns readBody finalHandler es).2

/-- The loop has the run in front in its hands, and behind it what it would leave for the others. -/
theorem mergeRuns_eq (es : List (MiddlewareEntry S ε ρ)) :
    mergeRuns readBody finalHandler es =
      (es.takeWhile MiddlewareEntry.isSync,
        merged readBody finalHandler (es.dropWhile MiddlewareEntry.isSync)) := by
  induction es with
  | nil => rfl
  | cons e es ih =>
    cases e with
    | hAsync h nb => rfl
    | hSync b a nb =>
      rw [mergeRuns, ih]
      rfl

theorem merged_eq (es : List (MiddlewareEntry S ε ρ)) :
    merged readBody finalHandler es =
      mergedRun (es.takeWhile MiddlewareEntry.isSync)
        (merged readBody finalHandler (es.dropWhile MiddlewareEntry.isSync)) := by
  rw [merged, closeRun_eq, mergeRuns_eq]

theorem buildOptimizedChain_merged {es : List (MiddlewareEntry S ε ρ)}
    (hb : ∀ e ∈ es, e.needsBody = false) :
    buildOptimizedChain readBody es finalHandler = merged readBody finalHandler es := by
  have hnone : es.findIdx? MiddlewareEntry.needsBody = none := by
    rw [List.findIdx?_eq_none_iff]
    exact hb
  rw [buildOptimizedChain_eq, chainEntries, withBodyGate, insertBefore, hnone]
  rfl

namespace CompileTimeMw
variable {readBody finalHandler}

theorem syncRun_eq (acc rest : List (CompileTimeMw S ε ρ)) :
    syncRun acc rest = (acc ++ rest.takeWhile fun e => e.entry.isSync,
      rest.dropWhile fun e => e.entry.isSync) := by
  induction rest generalizing acc with
  | nil => rw [syncRun, List.takeWhile_nil, List.append_nil, List.dropWhile_nil]
  | cons e rest ih =>
    cases e with
    | asyncMw h =>
      rw [syncRun]
      exact Prod.ext (List.append_nil acc).symm rfl
    | syncMw b | syncFullMw b a =>
      rw [syncRun, ih, List.append_assoc]
      rfl

theorem foldl_collectOne (es : List (CompileTimeMw S ε ρ))
    (s : List (Eff S ε (Option ρ)) × List (ρ → Eff S ε ρ)) :
    es.foldl collectOne s =
      (s.1 ++ (es.map entry).filterMap MiddlewareEntry.before,
        s.2 ++ (es.map entry).filterMap MiddlewareEntry.after) := by
  induction es generalizing s with
  | nil => exact Prod.ext (List.append_nil _).symm (List.append_nil _).symm
  | cons e es ih =>
    rw [List.foldl_cons, ih]
    cases e with
    | asyncMw h => rfl
    | syncMw b => exact Prod.ext (List.append_assoc ..) rfl
    | syncFullMw b a => exact Prod.ext (List.append_assoc ..) (List.append_assoc ..)

theorem buildSyncGroup_eq (es : List (CompileTimeMw S ε ρ)) (next : Eff S ε ρ) :
    buildSyncGroup es next = mergedRun (es.map entry) next := by
  rw [buildSyncGroup, foldl_collectOne]
  rfl

theorem group_eq (e : CompileTimeMw S ε ρ) (he : e.entry.isSync = true)
    (rest : List (CompileTimeMw S ε ρ)) :
    buildSyncGroup (syncRun [e] rest).1
        (merged readBody finalHandler ((syncRun [e] rest).2.map entry)) =
      merged readBody finalHandler ((e :: rest).map entry) := by
  have htake : ((e :: rest).map entry).takeWhile MiddlewareEntry.isSync =
      (e :: rest.takeWhile fun e => e.entry.isSync).map entry := by
    rw [List.takeWhile_map]
    exact congrArg (List.map entry) (List.takeWhile_cons_of_pos he)
  have hdrop : ((e :: rest).map entry).dropWhile MiddlewareEntry.isSync =
      (rest.dropWhile fun e => e.entry.isSync).map entry := by
    rw [List.dropWhile_map]
    exact congrArg (List.map entry) (List.dropWhile_cons_of_pos he)
  rw [merged_eq _ _ (List.map _ (_ :: _)), htake, hdrop, buildSyncGroup_eq, syncRun_eq]
  rfl

theorem build_eq (readBody : Option (Eff S ε (Option ρ))) (es : List (CompileTimeMw S ε ρ)) :
    build finalHandler es = merged readBody finalHandler (es.map entry) := by
  fun_induction build finalHandler es with
  | case1 => rfl
  | case2 handler rest ih =>
    rw [ih]
    rfl
  | case3 b rest hlen ih =>
    rw [ih]
    exact group_eq (.syncMw b) rfl rest
  | case4 b a rest hlen ih =>
    rw [ih]
    exact group_eq (.syncFullMw b a) rfl rest

theorem needsBody_entry {e : MiddlewareEntry S ε ρ} {es : List (CompileTimeMw S ε ρ)}
    (he : e ∈ es.map entry) : e.needsBody = false := by
  obtain ⟨tag, -, rfl⟩ := List.mem_map.1 he
  cases tag with
  | asyncMw h => rfl
  | syncMw b => rfl
  | syncFullMw b a => rfl

theorem entry_traced (e : CompileTimeMw S ε ρ) (i : Nat) : (e.traced i).entry = e.entry.traced i := by
  cases e with
  | asyncMw h => rfl
  | syncMw b => rfl
  | syncFullMw b a => rfl

end CompileTimeMw

theorem syncBefores_eq (es : List (MiddlewareEntry S ε ρ)) :
    syncBefores es = runBefores (es.filterMap MiddlewareEntry.before) := by
  induction es with
  | nil => rfl
  | cons e es ih =>
    rw [syncBefores, List.filterMap_cons]
    cases e.before with
    | none => exact ih
    | some before =>
      rw [ih]
      rfl

theorem syncAfters_eq (es : List (MiddlewareEntry S ε ρ)) (res : ρ) :
    syncAfters es res = runAfters (es.filterMap MiddlewareEntry.after) res := by
  induction es generalizing res with
  | nil => rfl
  | cons e es ih =>
    rw [syncAfters, runAfters_cons, ih]
    cases e.after with
    | none => rfl
    | some after => rfl

theorem routeGroup_eq {es : List (MiddlewareEntry S ε ρ)} (hb : ∀ e ∈ es, e.needsBody = false) :
    routeGroup readBody es finalHandler = buildOptimizedChain readBody es finalHandler := by
  rw [routeGroup]
  split
  · next hnil =>
    rw [hnil]
    rfl
  split
  · next hsync =>
    have htake : es.takeWhile MiddlewareEntry.isSync = es :=
      List.takeWhile_eq_self_iff.2 (List.all_eq_true.1 hsync)
    have hdrop : es.dropWhile MiddlewareEntry.isSync = [] :=
      List.dropWhile_eq_nil_iff.2 (List.all_eq_true.1 hsync)
    rw [buildOptimizedChain_merged _ _ hb, merged_eq, htake, hdrop, mergedRun, syncBefores_eq]
    congr 1
    funext r
    cases r with
    | some result => rfl
    | none =>
      dsimp only
      congr 1
      funext res
      exact syncAfters_eq es res
  · rfl

theorem needsBody_traced (e : MiddlewareEntry S ε ρ) (i : Nat) :
    (e.traced i).needsBody = e.needsBody := by
  cases e with
  | hAsync h nb =>
    cases h with
    | code p => rfl
    | bodyGate => rfl
  | hSync b a nb => rfl

theorem needsBody_tracedEntries {es : List (MiddlewareEntry S ε ρ)}
    (hb : ∀ e ∈ es, e.needsBody = false) : ∀ e ∈ tracedEntries es, e.needsBody = false := by
  intro e he
  obtain ⟨x, hx, rfl⟩ := List.mem_map.1 he
  rw [needsBody_traced]
  exact hb _ (List.fst_mem_of_mem_zipIdx hx)

end Agree

section Observed
variable {S ε ρ : Type}

def observedCompileTime (entries : List (CompileTimeMw S ε ρ)) (finalHandler : Eff S ε ρ) (s : S) :
    Except ε ρ × List Event :=
  observed (buildCompileTimeChain (entries.zipIdx.map fun e => e.1.traced e.2)
    (tracedHandler finalHandler)) s

def observedRouteGroup (readBody : Option (Eff S ε (Option ρ)))
    (entries : List (MiddlewareEntry S ε ρ)) (handler : Eff S ε ρ) (s : S) :
    Except ε ρ × List Event :=
  observed (routeGroup (readBody.map Eff.lift) (tracedEntries entries) (tracedHandler handler)) s

theorem observedCompileTime_eq (readBody : Option (Eff S ε (Option ρ)))
    (tags : List (CompileTimeMw S ε ρ)) (finalHandler : Eff S ε ρ) (s : S) :
    observedCompileTime tags finalHandler s =
      observedOptimized readBody (tags.map CompileTimeMw.entry) finalHandler s := by
  have htraced : (tags.zipIdx.map fun e => e.1.traced e.2).map CompileTimeMw.entry =
      tracedEntries (tags.map CompileTimeMw.entry) := by
    rw [tracedEntries, List.zipIdx_map, List.map_map, List.map_map]
    exact List.map_congr_left fun e _ => e.1.entry_traced e.2
  rw [observedCompileTime, observedOptimized, buildCompileTimeChain,
    CompileTimeMw.build_eq (readBody.map Eff.lift), htraced,
    buildOptimizedChain_merged _ _ (needsBody_tracedEntries fun _ => CompileTimeMw.needsBody_entry)]

/-- Whatever the entries are, as long as none asks for the body, the chain of their tags, the chain
built at run time and the handler of a route group call the same in the same order and end the same. -/
theorem builders_agree (readBody : Option (Eff S ε (Option ρ))) (finalHandler : Eff S ε ρ)
    (tags : List (CompileTimeMw S ε ρ)) (entries : List (MiddlewareEntry S ε ρ))
    (hb : ∀ e ∈ entries, e.needsBody = false) :
    (buildCompileTimeChain tags finalHandler =
        buildOptimizedChain readBody (tags.map CompileTimeMw.entry) finalHandler ∧
      ∀ s, observedCompileTime tags finalHandler s =
        observedOptimized readBody (tags.map CompileTimeMw.entry) finalHandler s) ∧
    routeGroup readBody entries finalHandler =
        buildOptimizedChain readBody entries finalHandler ∧
      ∀ s, observedRouteGroup readBody entries finalHandler s =
        observedOptimized readBody entries finalHandler s := by
  refine ⟨⟨?_, observedCompileTime_eq readBody tags finalHandler⟩, routeGroup_eq _ _ hb, fun s => ?_⟩
  · rw [buildCompileTimeChain, CompileTimeMw.build_eq readBody,
      buildOptimizedChain_merged _ _ fun _ => CompileTimeMw.needsBody_entry]
  · rw [observedRouteGroup, observedOptimized, routeGroup_eq _ _ (needsBody_tracedEntries hb)]

/-- A guard that rejects, between two entries with an after. -/
theorem builders_agree_guard :
    observedCompileTime
        [.syncFullMw (pure none) fun res => pure (res + 1), .syncMw (pure (some 403))]
        (pure 200 : Eff Unit Unit Nat) () = (.ok 403, [.before 0, .before 1]) ∧
      observedRouteGroup none helmetThenGuard (pure 200) () = (.ok 403, [.before 1]) := by
  have h := builders_agree none (pure 200)
    [.syncFullMw (pure none) fun res => pure (res + 1), .syncMw (pure (some 403))] helmetThenGuard
    (by
      intro e he
      rcases List.mem_pair.1 he with rfl | rfl
      · rfl
      · rfl)
  rw [h.1.2 (), h.2.2 ()]
  exact ⟨rfl, rfl⟩

end Observed

end Hical
