import Hical.Middleware.Chain

namespace Hical
open Effect

section Run
variable {S ε ρ X : Type}

theorem exec_syncLayer (b : Option (Eff S ε (Option ρ))) (a : Option (ρ → Eff S ε ρ))
    (next : Eff S ε ρ) (s : S) :
    (syncLayer b a next).exec s = match (b.getD (pure none)).exec s with
      | (.ok none, s') => (next >>= a.getD pure).exec s'
      | (.ok (some r), s') => (.ok r, s')
      | (.error e, s') => (.error e, s') := by
  rw [syncLayer, exec_bind]
  rcases (b.getD (pure none)).exec s with ⟨_ | _ | _, _⟩ <;> rfl

theorem exec_runBefores_cons (e : MiddlewareEntry S ε ρ) (es : List (MiddlewareEntry S ε ρ))
    (s : S) :
    (runBefores ((e :: es).filterMap MiddlewareEntry.before)).exec s =
      match (e.before.getD (pure none)).exec s with
      | (.ok none, s') => (runBefores (es.filterMap MiddlewareEntry.before)).exec s'
      | r => r := by
  rw [List.filterMap_cons]
  cases hb : e.before with
  | none => simp
  | some b =>
    simp only [runBefores, Option.getD_some, exec_bind]
    rcases b.exec s with ⟨_ | _ | _, _⟩ <;> rfl

theorem runAfters_cons (e : MiddlewareEntry S ε ρ) (es : List (MiddlewareEntry S ε ρ)) (res : ρ) :
    runAfters ((e :: es).filterMap MiddlewareEntry.after) res =
      runAfters (es.filterMap MiddlewareEntry.after) res >>= e.after.getD pure := by
  rw [List.filterMap_cons]
  cases ha : e.after with
  | none => simp
  | some a => rfl

/-- The entries of a run whose befores let the request pass, up to the one that does not. -/
def passedBy (f : X → MiddlewareEntry S ε ρ) : List X → S → List X
  | [], _ => []
  | x :: xs, s =>
    match ((f x).before.getD (pure none)).exec s with
    | (.ok none, s') => x :: passedBy f xs s'
    | _ => []

theorem passedBy_subset (f : X → MiddlewareEntry S ε ρ) (xs : List X) (s : S) :
    passedBy f xs s ⊆ xs := by
  induction xs generalizing s with
  | nil => simp [passedBy]
  | cons x xs ih =>
    rw [passedBy]
    split
    · exact List.cons_subset_cons x (ih _)
    · simp

def layeredRun (run : List (MiddlewareEntry S ε ρ)) (next : Eff S ε ρ) : Eff S ε ρ :=
  run.foldr (fun e next => syncLayer e.before e.after next) next

/-- Layer by layer, a run does its befores; when one intercepts, the afters of the entries before
it run, and otherwise all of them do. -/
theorem exec_layeredRun (f : X → MiddlewareEntry S ε ρ) (xs : List X) (next : Eff S ε ρ) (s : S) :
    (layeredRun (xs.map f) next).exec s =
      match (runBefores ((xs.map f).filterMap MiddlewareEntry.before)).exec s with
      | (.ok none, s') =>
        (next >>= runAfters ((xs.map f).filterMap MiddlewareEntry.after)).exec s'
      | (.ok (some r), s') =>
        (runAfters (((passedBy f xs s).map f).filterMap MiddlewareEntry.after) r).exec s'
      | (.error e, s') => (.error e, s') := by
  induction xs generalizing s with
  | nil =>
    have h : (fun res => runAfters (S := S) (ε := ε) ([] : List (ρ → Eff S ε ρ)) res) = pure := rfl
    simp [layeredRun, runBefores, h]
  | cons x xs ih =>
    simp only [List.map_cons, layeredRun, List.foldr_cons] at ih ⊢
    rw [exec_syncLayer, exec_runBefores_cons, passedBy]
    rcases hb : ((f x).before.getD (pure none)).exec s with ⟨e | _ | r, s'⟩
    · rfl
    · simp only [List.map_cons, runAfters_cons, exec_bind (f := (f x).after.getD pure), ih]
      rcases (runBefores ((xs.map f).filterMap MiddlewareEntry.before)).exec s' with
        ⟨e | _ | r, s''⟩
      · rfl
      · have ha : runAfters ((f x :: xs.map f).filterMap MiddlewareEntry.after) =
            fun res => runAfters ((xs.map f).filterMap MiddlewareEntry.after) res >>=
              (f x).after.getD pure := funext (runAfters_cons _ _)
        rw [ha]
        simp only [← exec_bind]
        rw [bind_assoc]
      · rfl
    · simp [runAfters]

theorem exec_mergedRun (run : List (MiddlewareEntry S ε ρ)) (next : Eff S ε ρ) (s : S) :
    (mergedRun run next).exec s =
      match (runBefores (run.filterMap MiddlewareEntry.before)).exec s with
      | (.ok none, s') => (next >>= runAfters (run.filterMap MiddlewareEntry.after)).exec s'
      | (.ok (some r), s') => (.ok r, s')
      | (.error e, s') => (.error e, s') := by
  rw [mergedRun, exec_bind]
  rcases (runBefores (run.filterMap MiddlewareEntry.before)).exec s with ⟨_ | _ | _, _⟩ <;> rfl

variable (readBody : Option (Eff S ε (Option ρ))) (finalHandler : Eff S ε ρ)

/-- A run that is entered in a state is clean when it does not intercept behind an after. -/
theorem interceptsUnowed_run (f : X → MiddlewareEntry S ε ρ) (xs : List X)
    (hs : ∀ x ∈ xs, (f x).isSync = true) (rest : List (MiddlewareEntry S ε ρ)) (owed : Bool)
    (s : S) :
    interceptsUnowed readBody finalHandler owed (xs.map f ++ rest) s =
      match (runBefores ((xs.map f).filterMap MiddlewareEntry.before)).exec s with
      | (.ok none, s') => interceptsUnowed readBody finalHandler
          (owed || (xs.map f).any (·.after.isSome)) rest s'
      | (.ok (some _), _) => !owed && (passedBy f xs s).all fun x => (f x).after.isNone
      | (.error _, _) => true := by
  induction xs generalizing owed s with
  | nil => simp [runBefores]
  | cons x xs ih =>
    have hx := hs x List.mem_cons_self
    rw [List.map_cons, exec_runBefores_cons, passedBy]
    cases he : f x with
    | hAsync h nb =>
      rw [he] at hx
      cases hx
    | hSync b a nb =>
      simp only [List.cons_append, interceptsUnowed, MiddlewareEntry.before]
      rcases (b.getD (pure none)).exec s with ⟨e | _ | r, s'⟩
      · rfl
      · simp only [ih (fun y hy => hs y (List.mem_cons_of_mem x hy)), List.any_cons,
          MiddlewareEntry.after, List.all_cons, he]
        rcases (runBefores ((xs.map f).filterMap MiddlewareEntry.before)).exec s' with
          ⟨e | _ | r, s''⟩
        · rfl
        · simp only [Bool.or_assoc]
        · cases a <;> simp
      · simp

end Run

section Traced
variable {S ε ρ : Type} {P : Event → Prop}

/-- An entry with its position. -/
abbrev Placed (S ε ρ : Type) := MiddlewareEntry S ε ρ × Nat

def Placed.traced (e : Placed S ε ρ) : MiddlewareEntry (S × List Event) ε ρ := e.1.traced e.2

theorem Placed.before_shadows (e : Placed S ε ρ) :
    Shadows (e.traced.before.getD (pure none)) (e.1.before.getD (pure none)) := by
  obtain ⟨h | ⟨b, a, nb⟩, i⟩ := e
  · cases h <;> exact fun _ _ => ⟨rfl, rfl⟩
  · cases b <;> exact fun _ _ => ⟨rfl, rfl⟩

theorem Placed.after_shadows (e : Placed S ε ρ) (res : ρ) :
    Shadows (e.traced.after.getD pure res) (e.1.after.getD pure res) := by
  obtain ⟨h | ⟨b, a, nb⟩, i⟩ := e
  · cases h <;> exact fun _ _ => ⟨rfl, rfl⟩
  · cases a <;> exact fun _ _ => ⟨rfl, rfl⟩

theorem shadows_runBefores (xs : List (Placed S ε ρ)) :
    Shadows (runBefores ((xs.map Placed.traced).filterMap MiddlewareEntry.before))
      (runBefores ((xs.map Prod.fst).filterMap MiddlewareEntry.before)) := by
  intro s t
  induction xs generalizing s t with
  | nil => exact ⟨rfl, rfl⟩
  | cons x xs ih =>
    rw [List.map_cons, List.map_cons, exec_runBefores_cons, exec_runBefores_cons]
    rcases hb : (x.traced.before.getD (pure none)).exec (s, t) with ⟨e | _ | r, s', t'⟩
    · rw [x.before_shadows.exec hb]
      exact ⟨rfl, rfl⟩
    · rw [x.before_shadows.exec hb]
      exact ih s' t'
    · rw [x.before_shadows.exec hb]
      exact ⟨rfl, rfl⟩

theorem passedBy_traced (xs : List (Placed S ε ρ)) (s : S) (t : List Event) :
    passedBy Placed.traced xs (s, t) = passedBy Prod.fst xs s := by
  induction xs generalizing s t with
  | nil => rfl
  | cons x xs ih =>
    rw [passedBy, passedBy]
    rcases hb : (x.traced.before.getD (pure none)).exec (s, t) with ⟨e | _ | r, s', t'⟩
    · rw [x.before_shadows.exec hb]
    · rw [x.before_shadows.exec hb]
      exact congrArg (x :: ·) (ih s' t')
    · rw [x.before_shadows.exec hb]

theorem Placed.after_isNone (e : Placed S ε ρ) :
    e.traced.after = none ↔ e.1.after.isNone = true := by
  obtain ⟨h | ⟨b, a, nb⟩, i⟩ := e
  · cases h <;> simp [Placed.traced, MiddlewareEntry.traced, MiddlewareEntry.after]
  · cases a <;> simp [Placed.traced, MiddlewareEntry.traced, MiddlewareEntry.after]

theorem Placed.after_eq {e : Placed S ε ρ} (h : e.traced.after = some a) :
    ∃ b : ρ → Eff S ε ρ, a = fun res => report (.after e.2) >>= fun _ => (b res).lift := by
  obtain ⟨h' | ⟨b, a', nb⟩, i⟩ := e
  · cases h' <;> cases h
  · cases a' with
    | none => cases h
    | some a' =>
      obtain rfl := Option.some.inj h
      exact ⟨a', rfl⟩

theorem Placed.before_eq {e : Placed S ε ρ} (h : e.traced.before = some b) :
    ∃ x : Eff S ε (Option ρ), b = report (.before e.2) >>= fun _ => x.lift := by
  obtain ⟨h' | ⟨b', a, nb⟩, i⟩ := e
  · cases h' <;> cases h
  · cases b' with
    | none => cases h
    | some b' =>
      obtain rfl := Option.some.inj h
      exact ⟨b', rfl⟩

theorem appends_after {e : Placed S ε ρ} (h : e.traced.after = some a) (hp : P (.after e.2))
    (res : ρ) : Appends P (a res) := by
  obtain ⟨b, rfl⟩ := Placed.after_eq h
  exact ((reports_report _ hp).bind fun _ => appends_lift (P := P) _).appends

theorem appends_after_getD (e : Placed S ε ρ) (hp : P (.after e.2)) (res : ρ) :
    Appends P (e.traced.after.getD pure res) := by
  cases ha : e.traced.after with
  | none => exact appends_pure res
  | some a => exact appends_after ha hp res

theorem appends_runAfters (xs : List (Placed S ε ρ)) (hp : ∀ x ∈ xs, P (.after x.2)) (res : ρ) :
    Appends P (runAfters ((xs.map Placed.traced).filterMap MiddlewareEntry.after) res) := by
  induction xs generalizing res with
  | nil => exact appends_pure res
  | cons x xs ih =>
    rw [List.map_cons, runAfters_cons]
    exact (ih (fun y hy => hp y (List.mem_cons_of_mem x hy)) res).bind
      (appends_after_getD x (hp x List.mem_cons_self))

theorem reports_before {e : Placed S ε ρ} (h : e.traced.before = some b)
    (hp : P (.before e.2)) : Reports P b := by
  obtain ⟨x, rfl⟩ := Placed.before_eq h
  exact (reports_report _ hp).bind fun _ => appends_lift (P := P) x

theorem appends_runBefores (xs : List (Placed S ε ρ)) (hp : ∀ i, P (.before i)) :
    Appends P (runBefores ((xs.map Placed.traced).filterMap MiddlewareEntry.before)) := by
  induction xs with
  | nil => exact appends_pure none
  | cons x xs ih =>
    rw [List.map_cons, List.filterMap_cons]
    cases hb : x.traced.before with
    | none => exact ih
    | some b =>
      refine (reports_before hb (hp x.2)).appends.bind fun r => ?_
      cases r with
      | none => exact ih
      | some r => exact appends_pure _

theorem reports_runBefores {xs : List (Placed S ε ρ)}
    (hb : (xs.map Placed.traced).filterMap MiddlewareEntry.before ≠ [])
    (hp : ∀ i, P (.before i)) :
    Reports P (runBefores ((xs.map Placed.traced).filterMap MiddlewareEntry.before)) := by
  induction xs with
  | nil => exact absurd rfl hb
  | cons x xs ih =>
    rw [List.map_cons, List.filterMap_cons] at hb ⊢
    cases hx : x.traced.before with
    | none =>
      simp only [hx] at hb
      exact ih hb
    | some b =>
      refine (reports_before hx (hp x.2)).bind (Q := P) fun r => ?_
      cases r with
      | none => exact appends_runBefores xs hp
      | some r => exact appends_pure _

theorem appends_mergedRun {xs : List (Placed S ε ρ)} {next : Eff (S × List Event) ε ρ}
    (hp : ∀ i, P (.before i)) (hn : Appends P next) (ha : ∀ x ∈ xs, P (.after x.2)) :
    Appends P (mergedRun (xs.map Placed.traced) next) := by
  refine (appends_runBefores xs hp).bind fun r => ?_
  cases r with
  | none => exact hn.bind (appends_runAfters xs ha)
  | some r => exact appends_pure _

theorem reports_mergedRun {xs : List (Placed S ε ρ)} {next : Eff (S × List Event) ε ρ}
    (hb : (xs.map Placed.traced).filterMap MiddlewareEntry.before ≠ [])
    (hp : ∀ i, P (.before i)) (hn : Appends (fun _ => True) next) :
    Reports P (mergedRun (xs.map Placed.traced) next) := by
  refine (reports_runBefores hb hp).bind (Q := fun _ => True) fun r => ?_
  cases r with
  | none => exact hn.bind (appends_runAfters xs fun _ _ => trivial)
  | some r => exact appends_pure _

/-- The events that are afters of these entries. -/
def AfterOf (xs : List (Placed S ε ρ)) (e : Event) : Prop := ∃ x ∈ xs, e = .after x.2

variable {readBody : Option (Eff S ε (Option ρ))} {finalHandler : Eff S ε ρ}

theorem filterMap_after_eq_nil {xs : List (Placed S ε ρ)}
    (h : (xs.all fun x => x.1.after.isNone) = true) :
    (xs.map Placed.traced).filterMap MiddlewareEntry.after = [] := by
  rw [List.filterMap_eq_nil_iff]
  intro a ha
  obtain ⟨y, hy, rfl⟩ := List.mem_map.1 ha
  exact y.after_isNone.2 (List.all_eq_true.1 h y hy)

theorem parts_runAfters {xs : List (Placed S ε ρ)}
    (h : ¬ (xs.all fun x => x.1.after.isNone) = true) (r : ρ) (s : S) (t : List Event) :
    ∃ e, AfterOf xs e ∧ Parts e t ((runAfters ((xs.map Placed.traced).filterMap
      MiddlewareEntry.after) r).exec (s, t)).2.2 := by
  induction xs with
  | nil => simp at h
  | cons x xs ih =>
    rw [List.map_cons, runAfters_cons]
    by_cases hx : (xs.all fun x => x.1.after.isNone) = true
    · have ha : x.traced.after ≠ none := by
        intro ha
        rw [List.all_cons, hx, x.after_isNone.1 ha] at h
        exact h rfl
      obtain ⟨a, ha⟩ := Option.ne_none_iff_exists'.1 ha
      obtain ⟨b, rfl⟩ := Placed.after_eq ha
      refine ⟨.after x.2, ⟨x, List.mem_cons_self, rfl⟩, ?_⟩
      rw [filterMap_after_eq_nil hx, ha]
      exact parts_append_cons _ t []
    · obtain ⟨e, ⟨y, hy, rfl⟩, hp⟩ := ih hx
      refine ⟨_, ⟨y, List.mem_cons_of_mem x hy, rfl⟩, ?_⟩
      obtain ⟨l, hl, -⟩ := log_bind (P := fun _ => True)
        (x := runAfters ((xs.map Placed.traced).filterMap MiddlewareEntry.after) r)
        (appends_after_getD x trivial) (s, t)
      rw [hl]
      exact hp.append_right l

/-- A run behind which the chains agree: merged and layered agree where it does not intercept
behind an after. -/
theorem agreesWhen_run {xs rest : List (Placed S ε ρ)} {cur n : Eff (S × List Event) ε ρ}
    (hs : ∀ x ∈ xs, x.1.isSync = true)
    (hd : ∀ x ∈ xs, ∀ y ∈ rest, x.2 ≠ y.2)
    (hr : ∀ owed s, interceptsUnowed readBody finalHandler owed (rest.map Prod.fst) s =
      interceptsUnowed readBody finalHandler false (rest.map Prod.fst) s)
    (hc : Appends (fun _ => True) cur)
    (h : AgreesWhen (AfterOf rest)
      (interceptsUnowed readBody finalHandler false (rest.map Prod.fst)) cur n) :
    AgreesWhen (AfterOf (xs ++ rest))
      (interceptsUnowed readBody finalHandler false ((xs ++ rest).map Prod.fst))
      (mergedRun (xs.map Placed.traced) cur) (layeredRun (xs.map Placed.traced) n) := by
  intro s t
  rw [List.map_append, interceptsUnowed_run _ _ _ _ hs, exec_mergedRun, exec_layeredRun,
    passedBy_traced]
  rcases hb : (runBefores ((xs.map Placed.traced).filterMap MiddlewareEntry.before)).exec (s, t)
    with ⟨q, s', t'⟩
  rw [(shadows_runBefores xs).exec hb]
  rcases q with e | _ | r
  · rfl
  · -- the run passes, and the chains behind it decide
    simp only [hr]
    have hk := h s' t'
    split at hk
    · next hv =>
      rw [if_pos hv, exec_bind, exec_bind, hk]
    · next hv =>
      rw [if_neg hv]
      obtain ⟨e, ⟨y, hy, rfl⟩, ha, hp⟩ := hk
      have hx : ∀ x ∈ xs, Event.after x.2 ≠ .after y.2 := by
        intro x hx he
        exact hd x hx y hy (Event.after.inj he)
      refine ⟨_, ⟨y, List.mem_append_right xs hy, rfl⟩, ?_, hp.bind (appends_runAfters xs hx)⟩
      exact appends_mergedRun (fun i => by simp) ha hx
  · -- the run intercepts, and only the layers unwind the entries before
    simp only [Bool.not_false, Bool.true_and]
    split
    · next hv => rw [filterMap_after_eq_nil hv]; rfl
    · next hv =>
      obtain ⟨e, ⟨y, hy, rfl⟩, hp⟩ := parts_runAfters hv r s' t'
      refine ⟨_, ⟨y, List.mem_append_left rest (passedBy_subset _ _ _ hy), rfl⟩, ?_, hp⟩
      refine (reports_mergedRun ?_ (fun i => by simp) hc).appends
      intro hn
      rw [hn] at hb
      cases hb

theorem onionChain_append {run : List (MiddlewareEntry S ε ρ)}
    (hs : ∀ e ∈ run, e.isSync = true) (rest : List (MiddlewareEntry S ε ρ)) :
    onionChain readBody finalHandler (run ++ rest) =
      layeredRun run (onionChain readBody finalHandler rest) := by
  induction run with
  | nil => rfl
  | cons e run ih =>
    have he := hs e List.mem_cons_self
    cases e with
    | hAsync h nb => cases he
    | hSync b a nb =>
      exact congrArg (syncLayer b a) (ih fun e h => hs e (List.mem_cons_of_mem _ h))

theorem Placed.traced_isSync (e : Placed S ε ρ) : e.traced.isSync = e.1.isSync := by
  obtain ⟨h | ⟨b, a, nb⟩, i⟩ := e
  · cases h <;> rfl
  · rfl

section Layers
variable {n₁ n₂ n : Eff (S × List Event) ε ρ} {m : Eff S ε ρ} {K : Event → Prop} {c : S → Bool}

theorem exec_bodyGate (read : Eff S ε (Option ρ)) (next : Eff S ε ρ) (s : S) :
    (bodyGate (some read) next).exec s = match read.exec s with
      | (.ok none, s') => next.exec s'
      | (.ok (some err), s') => (.ok err, s')
      | (.error e, s') => (.error e, s') := by
  rw [bodyGate, exec_bind]
  rcases read.exec s with ⟨_ | _ | _, _⟩ <;> rfl

theorem appends_bodyGate (readBody : Option (Eff S ε (Option ρ))) (h : Appends P n) :
    Appends P (bodyGate (readBody.map Eff.lift) n) := by
  cases readBody with
  | none => exact h
  | some read =>
    refine (appends_lift read).bind fun r => ?_
    cases r with
    | none => exact h
    | some err => exact appends_pure err

theorem shadows_bodyGate (readBody : Option (Eff S ε (Option ρ))) (h : Shadows n m) :
    Shadows (bodyGate (readBody.map Eff.lift) n) (bodyGate readBody m) := by
  cases readBody with
  | none => exact h
  | some read =>
    refine (shadows_lift read).bind fun r => ?_
    cases r with
    | none => exact h
    | some err => exact shadows_pure err

theorem shadows_syncLayer (e : Placed S ε ρ) (h : Shadows n m) :
    Shadows (syncLayer e.traced.before e.traced.after n) (syncLayer e.1.before e.1.after m) := by
  refine e.before_shadows.bind fun r => ?_
  cases r with
  | none => exact h.bind e.after_shadows
  | some r => exact shadows_pure r

theorem appends_syncLayer (e : Placed S ε ρ) (h : Appends (fun _ => True) n) :
    Appends (fun _ => True) (syncLayer e.traced.before e.traced.after n) := by
  have hb : Appends (fun _ => True) (e.traced.before.getD (pure none)) := by
    cases hb : e.traced.before with
    | none => exact appends_pure none
    | some b => exact (reports_before hb trivial).appends
  refine hb.bind fun r => ?_
  cases r with
  | none => exact h.bind (appends_after_getD e trivial)
  | some r => exact appends_pure r

theorem agreesWhen_bodyGate (readBody : Option (Eff S ε (Option ρ)))
    (h : AgreesWhen K c n₁ n₂) :
    AgreesWhen K (fun s => match readBody with
      | none => c s
      | some read => match read.exec s with
        | (.ok none, s') => c s'
        | _ => true)
      (bodyGate (readBody.map Eff.lift) n₁) (bodyGate (readBody.map Eff.lift) n₂) := by
  cases readBody with
  | none => exact h
  | some read =>
    intro s t
    rw [Option.map_some, exec_bodyGate, exec_bodyGate, exec_lift]
    rcases hr : read.exec s with ⟨e | _ | r, s'⟩
    · simp only [hr, ↓reduceIte]
    · simp only [hr]
      have hk := h s' t
      split at hk
      · next hv => rw [if_pos hv]; exact hk
      · next hv =>
        rw [if_neg hv]
        obtain ⟨e, hK, ha, hp⟩ := hk
        exact ⟨e, hK, appends_bodyGate (some read) ha, hp⟩
    · simp only [hr, ↓reduceIte]

theorem agreesWhen_code (h : AgreesWhen K c n₁ n₂) (h₁ : Appends (fun _ => True) n₁)
    (h₂ : Appends (fun _ => True) n₂) (hm : Shadows n₂ m) (p : Prog S ε ρ) (i : Nat)
    (hK : ∀ e, K e → e ≠ .async i) :
    AgreesWhen K (fun s => (p.visits m s).all c)
      (report (.async i) >>= fun _ => p.lift.exec n₁)
      (report (.async i) >>= fun _ => p.lift.exec n₂) := by
  intro s t
  have hk := h.prog h₂ hm p s (t ++ [.async i])
  split at hk
  · next hv => rw [if_pos hv]; exact hk
  · next hv =>
    rw [if_neg hv]
    obtain ⟨e, he, ha, hp⟩ := hk
    refine ⟨e, he, ((reports_report _ ?_).bind fun _ => appends_prog h₁ p).appends, hp⟩
    exact fun hi => hK e he hi.symm

end Layers

theorem code_call_traced (p : Prog S ε ρ) (i : Nat)
    (rb : Option (Eff (S × List Event) ε (Option ρ))) (n : Eff (S × List Event) ε ρ) :
    (MiddlewareHandler.code (.act (fun s => (s.1, s.2 ++ [.async i])) fun _ => p.lift)).call rb n =
      report (.async i) >>= fun _ => p.lift.exec n :=
  Eff.ext fun _ => rfl

variable (readBody finalHandler)

def tracedOnion (xs : List (Placed S ε ρ)) : Eff (S × List Event) ε ρ :=
  onionChain (readBody.map Eff.lift) (tracedHandler finalHandler) (xs.map Placed.traced)

theorem tracedOnion_code (p : Prog S ε ρ) (nb : Bool) (i : Nat) (xs : List (Placed S ε ρ)) :
    tracedOnion readBody finalHandler ((.hAsync (.code p) nb, i) :: xs) =
      report (.async i) >>= fun _ => p.lift.exec (tracedOnion readBody finalHandler xs) :=
  code_call_traced p i (readBody.map Eff.lift) _

theorem tracedOnion_shadows (xs : List (Placed S ε ρ)) :
    Shadows (tracedOnion readBody finalHandler xs)
      (onionChain readBody finalHandler (xs.map Prod.fst)) := by
  induction xs with
  | nil => exact .report _ (shadows_lift finalHandler)
  | cons x xs ih =>
    obtain ⟨e, i⟩ := x
    cases e with
    | hAsync h nb =>
      cases h with
      | code p =>
        rw [tracedOnion_code]
        exact .report _ (shadows_prog ih p)
      | bodyGate => exact shadows_bodyGate readBody ih
    | hSync b a nb => exact shadows_syncLayer (.hSync b a nb, i) ih

theorem appends_tracedOnion (xs : List (Placed S ε ρ)) :
    Appends (fun _ => True) (tracedOnion readBody finalHandler xs) := by
  induction xs with
  | nil => exact (reports_report _ trivial).appends.bind fun _ => appends_lift finalHandler
  | cons x xs ih =>
    obtain ⟨e, i⟩ := x
    cases e with
    | hAsync h nb =>
      cases h with
      | code p =>
        rw [tracedOnion_code]
        exact (reports_report _ trivial).appends.bind fun _ => appends_prog ih p
      | bodyGate => exact appends_bodyGate readBody ih
    | hSync b a nb => exact appends_syncLayer (.hSync b a nb, i) ih

/-- The synchronous entries at the front. -/
def Placed.run (xs : List (Placed S ε ρ)) : List (Placed S ε ρ) := xs.takeWhile (·.1.isSync)

/-- What stands behind the synchronous entries at the front. -/
def Placed.rest (xs : List (Placed S ε ρ)) : List (Placed S ε ρ) := xs.dropWhile (·.1.isSync)

theorem interceptsUnowed_rest (xs : List (Placed S ε ρ)) (owed : Bool) (s : S) :
    interceptsUnowed readBody finalHandler owed ((Placed.rest xs).map Prod.fst) s =
      interceptsUnowed readBody finalHandler false ((Placed.rest xs).map Prod.fst) s := by
  induction xs with
  | nil => rfl
  | cons x xs ih =>
    obtain ⟨e, i⟩ := x
    cases e with
    | hAsync h nb => cases h <;> rfl
    | hSync b a nb => exact ih

/-- What the backward loop has built: the run it is collecting, and behind that run a chain that
agrees with the onion. -/
structure Collected (xs : List (Placed S ε ρ)) (built : List (MiddlewareEntry (S × List Event) ε ρ) ×
    Eff (S × List Event) ε ρ) : Prop where
  run : built.1 = (Placed.run xs).map Placed.traced
  appends : Appends (fun _ => True) built.2
  agrees : AgreesWhen (AfterOf (Placed.rest xs))
    (interceptsUnowed readBody finalHandler false ((Placed.rest xs).map Prod.fst)) built.2
    (tracedOnion readBody finalHandler (Placed.rest xs))

variable {readBody finalHandler}

theorem closeRun_eq (run : List (MiddlewareEntry S ε ρ)) (n : Eff S ε ρ) :
    closeRun run n = mergedRun run n := by
  cases run with
  | nil =>
    have h : (fun res => runAfters (S := S) (ε := ε) ([] : List (ρ → Eff S ε ρ)) res) = pure := rfl
    simp [closeRun, mergedRun, runBefores, h]
  | cons e run => rfl

theorem Collected.closeRun_appends {xs : List (Placed S ε ρ)}
    (h : Collected readBody finalHandler xs built) :
    Appends (fun _ => True) (closeRun built.1 built.2) := by
  rw [h.run, closeRun_eq]
  exact appends_mergedRun (fun _ => trivial) h.appends fun _ _ => trivial

theorem Collected.closeRun_agrees {xs : List (Placed S ε ρ)} (hn : (xs.map Prod.snd).Nodup)
    (h : Collected readBody finalHandler xs built) :
    AgreesWhen (AfterOf xs) (interceptsUnowed readBody finalHandler false (xs.map Prod.fst))
      (closeRun built.1 built.2) (tracedOnion readBody finalHandler xs) := by
  have hx : Placed.run xs ++ Placed.rest xs = xs := List.takeWhile_append_dropWhile
  have hs : ∀ x ∈ Placed.run xs, x.1.isSync = true := List.all_eq_true.1 List.all_takeWhile
  have hd : ∀ x ∈ Placed.run xs, ∀ y ∈ Placed.rest xs, x.2 ≠ y.2 := by
    rw [← hx, List.map_append, List.nodup_append] at hn
    intro x hx y hy
    exact hn.2.2 _ (List.mem_map_of_mem hx) _ (List.mem_map_of_mem hy)
  have ht : ∀ e ∈ (Placed.run xs).map Placed.traced, e.isSync = true := by
    intro e he
    obtain ⟨x, hx, rfl⟩ := List.mem_map.1 he
    rw [x.traced_isSync]
    exact hs x hx
  have ho : tracedOnion readBody finalHandler xs = layeredRun ((Placed.run xs).map Placed.traced)
      (tracedOnion readBody finalHandler (Placed.rest xs)) := by
    rw [tracedOnion, tracedOnion, ← onionChain_append ht, ← List.map_append, hx]
  have hk := agreesWhen_run hs hd (interceptsUnowed_rest readBody finalHandler xs) h.appends
    h.agrees
  rw [hx, ← ho, ← closeRun_eq, ← h.run] at hk
  exact hk

variable (readBody finalHandler) in
theorem mergeRuns_collected (xs : List (Placed S ε ρ)) (hn : (xs.map Prod.snd).Nodup) :
    Collected readBody finalHandler xs (mergeRuns (readBody.map Eff.lift)
      (tracedHandler finalHandler) (xs.map Placed.traced)) := by
  induction xs with
  | nil =>
    refine ⟨rfl, ?_, fun s t => rfl⟩
    exact (reports_report _ trivial).appends.bind fun _ => appends_lift finalHandler
  | cons x xs ih =>
    have ih := ih (List.nodup_cons.1 hn).2
    obtain ⟨e, i⟩ := x
    cases e with
    | hAsync h nb =>
      have hk := ih.closeRun_agrees (List.nodup_cons.1 hn).2
      have hm : ∀ e, AfterOf xs e → AfterOf ((.hAsync h nb, i) :: xs) e := by
        rintro e ⟨y, hy, rfl⟩
        exact ⟨y, List.mem_cons_of_mem _ hy, rfl⟩
      cases h with
      | code p =>
        refine ⟨rfl, ?_, ?_⟩
        · change Appends _ (MiddlewareHandler.call _ _ _)
          rw [code_call_traced]
          exact (reports_report _ trivial).appends.bind fun _ => appends_prog ih.closeRun_appends p
        · change AgreesWhen _ _ (MiddlewareHandler.call _ _ _) (tracedOnion _ _ (_ :: _))
          rw [code_call_traced, tracedOnion_code]
          refine (agreesWhen_code hk ih.closeRun_appends (appends_tracedOnion _ _ xs)
            (tracedOnion_shadows _ _ xs) p i ?_).mono hm
          rintro e ⟨y, hy, rfl⟩ he
          cases he
      | bodyGate =>
        refine ⟨rfl, appends_bodyGate readBody ih.closeRun_appends, ?_⟩
        have hg := (agreesWhen_bodyGate readBody hk).mono hm
        cases readBody with
        | none => exact hg
        | some read => exact hg
    | hSync b a nb =>
      exact ⟨congrArg _ ih.run, ih.appends, ih.agrees⟩

end Traced

section Main
variable {S ε ρ : Type}

theorem insertBefore_map (f : α → β) (marked : α → Bool) (marked' : β → Bool)
    (h : ∀ x, marked' (f x) = marked x) (x : α) (l : List α) :
    insertBefore marked' (f x) (l.map f) = (insertBefore marked x l).map (List.map f) := by
  have hm : marked' ∘ f = marked := funext h
  simp only [insertBefore, List.findIdx?_map, hm]
  cases l.findIdx? marked with
  | none => rfl
  | some i => simp [List.map_take, List.map_drop]

/-- The chain's entries with their positions; the gate takes the position behind all of them. -/
def placedEntries (entries : List (MiddlewareEntry S ε ρ)) : List (Placed S ε ρ) :=
  (insertBefore (·.1.needsBody) (.gate, entries.length) entries.zipIdx).getD entries.zipIdx

theorem placedEntries_fst (entries : List (MiddlewareEntry S ε ρ)) :
    (placedEntries entries).map Prod.fst = chainEntries entries := by
  have h := insertBefore_map (Prod.fst (α := MiddlewareEntry S ε ρ) (β := Nat))
    (·.1.needsBody) MiddlewareEntry.needsBody (fun _ => rfl) (.gate, entries.length)
    entries.zipIdx
  have hz : entries.zipIdx.map Prod.fst = entries := List.zipIdx_map_fst 0 entries
  rw [hz] at h
  rw [chainEntries, withBodyGate, placedEntries, h]
  cases insertBefore (·.1.needsBody) (.gate, entries.length) entries.zipIdx with
  | none => exact hz
  | some l => rfl

theorem Placed.traced_needsBody (e : Placed S ε ρ) : e.traced.needsBody = e.1.needsBody := by
  obtain ⟨e, i⟩ := e
  cases e with
  | hAsync h nb => cases h <;> rfl
  | hSync b a nb => rfl

theorem placedEntries_traced (entries : List (MiddlewareEntry S ε ρ)) :
    (placedEntries entries).map Placed.traced = chainEntries (tracedEntries entries) := by
  have h := insertBefore_map Placed.traced (·.1.needsBody) MiddlewareEntry.needsBody
    Placed.traced_needsBody (.gate, entries.length) entries.zipIdx
  have hz : entries.zipIdx.map Placed.traced = tracedEntries entries := rfl
  have hg : Placed.traced (.gate, entries.length) =
      (.gate : MiddlewareEntry (S × List Event) ε ρ) := rfl
  rw [hz, hg] at h
  rw [chainEntries, withBodyGate, placedEntries, h]
  cases insertBefore (·.1.needsBody) (.gate, entries.length) entries.zipIdx with
  | none => exact hz
  | some l => rfl

theorem insertBefore_perm {marked : α → Bool} {x : α} {l l' : List α}
    (h : insertBefore marked x l = some l') : l'.Perm (x :: l) := by
  rw [insertBefore] at h
  split at h
  · cases h
  · next i _ =>
    obtain rfl := Option.some.inj h
    have hp : (l.take i ++ x :: l.drop i).Perm (x :: (l.take i ++ l.drop i)) := List.perm_middle
    rwa [List.take_append_drop] at hp

theorem placedEntries_nodup (entries : List (MiddlewareEntry S ε ρ)) :
    ((placedEntries entries).map Prod.snd).Nodup := by
  have hz : entries.zipIdx.map Prod.snd = List.range' 0 entries.length :=
    List.zipIdx_map_snd 0 entries
  have hn : (entries.length :: List.range' 0 entries.length).Nodup := by
    refine List.nodup_cons.2 ⟨?_, List.nodup_range'⟩
    simp
  rw [placedEntries]
  cases hi : insertBefore (·.1.needsBody) (.gate, entries.length) entries.zipIdx with
  | none =>
    rw [Option.getD_none, hz]
    exact (List.nodup_cons.1 hn).2
  | some l =>
    have hp := (insertBefore_perm hi).map Prod.snd
    rw [List.map_cons, hz] at hp
    exact hp.nodup_iff.2 hn

theorem mergeRuns_async (readBody : Option (Eff S ε (Option ρ))) (finalHandler : Eff S ε ρ)
    {es : List (MiddlewareEntry S ε ρ)} (h : es.any MiddlewareEntry.isSync = false) :
    mergeRuns readBody finalHandler es =
      ([], buildChainFrom readBody (es.filterMap MiddlewareEntry.asyncHandler) finalHandler) := by
  induction es with
  | nil => rfl
  | cons e es ih =>
    rw [List.any_cons, Bool.or_eq_false_iff] at h
    cases e with
    | hAsync m nb =>
      rw [mergeRuns, ih h.2]
      rfl
    | hSync b a nb => cases h.1

theorem buildOptimizedChain_eq (readBody : Option (Eff S ε (Option ρ)))
    (entries : List (MiddlewareEntry S ε ρ)) (finalHandler : Eff S ε ρ) :
    buildOptimizedChain readBody entries finalHandler =
      closeRun (mergeRuns readBody finalHandler (chainEntries entries)).1
        (mergeRuns readBody finalHandler (chainEntries entries)).2 := by
  rw [buildOptimizedChain]
  cases hc : chainEntries entries with
  | nil => rfl
  | cons e es =>
    dsimp only
    by_cases hs : (e :: es).any MiddlewareEntry.isSync = true
    · rw [if_pos hs]
    · rw [if_neg hs, mergeRuns_async _ _ (by simpa using hs)]
      rfl

end Main

/-- The merged chain shows an observer what the onion shows exactly when no run of synchronous
entries intercepts behind an entry of that run that has an after. -/
theorem buildOptimizedChain_onion_iff (readBody : Option (Eff S ε (Option ρ)))
    (entries : List (MiddlewareEntry S ε ρ)) (finalHandler : Eff S ε ρ) (s : S) :
    observedOptimized readBody entries finalHandler s =
        observedOnion readBody entries finalHandler s ↔
      interceptsUnowed readBody finalHandler false (chainEntries entries) s = true := by
  have hn := placedEntries_nodup entries
  have h := (mergeRuns_collected readBody finalHandler _ hn).closeRun_agrees hn s []
  rw [placedEntries_fst, tracedOnion, placedEntries_traced, ← buildOptimizedChain_eq] at h
  split at h
  · next hv => simp only [observedOptimized, observedOnion, observed, h, hv]
  · next hv =>
    obtain ⟨e, -, -, hp⟩ := h
    refine ⟨fun he => ?_, fun he => absurd he hv⟩
    exact absurd (Prod.mk.inj he).2 hp.ne

/-- A security-header entry, which only has an after, in front of a guard that rejects. -/
def helmetThenGuard : List (MiddlewareEntry Unit Unit Nat) :=
  [.hSync none (some fun res => pure (res + 1)) false,
    .hSync (some (pure (some 403))) none false]

/-- The merged run returns the guard's response as it is; the onion still adds the header. -/
theorem buildOptimizedChain_skips_after :
    observedOptimized none helmetThenGuard (pure 200) () = (.ok 403, [.before 1]) ∧
      observedOnion none helmetThenGuard (pure 200) () = (.ok 404, [.before 1, .after 0]) ∧
      observedOptimized none helmetThenGuard (pure 200) () ≠
        observedOnion none helmetThenGuard (pure 200) () := by
  refine ⟨rfl, rfl, fun h => ?_⟩
  cases h

end Hical
