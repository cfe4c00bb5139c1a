import Mathlib.Data.List.Forall2
import Hical.Lib.Follows
import Hical.Middleware.Invariant

namespace Hical
open Effect

section Follows
variable {A C ε ρ : Type} {I : A × C → Prop} {es : List (MiddlewareEntry (A × C) ε ρ)}
  {es' : List (MiddlewareEntry A ε ρ)} {x final : Eff (A × C) ε ρ} {y final' : Eff A ε ρ}

/-- The first entry does beside a component what the second does alone. -/
def MiddlewareEntry.Follows (I : A × C → Prop) :
    MiddlewareEntry (A × C) ε ρ → MiddlewareEntry A ε ρ → Prop
  | .hAsync (.code p) nb, .hAsync (.code p') nb' => nb = nb' ∧
    ∀ n n', Effect.Follows I n n' → Effect.Follows I (p.exec n) (p'.exec n')
  | .hAsync .bodyGate nb, .hAsync .bodyGate nb' => nb = nb'
  | .hSync b a nb, .hSync b' a' nb' => nb = nb' ∧
    Option.Rel (Effect.Follows I) b b' ∧
    Option.Rel (fun f g => ∀ res, Effect.Follows I (f res) (g res)) a a'
  | _, _ => False

/-- Entries that follow each other are of one kind. -/
inductive Paired (I : A × C → Prop) : MiddlewareEntry (A × C) ε ρ → MiddlewareEntry A ε ρ → Prop where
  | hAsync (he : (MiddlewareEntry.hAsync h nb).Follows I (.hAsync h' nb')) :
      Paired I (.hAsync h nb) (.hAsync h' nb')
  | hSync (hn : nb = nb') (hb : Option.Rel (Effect.Follows I) b b')
      (ha : Option.Rel (fun f g => ∀ res, Effect.Follows I (f res) (g res)) a a') :
      Paired I (.hSync b a nb) (.hSync b' a' nb')

theorem MiddlewareEntry.Follows.paired {e : MiddlewareEntry (A × C) ε ρ} {e' : MiddlewareEntry A ε ρ}
    (he : e.Follows I e') : Paired I e e' := by
  cases e with
  | hAsync h nb =>
    cases e' with
    | hAsync h' nb' => exact .hAsync he
    | hSync b a nb' => cases h <;> cases he
  | hSync b a nb =>
    cases e' with
    | hAsync h' nb' => cases h' <;> cases he
    | hSync b' a' nb' => exact .hSync he.1 he.2.1 he.2.2

theorem follows_runBefores {befores : List (Eff (A × C) ε (Option ρ))}
    {befores' : List (Eff A ε (Option ρ))} (h : List.Forall₂ (Effect.Follows I) befores befores') :
    Follows I (runBefores befores) (runBefores befores') := by
  induction h with
  | nil => exact .pure none
  | cons hx _ ih =>
    apply Effect.Follows.bind hx
    intro res
    cases res with
    | none => exact ih
    | some res => exact .pure _

theorem follows_runAfters {afters : List (ρ → Eff (A × C) ε ρ)} {afters' : List (ρ → Eff A ε ρ)}
    (h : List.Forall₂ (fun f g => ∀ res, Effect.Follows I (f res) (g res)) afters afters')
    (res : ρ) : Follows I (runAfters afters res) (runAfters afters' res) := by
  induction h with
  | nil => exact .pure res
  | cons hf _ ih =>
    apply Effect.Follows.bind ih
    exact hf

theorem forall₂_befores (h : List.Forall₂ (MiddlewareEntry.Follows I) es es') :
    List.Forall₂ (Effect.Follows I) (es.filterMap MiddlewareEntry.before)
      (es'.filterMap MiddlewareEntry.before) := by
  induction h with
  | nil => exact .nil
  | @cons e e' es es' he _ ih =>
    cases he.paired with
    | hAsync => exact ih
    | hSync _ hb =>
      cases hb with
      | none => exact ih
      | some hb => exact .cons hb ih

theorem forall₂_afters (h : List.Forall₂ (MiddlewareEntry.Follows I) es es') :
    List.Forall₂ (fun f g => ∀ res, Effect.Follows I (f res) (g res))
      (es.filterMap MiddlewareEntry.after) (es'.filterMap MiddlewareEntry.after) := by
  induction h with
  | nil => exact .nil
  | @cons e e' es es' he _ ih =>
    cases he.paired with
    | hAsync => exact ih
    | hSync _ _ ha =>
      cases ha with
      | none => exact ih
      | some ha => exact .cons ha ih

theorem follows_mergedRun (h : List.Forall₂ (MiddlewareEntry.Follows I) es es') (hx : Follows I x y) :
    Follows I (mergedRun es x) (mergedRun es' y) := by
  apply Effect.Follows.bind (follows_runBefores (forall₂_befores h))
  intro res
  cases res with
  | some res => exact .pure res
  | none => exact hx.bind (follows_runAfters (forall₂_afters h))

theorem follows_closeRun (h : List.Forall₂ (MiddlewareEntry.Follows I) es es') (hx : Follows I x y) :
    Follows I (closeRun es x) (closeRun es' y) := by
  cases h with
  | nil => exact hx
  | cons he hr => exact follows_mergedRun (.cons he hr) hx

/-- Two gates go the same way whatever they open to. -/
def Gates (I : A × C → Prop) (read : Option (Eff (A × C) ε (Option ρ)))
    (read' : Option (Eff A ε (Option ρ))) : Prop :=
  ∀ x y, Follows I x y → Follows I (bodyGate read x) (bodyGate read' y)

theorem gates_none : Gates (ε := ε) (ρ := ρ) I none none := fun _ _ h => h

theorem gates_some {read : Eff (A × C) ε (Option ρ)} (hr : Follows I read (pure none)) :
    Gates I (some read) none := by
  intro x y hx
  have hb : Follows I (bodyGate (some read) x) (bodyGate (some (pure none)) y) := by
    apply hr.bind
    intro err
    cases err with
    | none => exact hx
    | some err => exact .pure err
  exact hb

variable {read : Option (Eff (A × C) ε (Option ρ))} {read' : Option (Eff A ε (Option ρ))}
variable (hr : Gates I read read')
include hr

theorem follows_call {h : MiddlewareHandler (A × C) ε ρ} {h' : MiddlewareHandler A ε ρ}
    (he : (MiddlewareEntry.hAsync h nb).Follows I (.hAsync h' nb')) (hx : Follows I x y) : Follows I (h.call read x) (h'.call read' y) := by
  cases h with
  | code p =>
    cases h' with
    | code p' => exact he.2 _ _ hx
    | bodyGate => cases he
  | bodyGate =>
    cases h' with
    | code p' => cases he
    | bodyGate => exact hr x y hx

theorem follows_mergeRuns (hf : Follows I final final')
    (h : List.Forall₂ (MiddlewareEntry.Follows I) es es') :
    List.Forall₂ (MiddlewareEntry.Follows I) (mergeRuns read final es).1
        (mergeRuns read' final' es').1 ∧
      Follows I (mergeRuns read final es).2 (mergeRuns read' final' es').2 := by
  induction h with
  | nil => exact ⟨.nil, hf⟩
  | @cons e e' es es' he _ ih =>
    cases he.paired with
    | hAsync => exact ⟨.nil, follows_call hr he (follows_closeRun ih.1 ih.2)⟩
    | hSync => exact ⟨.cons he ih.1, ih.2⟩

theorem follows_buildChainFrom (hf : Follows I final final')
    (h : List.Forall₂ (MiddlewareEntry.Follows I) es es') :
    Follows I (buildChainFrom read (es.filterMap MiddlewareEntry.asyncHandler) final)
      (buildChainFrom read' (es'.filterMap MiddlewareEntry.asyncHandler) final') := by
  induction h with
  | nil => exact hf
  | @cons e e' es es' he _ ih =>
    cases he.paired with
    | hAsync => exact follows_call hr he ih
    | hSync => exact ih

omit hr in
theorem follows_needsBody {e : MiddlewareEntry (A × C) ε ρ} {e' : MiddlewareEntry A ε ρ}
    (he : e.Follows I e') : e.needsBody = e'.needsBody ∧ e.isSync = e'.isSync := by
  cases he.paired with
  | @hAsync h nb h' nb' =>
    cases h with
    | code p =>
      cases h' with
      | code p' => exact ⟨he.1, rfl⟩
      | bodyGate => cases he
    | bodyGate =>
      cases h' with
      | code p' => cases he
      | bodyGate => exact ⟨he, rfl⟩
  | hSync hn => exact ⟨hn, rfl⟩

omit hr in
theorem forall₂_findIdx (h : List.Forall₂ (MiddlewareEntry.Follows I) es es') :
    es.findIdx? MiddlewareEntry.needsBody = es'.findIdx? MiddlewareEntry.needsBody ∧
      es.any MiddlewareEntry.isSync = es'.any MiddlewareEntry.isSync := by
  induction h with
  | nil => exact ⟨rfl, rfl⟩
  | cons he _ ih =>
    obtain ⟨hn, hs⟩ := follows_needsBody he
    rw [List.findIdx?_cons, List.findIdx?_cons, List.any_cons, List.any_cons, hn, hs, ih.1, ih.2]
    exact ⟨rfl, rfl⟩

omit hr in
theorem forall₂_chainEntries (h : List.Forall₂ (MiddlewareEntry.Follows I) es es') :
    List.Forall₂ (MiddlewareEntry.Follows I) (chainEntries es) (chainEntries es') := by
  rw [chainEntries, chainEntries, withBodyGate, withBodyGate, insertBefore, insertBefore,
    (forall₂_findIdx h).1]
  cases es'.findIdx? MiddlewareEntry.needsBody with
  | none => exact h
  | some first =>
    have hgate : MiddlewareEntry.Follows I (.gate : MiddlewareEntry (A × C) ε ρ) .gate := rfl
    exact List.rel_append (List.forall₂_take _ h) (.cons hgate (List.forall₂_drop _ h))

/-- The chains of paired entries around paired readers and handlers go the same way. -/
theorem follows_buildOptimizedChain (hf : Follows I final final')
    (h : List.Forall₂ (MiddlewareEntry.Follows I) es es') :
    Follows I (buildOptimizedChain read es final) (buildOptimizedChain read' es' final') := by
  have hc := forall₂_chainEntries h
  rw [buildOptimizedChain, buildOptimizedChain]
  generalize chainEntries es = cs at hc
  generalize chainEntries es' = cs' at hc
  cases hc with
  | nil => exact hf
  | @cons e e' es es' he hes =>
    have hany := (forall₂_findIdx (.cons he hes)).2
    dsimp only
    rw [hany]
    split
    · have hm := follows_mergeRuns hr hf (.cons he hes)
      exact follows_closeRun hm.1 hm.2
    · exact follows_buildChainFrom hr hf (.cons he hes)

end Follows

end Hical
