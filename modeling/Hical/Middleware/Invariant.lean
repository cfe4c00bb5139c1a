import Hical.Lib.Hoare
import Hical.Middleware.Chain

namespace Hical
open Effect

section Keeps
variable {S ε ρ : Type} {I : S → Prop}

def MiddlewareEntry.Keeps (I : S → Prop) : MiddlewareEntry S ε ρ → Prop
  | .hAsync (.code p) _ => p.ActsKeep I
  | .hAsync .bodyGate _ => True
  | .hSync b a _ => (∀ x ∈ b, Effect.Keeps I x) ∧ ∀ f ∈ a, ∀ res, Effect.Keeps I (f res)

theorem keeps_bodyGate {readBody : Option (Eff S ε (Option ρ))} {next : Eff S ε ρ}
    (hr : ∀ x ∈ readBody, Keeps I x) (hn : Keeps I next) : Keeps I (bodyGate readBody next) := by
  cases readBody with
  | none => exact hn
  | some read =>
    apply Keeps.bind (hr read rfl)
    intro err
    cases err with
    | none => exact hn
    | some err => exact .pure err

theorem keeps_runBefores {befores : List (Eff S ε (Option ρ))}
    (h : ∀ x ∈ befores, Keeps I x) : Keeps I (runBefores befores) := by
  induction befores with
  | nil => exact .pure none
  | cons x befores ih =>
    apply Keeps.bind (h x List.mem_cons_self)
    intro res
    cases res with
    | none => exact ih fun y hy => h y (List.mem_cons_of_mem _ hy)
    | some res => exact .pure _

theorem keeps_runAfters {afters : List (ρ → Eff S ε ρ)}
    (h : ∀ f ∈ afters, ∀ res, Keeps I (f res)) (res : ρ) : Keeps I (runAfters afters res) := by
  induction afters with
  | nil => exact .pure res
  | cons f afters ih =>
    apply Keeps.bind (ih fun g hg => h g (List.mem_cons_of_mem _ hg))
    exact h f List.mem_cons_self

theorem keeps_mergedRun {run : List (MiddlewareEntry S ε ρ)} (h : ∀ e ∈ run, e.Keeps I)
    {next : Eff S ε ρ} (hn : Keeps I next) : Keeps I (mergedRun run next) := by
  apply Keeps.bind
  · apply keeps_runBefores
    intro x hx
    obtain ⟨e, he, hb⟩ := List.mem_filterMap.1 hx
    cases e with
    | hAsync p nb => cases hb
    | hSync b a nb => exact (h _ he).1 x hb
  · intro res
    cases res with
    | some res => exact .pure res
    | none =>
      apply hn.bind
      intro res
      apply keeps_runAfters
      intro f hf
      obtain ⟨e, he, ha⟩ := List.mem_filterMap.1 hf
      cases e with
      | hAsync p nb => cases ha
      | hSync b a nb => exact (h _ he).2 f ha

theorem keeps_call {readBody : Option (Eff S ε (Option ρ))} (hr : ∀ x ∈ readBody, Keeps I x)
    {h : MiddlewareHandler S ε ρ} (he : (MiddlewareEntry.hAsync h nb).Keeps I) {next : Eff S ε ρ}
    (hn : Keeps I next) : Keeps I (h.call readBody next) := by
  cases h with
  | code p => exact p.keeps he hn
  | bodyGate => exact keeps_bodyGate hr hn

end Keeps

section Built
variable {S ε ρ : Type}

/-- Two chains built from the same entries around two readers of the body and two handlers. The
entries are taken one asynchronous entry or one run of synchronous entries at a time. -/
inductive Built (read read' : Option (Eff S ε (Option ρ))) (final final' : Eff S ε ρ) :
    List (MiddlewareEntry S ε ρ) → Eff S ε ρ → Eff S ε ρ → Prop
  | final : Built read read' final final' [] final final'
  | async (h : MiddlewareHandler S ε ρ) (nb : Bool) (hb : Built read read' final final' es x y) :
      Built read read' final final' (.hAsync h nb :: es) (h.call read x) (h.call read' y)
  | run (run : List (MiddlewareEntry S ε ρ)) (hs : ∀ e ∈ run, e.isSync = true)
      (hb : Built read read' final final' es x y) :
      Built read read' final final' (run ++ es) (mergedRun run x) (mergedRun run y)

variable (read read' : Option (Eff S ε (Option ρ))) (final final' : Eff S ε ρ)

variable {read read' final final'} in
theorem built_closeRun {es : List (MiddlewareEntry S ε ρ)} {x y : Eff S ε ρ}
    (h : Built read read' final final' es x y) (hs : ∀ e ∈ run, e.isSync = true) :
    Built read read' final final' (run ++ es) (closeRun run x) (closeRun run y) := by
  cases run with
  | nil => exact h
  | cons e run => exact .run (e :: run) hs h

theorem built_mergeRuns (es : List (MiddlewareEntry S ε ρ)) :
    ∃ rest, es = (mergeRuns read final es).1 ++ rest ∧
      (mergeRuns read final es).1 = (mergeRuns read' final' es).1 ∧
      (∀ e ∈ (mergeRuns read final es).1, e.isSync = true) ∧
      Built read read' final final' rest (mergeRuns read final es).2
        (mergeRuns read' final' es).2 := by
  induction es with
  | nil => exact ⟨[], rfl, rfl, fun e he => absurd he List.not_mem_nil, .final⟩
  | cons e es ih =>
    obtain ⟨rest, hes, heq, hs, hb⟩ := ih
    cases e with
    | hAsync h nb =>
      refine ⟨.hAsync h nb :: es, rfl, rfl, fun e he => absurd he List.not_mem_nil, ?_⟩
      have := built_closeRun hb hs
      rw [← hes] at this
      have hc := Built.async h nb this
      simp only [mergeRuns]
      rw [← heq]
      exact hc
    | hSync b a nb =>
      refine ⟨rest, congrArg (_ :: ·) hes, congrArg (_ :: ·) heq, ?_, hb⟩
      intro e he
      rcases List.mem_cons.1 he with rfl | he
      · rfl
      · exact hs e he

theorem built_buildChainFrom (es : List (MiddlewareEntry S ε ρ))
    (h : es.any MiddlewareEntry.isSync = false) :
    Built read read' final final' es
      (buildChainFrom read (es.filterMap MiddlewareEntry.asyncHandler) final)
      (buildChainFrom read' (es.filterMap MiddlewareEntry.asyncHandler) final') := by
  induction es with
  | nil => exact .final
  | cons e es ih =>
    rw [List.any_cons, Bool.or_eq_false_iff] at h
    cases e with
    | hAsync x nb => exact .async x nb (ih h.2)
    | hSync b a nb => cases h.1

theorem built_buildOptimizedChain (entries : List (MiddlewareEntry S ε ρ)) :
    Built read read' final final' (chainEntries entries) (buildOptimizedChain read entries final)
      (buildOptimizedChain read' entries final') := by
  rw [buildOptimizedChain, buildOptimizedChain]
  cases hc : chainEntries entries with
  | nil => exact .final
  | cons e es =>
    simp only
    split
    · obtain ⟨rest, hes, heq, hs, hb⟩ := built_mergeRuns read read' final final' (e :: es)
      rw [← heq]
      have := built_closeRun hb hs
      rwa [← hes] at this
    · next h => exact built_buildChainFrom _ _ _ _ _ (Bool.not_eq_true _ ▸ h)

theorem mem_chainEntries {entries : List (MiddlewareEntry S ε ρ)} (h : e ∈ chainEntries entries) :
    e ∈ entries ∨ e = .gate := by
  rw [chainEntries, withBodyGate, insertBefore] at h
  split at h
  · exact .inl h
  · next i _ =>
    rw [Option.getD_some] at h
    rcases List.mem_append.1 h with h | h
    · exact .inl (List.mem_of_mem_take h)
    · rcases List.mem_cons.1 h with h | h
      · exact .inr h
      · exact .inl (List.mem_of_mem_drop h)

theorem Built.keeps {I : S → Prop} (hb : Built read read' final final' es x y)
    (hr : ∀ x ∈ read, Keeps I x) (h : ∀ e ∈ es, e.Keeps I) (hf : Keeps I final) : Keeps I x := by
  induction hb with
  | final => exact hf
  | async x nb _ ih =>
    apply keeps_call hr (h _ List.mem_cons_self)
    exact ih fun e he => h e (List.mem_cons_of_mem _ he)
  | run run hs _ ih =>
    apply keeps_mergedRun fun e he => h e (List.mem_append_left _ he)
    exact ih fun e he => h e (List.mem_append_right _ he)

variable {read final} in
theorem keeps_buildOptimizedChain {I : S → Prop} (hr : ∀ x ∈ read, Keeps I x)
    {entries : List (MiddlewareEntry S ε ρ)} (h : ∀ e ∈ entries, e.Keeps I)
    (hf : Keeps I final) : Keeps I (buildOptimizedChain read entries final) := by
  apply Built.keeps _ _ _ _ (built_buildOptimizedChain read read final final entries) hr _ hf
  intro e he
  rcases mem_chainEntries he with he | rfl
  · exact h e he
  · trivial

end Built

end Hical
