import Hical.Lib.Coupled
import Hical.Middleware.Invariant

namespace Hical
open Effect

section Coupled
variable {S ε ρ : Type} {R : S → S → Prop} {D : S → Prop}

/-- The code of an entry does not tell related states apart. -/
def MiddlewareEntry.Blind (R : S → S → Prop) (D : S → Prop) : MiddlewareEntry S ε ρ → Prop
  | .hAsync (.code p) _ => p.Blind R
  | .hAsync .bodyGate _ => True
  | .hSync b a _ => (∀ x ∈ b, Coupled R D x x) ∧ ∀ f ∈ a, ∀ res, Coupled R D (f res) (f res)

theorem coupled_bodyGate {read read' : Option (Eff S ε (Option ρ))} {x y : Eff S ε ρ}
    (hr : ∀ a ∈ read, ∃ b ∈ read', Coupled R D a b) (hn : read = none → read' = none)
    (hx : Coupled R D x y) (hD : Keeps D x) : Coupled R D (bodyGate read x) (bodyGate read' y) := by
  cases read with
  | none =>
    rw [hn rfl]
    exact hx
  | some a =>
    obtain ⟨b, hb, hab⟩ := hr a rfl
    cases hb
    apply hab.bind
    · intro err
      cases err with
      | none => exact hx
      | some err => exact .pure err
    · intro err
      cases err with
      | none => exact hD
      | some err => exact .pure err

theorem coupled_runBefores {befores : List (Eff S ε (Option ρ))}
    (h : ∀ x ∈ befores, Coupled R D x x) (hD : ∀ x ∈ befores, Keeps D x) :
    Coupled R D (runBefores befores) (runBefores befores) := by
  induction befores with
  | nil => exact .pure none
  | cons x befores ih =>
    have hk : ∀ y ∈ befores, Keeps D y := fun y hy => hD y (List.mem_cons_of_mem _ hy)
    apply Coupled.bind (h x List.mem_cons_self)
    · intro res
      cases res with
      | none => exact ih (fun y hy => h y (List.mem_cons_of_mem _ hy)) hk
      | some res => exact .pure _
    · intro res
      cases res with
      | none => exact keeps_runBefores hk
      | some res => exact .pure _

theorem coupled_runAfters {afters : List (ρ → Eff S ε ρ)}
    (h : ∀ f ∈ afters, ∀ res, Coupled R D (f res) (f res))
    (hD : ∀ f ∈ afters, ∀ res, Keeps D (f res)) (res : ρ) :
    Coupled R D (runAfters afters res) (runAfters afters res) := by
  induction afters with
  | nil => exact .pure res
  | cons f afters ih =>
    apply Coupled.bind (ih (fun g hg => h g (List.mem_cons_of_mem _ hg))
      fun g hg => hD g (List.mem_cons_of_mem _ hg))
    · exact h f List.mem_cons_self
    · exact hD f List.mem_cons_self

theorem coupled_mergedRun {run : List (MiddlewareEntry S ε ρ)} (h : ∀ e ∈ run, e.Blind R D)
    (hk : ∀ e ∈ run, e.Keeps D) {x y : Eff S ε ρ} (hx : Coupled R D x y) (hD : Keeps D x) :
    Coupled R D (mergedRun run x) (mergedRun run y) := by
  have hbefore : ∀ b ∈ run.filterMap MiddlewareEntry.before, Coupled R D b b ∧ Keeps D b := by
    intro b hb
    obtain ⟨e, he, hb⟩ := List.mem_filterMap.1 hb
    cases e with
    | hAsync p nb => cases hb
    | hSync b' a nb => exact ⟨(h _ he).1 b hb, (hk _ he).1 b hb⟩
  have hafter : ∀ f ∈ run.filterMap MiddlewareEntry.after,
      ∀ res, Coupled R D (f res) (f res) ∧ Keeps D (f res) := by
    intro f hf res
    obtain ⟨e, he, hf⟩ := List.mem_filterMap.1 hf
    cases e with
    | hAsync p nb => cases hf
    | hSync b a nb => exact ⟨(h _ he).2 f hf res, (hk _ he).2 f hf res⟩
  apply Coupled.bind (coupled_runBefores (fun b hb => (hbefore b hb).1) fun b hb => (hbefore b hb).2)
  · intro res
    cases res with
    | some res => exact .pure res
    | none =>
      apply hx.bind
      · intro res
        exact coupled_runAfters (fun f hf res => (hafter f hf res).1)
          (fun f hf res => (hafter f hf res).2) res
      · intro res
        exact keeps_runAfters (fun f hf res => (hafter f hf res).2) res
  · intro res
    cases res with
    | some res => exact .pure res
    | none =>
      apply hD.bind
      intro res
      exact keeps_runAfters (fun f hf res => (hafter f hf res).2) res

theorem Built.coupled {read read' : Option (Eff S ε (Option ρ))} {final final' : Eff S ε ρ}
    (hb : Built read read' final final' es x y) (h : ∀ e ∈ es, e.Blind R D)
    (hk : ∀ e ∈ es, e.Keeps D) (hr : ∀ a ∈ read, ∃ b ∈ read', Coupled R D a b)
    (hn : read = none → read' = none) (hrD : ∀ a ∈ read, Keeps D a)
    (hf : Coupled R D final final') (hfD : Keeps D final) : Coupled R D x y ∧ Keeps D x := by
  refine ⟨?_, hb.keeps _ _ _ _ hrD hk hfD⟩
  induction hb with
  | final => exact hf
  | @async es x y p nb hb ih =>
    have hk' : ∀ e ∈ es, e.Keeps D := fun e he => hk e (List.mem_cons_of_mem _ he)
    have hx := ih (fun e he => h e (List.mem_cons_of_mem _ he)) hk'
    have hD : Keeps D x := hb.keeps _ _ _ _ hrD hk' hfD
    cases p with
    | code p => exact Prog.coupled (h _ List.mem_cons_self) (hk _ List.mem_cons_self) hx hD
    | bodyGate => exact coupled_bodyGate hr hn hx hD
  | @run es x y run hs hb ih =>
    have hk' : ∀ e ∈ es, e.Keeps D := fun e he => hk e (List.mem_append_right _ he)
    apply coupled_mergedRun (fun e he => h e (List.mem_append_left _ he))
      (fun e he => hk e (List.mem_append_left _ he))
    · exact ih (fun e he => h e (List.mem_append_right _ he)) hk'
    · exact hb.keeps _ _ _ _ hrD hk' hfD

end Coupled

end Hical
