import Hical.Middleware.Invariant
import Hical.Session.Serve

namespace Hical
open Effect

section Dispatch
variable {υ : Type} (srv : Server υ) (w : World)

/-- What the observations leave alone. -/
def Unobserved (J : Conn → Prop) : Prop := ∀ c l, J c → J { c with invoked := l }

theorem noteUseBody_keeps {J : Conn → Prop} (hJ : Unobserved J) (nb : Bool) (s : Sess υ)
    (h : J s.2) : J (noteUseBody nb s).2 := by
  rw [noteUseBody]
  split
  · exact hJ _ _ h
  · exact h

theorem onSess_keeps {J : Conn → Prop} (hJ : Unobserved J)
    (e : MiddlewareEntry (View υ) Exn Response) : e.onSess.Keeps fun s => J s.2 := by
  cases e with
  | hAsync h nb =>
    cases h with
    | code p => exact ⟨noteUseBody_keeps hJ nb, fun _ => p.actsKeep_lift⟩
    | bodyGate => trivial
  | hSync b a nb =>
    refine ⟨?_, ?_⟩
    · intro x hx
      obtain ⟨b', -, rfl⟩ := Option.map_eq_some_iff.1 hx
      exact (Keeps.modify _ (noteUseBody_keeps hJ nb)).bind fun _ => Keeps.lift b'
    · intro g hg res
      obtain ⟨a', -, rfl⟩ := Option.map_eq_some_iff.1 hg
      exact (Keeps.modify _ (noteUseBody_keeps hJ nb)).bind fun _ => Keeps.lift (a' res)

theorem keeps_call_handler {J : Conn → Prop} (hJ : Unobserved J) (h : RouteHandler υ) :
    Keeps (fun s : Sess υ => J s.2) h.call := by
  apply Keeps.get_bind
  intro s
  apply Keeps.bind
  · exact Keeps.modify _ fun _ h => hJ _ _ h
  · intro _
    exact Keeps.lift _

theorem keeps_dispatchResolved {J : Conn → Prop} (hJ : Unobserved J)
    {readBody : Option (Eff (Sess υ) Exn (Option Response))}
    (hr : ∀ x ∈ readBody, Keeps (fun s : Sess υ => J s.2) x)
    (result : ResolveResult (RouteHandler υ)) :
    Keeps (fun s : Sess υ => J s.2) (dispatchResolved readBody result) := by
  have hentries : ∀ h : RouteHandler υ, ∀ e ∈ h.entries.map MiddlewareEntry.onSess,
      e.Keeps fun s : Sess υ => J s.2 := by
    intro h e he
    obtain ⟨e', -, rfl⟩ := List.mem_map.1 he
    exact onSess_keeps hJ e'
  rw [dispatchResolved]
  split
  · exact .pure _
  · split
    · next e _ =>
      cases e.endpoint with
      | syncHandler h => exact keeps_mergedRun (hentries h) (keeps_call_handler hJ h)
      | asyncHandler h => exact keeps_buildOptimizedChain hr (hentries h) (keeps_call_handler hJ h)
      | compileTimeChain h =>
        exact keeps_buildOptimizedChain hr (hentries h) (keeps_call_handler hJ h)
    · split
      · exact .pure _
      · exact .pure _

theorem chainEntriesOf_keep {J : Conn → Prop} (hJ : Unobserved J) :
    ∀ e ∈ chainEntriesOf srv, e.Keeps fun s : Sess υ => J s.2 := by
  intro e he
  obtain ⟨e', -, rfl⟩ := List.mem_map.1 he
  exact onSess_keeps hJ e'

theorem keeps_dispatchRequest {J : Conn → Prop} (hJ : Unobserved J) {f : Framing}
    (hr : Keeps (fun s : Sess υ => J s.2) (readRequestBody w srv.maxBodySize f))
    (result : ResolveResult (RouteHandler υ)) :
    Keeps (fun s : Sess υ => J s.2) (dispatchRequest srv w f result) := by
  have hsome : ∀ x ∈ some (readRequestBody w srv.maxBodySize f),
      Keeps (fun s : Sess υ => J s.2) x := by
    rintro x ⟨⟩
    exact hr
  rw [dispatchRequest]
  split
  · apply keeps_buildOptimizedChain hsome (chainEntriesOf_keep srv hJ)
    apply Keeps.bind
    · apply Keeps.get_bind
      intro s
      split
      · exact .pure _
      · exact hr
    · intro err
      cases err with
      | some err => exact .pure _
      | none => exact keeps_dispatchResolved hJ hsome result
  · apply hr.bind
    intro err
    cases err with
    | some err => exact .pure _
    | none => exact keeps_dispatchResolved hJ (fun _ hx => by cases hx) result

theorem keeps_errorResponse {J : Conn → Prop} (e : Exn) :
    Keeps (fun s : Sess υ => J s.2) (errorResponse srv e) := by
  intro s hs
  rw [errorResponse.eq_def]
  split
  · exact hs
  · exact hs
  · next e h _ _ =>
    rw [exec_of]
    split
    · next hx =>
      have := congrArg (fun r => r.2.2) hx
      exact this ▸ hs
    · next hx =>
      have := congrArg (fun r => r.2.2) hx
      exact this ▸ hs

theorem keeps_catching {J : Conn → Prop} {x : Eff (Sess υ) Exn Response}
    (hx : Keeps (fun s : Sess υ => J s.2) x) : Keeps (fun s : Sess υ => J s.2) (catching srv x) := by
  intro s hs
  have h := hx s hs
  rw [catching, exec_of]
  split
  · next he =>
    rw [he] at h
    exact h
  · next he =>
    rw [he] at h
    exact keeps_errorResponse srv _ _ h

theorem keeps_runMainChain {J : Conn → Prop} (hJ : Unobserved J) {f : Framing}
    (hr : Keeps (fun s : Sess υ => J s.2) (readRequestBody w srv.maxBodySize f))
    (result : ResolveResult (RouteHandler υ)) :
    Keeps (fun s : Sess υ => J s.2) (runMainChain srv w f result) := by
  apply Keeps.get_bind
  intro s
  split
  · exact .pure _
  · exact keeps_catching srv (keeps_dispatchRequest srv w hJ hr result)

end Dispatch

end Hical
