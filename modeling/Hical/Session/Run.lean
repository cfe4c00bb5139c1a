import Hical.Session.UserCode
import Hical.Session.Writes

namespace Hical
open Effect

/-- What a turn leaves over stands in the spill for the next turn. -/
def Incoming.spilled (i : Incoming) : Incoming :=
  if 0 < i.bufUsed then { i with pipelineSpill := (i.readBuf.drop i.spillSrc).take i.bufUsed } else i

theorem storeSpill_toIncoming (c : Conn) : (storeSpill c).toIncoming = c.toIncoming.spilled := by
  rw [storeSpill, Incoming.spilled]
  split
  · rfl
  · rfl

theorem storeSpill_broken (c : Conn) : (storeSpill c).broken = c.broken := by
  rw [storeSpill]
  split
  · rfl
  · rfl

section Turn
variable {υ : Type} (srv : Server υ) (w : World)

/-- The states of a session between two turns. -/
inductive Reaches (s₀ : υ × Conn) : υ × Conn → Prop where
  | start : Reaches s₀ s₀
  | turn (h : Reaches s₀ s) (hs : (turn srv w).exec s = (.ok .goOn, s')) : Reaches s₀ s'

/-- A turn after which the connection stays open: the head was read, the main chain answered and the
response was written. -/
structure Served (s : υ × Conn) (head : PhrRequest) (n : Nat) (c : Conn) (res : Response)
    (t : Sess υ) (s' : υ × Conn) : Prop where
  read : (readHead w srv.maxHeaderSize).exec (startTurn s.2) = (.ok (some (head, n)), c)
  framing : (scanHead head).badFraming head.minorVersion = false
  coding : (scanHead head).transferEncodingStatus ≠ .hNotImplemented
  route : (resolve srv head).isMatch = true ∨ (scanHead head).hasRequestBody = false
  chain : (runMainChain srv w (framingOf head n) (resolve srv head)).exec
    ((s.1, routedRequest srv head), c) = (.ok res, t)
  stays : srv.isWsOrSse t.1.2 = false
  user : s'.1 = t.1.1
  incoming : s'.2.toIncoming = t.2.toIncoming.spilled
  sound : w.Takes → t.2.broken = false → s'.2.broken = false

/-- The connection does not stay open. -/
def LastTurn {S : Type} (x : Eff S Exn Step) : Prop := ∀ s s', x.exec s ≠ (.ok .goOn, s')

theorem LastTurn.bind {S α : Type} {x : Eff S Exn α} {f : α → Eff S Exn Step}
    (h : ∀ a, LastTurn (f a)) : LastTurn (x >>= f) := by
  intro s s' hx
  obtain ⟨a, t, -, hf⟩ := exec_bind_ok_iff.1 hx
  exact h a t s' hf

theorem LastTurn.pure {S : Type} (h : step ≠ .goOn) : LastTurn (pure step : Eff S Exn Step) := by
  intro s s' hx
  cases hx
  exact h rfl

theorem lastTurn_rejectUpgrade (res : Response) : LastTurn (rejectUpgrade (υ := υ) w res) :=
  .bind fun _ => .pure nofun

theorem lastTurn_passUpgrade {accept : Eff (Sess υ) Exn Step} (h : LastTurn accept) :
    LastTurn (passUpgrade srv w accept) := by
  rw [passUpgrade]
  split
  · apply LastTurn.bind
    intro res
    split
    · exact lastTurn_rejectUpgrade w res
    · exact h
  · exact h

theorem lastTurn_serveWebSocket (route : WsRoute) (params : ParamList) :
    LastTurn (serveWebSocket srv w route params) := by
  apply LastTurn.bind
  intro _
  apply LastTurn.bind
  intro _
  apply LastTurn.bind
  intro s
  split
  · exact lastTurn_rejectUpgrade w _
  · apply lastTurn_passUpgrade
    apply LastTurn.bind
    intro s
    split
    · exact .pure nofun
    · exact lastTurn_rejectUpgrade w _

theorem lastTurn_serveSse (params : ParamList) : LastTurn (serveSse srv w params) := by
  apply LastTurn.bind
  intro _
  apply LastTurn.bind
  intro _
  exact lastTurn_passUpgrade srv w (.pure nofun)

theorem lastTurn_refuseRequest (code : Nat) (reason body : Bytes) :
    LastTurn (refuseRequest (υ := υ) w code reason body) :=
  .bind fun _ => .pure nofun

theorem lastTurn_refuseUnmatched (result : ResolveResult (RouteHandler υ)) :
    LastTurn (refuseUnmatched w result) := by
  rw [refuseUnmatched]
  split
  · apply LastTurn.bind
    intro _
    apply LastTurn.bind
    intro _
    exact .pure nofun
  · exact lastTurn_refuseRequest w _ _ _

theorem writePhase_goOn (h : (writePhase w res).exec t = (.ok .goOn, t')) :
    t'.1 = t.1 ∧ t'.2.toIncoming = t.2.toIncoming.spilled ∧
      (w.Takes → t.2.broken = false → t'.2.broken = false) := by
  obtain ⟨_, _, hg, h⟩ := exec_bind_ok_iff.1 h
  cases hg
  dsimp only at h
  split at h
  · obtain ⟨_, u, hw, h⟩ := exec_bind_ok_iff.1 h
    obtain ⟨_, _, hs, h⟩ := exec_bind_ok_iff.1 h
    cases hs
    cases h
    obtain ⟨hw, hu⟩ := exec_right_ok hw
    refine ⟨hu, ?_, ?_⟩
    · have hi := (answers_writeKeptAlive (X := True) (Y := True) w (.inl trivial) (.inl trivial) _
        _).ok (.inl trivial) hw
      rw [← hi.1]
      exact storeSpill_toIncoming u.2
    · intro ht hb
      have hi := (answers_writeKeptAlive (X := False) (Y := True) w (.inr ht) (.inl trivial) _ _).ok
        (.inr hb) hw
      exact (storeSpill_broken u.2).trans (hi.2.resolve_left id)
  · next hk =>
    obtain ⟨_, u, hw, h⟩ := exec_bind_ok_iff.1 h
    obtain ⟨_, _, -, h⟩ := exec_bind_ok_iff.1 h
    cases h

theorem conclude_goOn (h : (conclude srv w res).exec t = (.ok .goOn, t')) :
    srv.isWsOrSse t.1.2 = false ∧ t'.1 = t.1 ∧ t'.2.toIncoming = t.2.toIncoming.spilled ∧
      (w.Takes → t.2.broken = false → t'.2.broken = false) := by
  obtain ⟨_, _, hg, h⟩ := exec_bind_ok_iff.1 h
  cases hg
  split at h
  · exact absurd h (lastTurn_serveWebSocket srv w _ _ _ _)
  · exact absurd h (lastTurn_serveSse srv w _ _ _)
  · next hws hsse =>
    refine ⟨?_, writePhase_goOn w h⟩
    rw [Server.isWsOrSse, hws, hsse]
    rfl

theorem serveHead_goOn (h : (serveHead srv w head n).exec t = (.ok .goOn, t')) :
    (scanHead head).badFraming head.minorVersion = false ∧
      (scanHead head).transferEncodingStatus ≠ .hNotImplemented ∧
      ((resolve srv head).isMatch = true ∨ (scanHead head).hasRequestBody = false) ∧
      (serveMatched srv w (framingOf head n) (resolve srv head)).exec t = (.ok .goOn, t') := by
  rw [serveHead] at h
  split at h
  · exact absurd h (lastTurn_refuseRequest w _ _ _ _ _)
  · next hbad =>
    split at h
    · exact absurd h (lastTurn_refuseRequest w _ _ _ _ _)
    · next hcoding =>
      split at h
      · exact absurd h (lastTurn_refuseRequest w _ _ _ _ _)
      · split at h
        · exact absurd h (lastTurn_refuseUnmatched w _ _ _)
        · next hroute =>
          refine ⟨Bool.eq_false_iff.2 hbad, hcoding, ?_, h⟩
          rw [Bool.and_eq_true, not_and_or, Bool.not_eq_true', Bool.not_eq_false,
            Bool.not_eq_true] at hroute
          exact hroute

theorem turn_goOn (h : (turn srv w).exec s = (.ok .goOn, s')) :
    ∃ head n c res t, Served srv w s head n c res t s' := by
  obtain ⟨_, _, hm, h⟩ := exec_bind_ok_iff.1 h
  cases hm
  obtain ⟨r, u, hr, h⟩ := exec_bind_ok_iff.1 h
  obtain ⟨hr, hu⟩ := exec_right_ok hr
  cases r with
  | none => cases h
  | some r =>
    rw [exec_of] at h
    cases hx : (serveHead srv w r.1 r.2).exec ((u.1, routedRequest srv r.1), u.2) with
    | mk step t' =>
      rw [hx] at h
      cases h
      obtain ⟨hbad, hcoding, hroute, hm⟩ := serveHead_goOn srv w hx
      obtain ⟨res, t, hc, hm⟩ := exec_bind_ok_iff.1 hm
      obtain ⟨hws, ht, hi, hb⟩ := conclude_goOn srv w hm
      rw [hu] at hc
      exact ⟨r.1, r.2, u.2, res, t, hr, hbad, hcoding, hroute, hc, hws, congrArg Prod.fst ht, hi,
        hb⟩

theorem writePhase_returns (hw : w.Reliable) (res : Response) (t : Sess υ)
    (hk : (t.1.2.keepAlive && !w.draining t.2.turn) = true) (hb : t.2.broken = false) :
    ∃ t', (writePhase w res).exec t = (.ok .goOn, t') ∧ t'.1 = t.1 ∧
      t'.2.toIncoming = t.2.toIncoming.spilled ∧ t'.2.broken = false := by
  have ha := answers_writeKeptAlive (X := False) (Y := False) w (.inr hw.takes) (.inr hw)
    { res with httpVersionMinor := 1, keepAlive := true } (t.1.2.method == .hHead)
  obtain ⟨_, c, hx, wire, hc⟩ := ((ha t.2.toIncoming t.2.log).conseq (fun _ => id) (fun _ _ => id)
    fun _ _ h => h.1.elim id id).returns ⟨rfl, rfl, .inr hb⟩
  refine ⟨(t.1, storeSpill c), ?_, rfl, ?_, ?_⟩
  · rw [writePhase, exec_bind, exec_get]
    simp only [hk, ↓reduceIte]
    rw [exec_bind, exec_right, hx]
    rfl
  · rw [← hc.incoming]
    exact storeSpill_toIncoming c
  · exact (storeSpill_broken c).trans (hc.sound.resolve_left id)

theorem turn_of_chain (hw : w.Reliable)
    (hread : (readHead w srv.maxHeaderSize).exec (startTurn s.2) = (.ok (some (head, n)), c))
    (hbad : (scanHead head).badFraming head.minorVersion = false)
    (hcoding : (scanHead head).transferEncodingStatus ≠ .hNotImplemented)
    (hdepth : (resolve srv head).pathTooDeep = false)
    (hroute : (resolve srv head).isMatch = true ∨ (scanHead head).hasRequestBody = false)
    (hchain : (runMainChain srv w (framingOf head n) (resolve srv head)).exec
      ((s.1, routedRequest srv head), c) = (.ok res, t))
    (hstays : srv.isWsOrSse t.1.2 = false)
    (hk : (t.1.2.keepAlive && !w.draining t.2.turn) = true) (hb : t.2.broken = false) :
    ∃ s', (turn srv w).exec s = (.ok .goOn, s') ∧ s'.1 = t.1.1 ∧
      s'.2.toIncoming = t.2.toIncoming.spilled ∧ s'.2.broken = false := by
  obtain ⟨t', ht, hu, hi, hb'⟩ := writePhase_returns w hw res t hk hb
  refine ⟨(t'.1.1, t'.2), ?_, congrArg Prod.fst hu, hi, hb'⟩
  have hserve : (serveHead srv w head n).exec ((s.1, routedRequest srv head), c)
      = (.ok .goOn, t') := by
    have hr : ((!(resolve srv head).isMatch && (scanHead head).hasRequestBody)) = false := by
      rcases hroute with hr | hr
      · rw [hr]
        rfl
      · rw [hr, Bool.and_false]
    simp only [serveHead, hbad, hcoding, hdepth, hr, Bool.false_eq_true, ↓reduceIte]
    rw [serveMatched, exec_bind, hchain]
    rw [Server.isWsOrSse, Bool.or_eq_false_iff, Option.isSome_eq_false_iff,
      Option.isSome_eq_false_iff, Option.isNone_iff_eq_none, Option.isNone_iff_eq_none] at hstays
    simp only [conclude, exec_bind, exec_get, hstays.1, hstays.2]
    exact ht
  rw [turn, exec_bind, exec_modify]
  simp only [exec_bind, exec_right, hread, exec_of, hserve]

end Turn

end Hical
