import Hical.Session.Batch
import Hical.Session.Writes

namespace Hical
open Effect

/-- What a request wants to become, and what the route asks for. -/
structure UpgradeTarget where
  allowedOrigins : List Bytes
  params : ParamList
  /-- A WebSocket opens with a handshake, an event stream does not. -/
  handshake : Bool

/-- The request that an upgrade is about, once the path gave its parameters. -/
def UpgradeTarget.enter (t : UpgradeTarget) (req : Request) : Request :=
  { req with params := t.params.foldl setParam req.params }

def UpgradeTarget.AllowsOrigin (t : UpgradeTarget) (req : Request) : Prop :=
  t.allowedOrigins = [] ∨ req.headers.find (bytes "Origin") ∈ t.allowedOrigins

section Failing
variable (w : World)

/-- The computation throws only when the socket fails. -/
def FailsCut (x : Eff Conn Exn α) : Prop :=
  Triple (fun _ => True) x (fun _ _ => True) fun e c => e = .system ∧ c.broken = true

theorem FailsCut.bind {x : Eff Conn Exn α} {f : α → Eff Conn Exn β} (hx : FailsCut x)
    (hf : ∀ a, FailsCut (f a)) : FailsCut (x >>= f) :=
  Triple.bind hx hf

theorem failsCut_asyncWrite (buf : Bytes) : FailsCut (asyncWrite w buf) := by
  intro c _
  rw [asyncWrite, exec_of]
  by_cases hb : c.broken = true
  · rw [if_pos hb]
    exact ⟨rfl, hb⟩
  · rw [if_neg hb]
    cases w.writeFails c.writes with
    | none => trivial
    | some k => exact ⟨rfl, rfl⟩

theorem failsCut_writeBuffer (buf : Bytes) : FailsCut (writeBuffer w buf) := by
  apply FailsCut.bind (fun _ _ => trivial)
  intro n
  split
  · exact fun _ _ => trivial
  · exact failsCut_asyncWrite w _

theorem failsCut_writeBuffers (head body : Bytes) : FailsCut (writeBuffers w head body) := by
  apply FailsCut.bind (fun _ _ => trivial)
  intro n
  split
  · exact fun _ _ => trivial
  · split
    · exact failsCut_asyncWrite w _
    · exact failsCut_asyncWrite w _

theorem failsCut_writeResponse (res : Response) (common : Bytes) (skipBody : Bool) :
    FailsCut (writeResponse w res common skipBody) := by
  apply FailsCut.bind (fun _ _ => trivial)
  intro _
  dsimp only
  split
  · split
    · exact failsCut_writeBuffer w _
    · split
      · exact failsCut_writeBuffer w _
      · exact failsCut_asyncWrite w _
  · split
    · exact failsCut_writeBuffer w _
    · split
      · exact failsCut_writeBuffer w _
      · exact failsCut_writeBuffers w _ _

end Failing

section Gate
variable {υ : Type} (srv : Server υ) (w : World)

def Server.upgradeTarget (req : Request) : Option UpgradeTarget :=
  match srv.wsTarget req, srv.sseTarget req with
  | some (route, params), _ => some ⟨route.allowedOrigins, params, true⟩
  | none, some (_, params) => some ⟨[], params, false⟩
  | none, none => none

/-- The global middlewares let the upgrade pass, and what they leave of the request is a valid one. -/
def Passed (t : UpgradeTarget) (g : Sess υ) : Prop :=
  ∃ res g', (upgradeChain srv).exec g = (.ok res, g') ∧ res.status = .hOk ∧
    (t.handshake = true → g'.1.2.validateWsUpgrade = true)

/-- The last response of a connection that does not change hands. -/
def closing (res : Response) : Response :=
  { res with
    httpVersionMinor := 1, headers := res.headers.set (bytes "Connection") (bytes "close") }

/-- What follows on the flush of the responses held back. -/
def gateUpgrade (t : UpgradeTarget) : Eff (Sess υ) Exn Step := do
  setParams t.params
  let s ← get
  if t.allowedOrigins ≠ [] ∧ s.1.2.headers.find (bytes "Origin") ∉ t.allowedOrigins then
    rejectUpgrade w originNotAllowed
  else
    passUpgrade srv w (if t.handshake then acceptWebSocket w else pure .handedOver)

theorem serveMatched_upgrade (f : Framing) (result : ResolveResult (RouteHandler υ)) (s : Sess υ)
    (ht : srv.upgradeTarget s.1.2 = some t) :
    (serveMatched srv w f result).exec s =
      (do (flushResponseBatch w).right; gateUpgrade srv w t).exec s := by
  have hmain : (runMainChain srv w f result).exec s = (.ok {}, s) := by
    have hup : srv.isWsOrSse s.1.2 = true := by
      rw [Server.upgradeTarget] at ht
      rw [Server.isWsOrSse]
      split at ht
      · rename_i hws
        rw [hws]
        rfl
      · rename_i hws hsse
        rw [hsse]
        exact Bool.or_true _
      · cases ht
    rw [runMainChain, exec_bind, exec_get]
    simp only [hup, ↓reduceIte, exec_pure]
  rw [serveMatched, exec_bind, hmain]
  dsimp only
  rw [conclude, exec_bind, exec_get]
  dsimp only
  rw [Server.upgradeTarget] at ht
  cases hws : srv.wsTarget s.1.2 with
  | some ws =>
    rw [hws] at ht
    cases ht
    rfl
  | none =>
    rw [hws] at ht
    cases hsse : srv.sseTarget s.1.2 with
    | some sse =>
      rw [hsse] at ht
      cases ht
      simp only [serveSse, gateUpgrade, ne_eq, not_true_eq_false, false_and, ↓reduceIte]
      rfl
    | none =>
      rw [hsse] at ht
      cases ht

theorem upgradeChain_nil (h : srv.middlewarePipeline = []) : upgradeChain srv = pure .okEmpty := by
  rw [upgradeChain, chainEntriesOf, h]
  rfl

theorem passUpgrade_eq (accept : Eff (Sess υ) Exn Step) :
    passUpgrade srv w accept =
      (do
        let res ← upgradeChain srv
        if res.status ≠ .hOk then rejectUpgrade w res else accept) := by
  rw [passUpgrade]
  split
  · rfl
  · rename_i hnone
    rw [upgradeChain_nil srv (List.length_eq_zero_iff.mp (Nat.eq_zero_of_not_pos hnone))]
    rfl

theorem gateUpgrade_allowed (ho : t.AllowsOrigin s.1.2) :
    (gateUpgrade srv w t).exec s =
      (do
        let res ← upgradeChain srv
        if res.status ≠ HttpStatusCode.hOk then rejectUpgrade w res
        else if t.handshake then acceptWebSocket w else pure .handedOver).exec
          ((s.1.1, t.enter s.1.2), s.2) := by
  have hno : ¬ (t.allowedOrigins ≠ [] ∧ s.1.2.headers.find (bytes "Origin") ∉ t.allowedOrigins) := by
    rintro ⟨hne, hout⟩
    exact ho.elim hne hout
  rw [gateUpgrade, setParams, exec_bind, exec_modify]
  dsimp only
  rw [exec_bind, exec_get]
  dsimp only
  rw [if_neg hno, passUpgrade_eq]
  rfl

theorem gateUpgrade_refused (ho : ¬ t.AllowsOrigin s.1.2) :
    (gateUpgrade srv w t).exec s =
      (rejectUpgrade w originNotAllowed).exec ((s.1.1, t.enter s.1.2), s.2) := by
  have hyes : t.allowedOrigins ≠ [] ∧ s.1.2.headers.find (bytes "Origin") ∉ t.allowedOrigins := by
    exact ⟨fun h => ho (.inl h), fun h => ho (.inr h)⟩
  rw [gateUpgrade, setParams, exec_bind, exec_modify]
  dsimp only
  rw [exec_bind, exec_get]
  dsimp only
  rw [if_pos hyes]
  rfl

theorem rejectUpgrade_not_handedOver (res : Response) (g : Sess υ) :
    ((rejectUpgrade w res).exec g).1 ≠ .ok .handedOver := by
  rw [rejectUpgrade, exec_bind]
  split
  · exact nofun
  · exact nofun

theorem gateUpgrade_iff (s : Sess υ) :
    ((gateUpgrade srv w t).exec s).1 = .ok .handedOver ↔
      t.AllowsOrigin s.1.2 ∧ Passed srv t ((s.1.1, t.enter s.1.2), s.2) := by
  by_cases ho : t.AllowsOrigin s.1.2
  · rw [gateUpgrade_allowed srv w ho, exec_bind, Passed]
    rw [and_iff_right ho]
    rcases (upgradeChain srv).exec ((s.1.1, t.enter s.1.2), s.2) with ⟨_ | res, g'⟩
    · apply iff_of_false fun h => by cases h
      rintro ⟨res, g', h, -⟩
      cases h
    · dsimp only
      by_cases hstatus : res.status = .hOk
      · rw [if_neg (not_not_intro hstatus)]
        cases hh : t.handshake with
        | true =>
          simp only [↓reduceIte]
          rw [acceptWebSocket, exec_bind, exec_get]
          dsimp only
          split
          · rename_i hvalid
            exact iff_of_true rfl ⟨res, g', rfl, hstatus, fun _ => hvalid⟩
          · rename_i hvalid
            apply iff_of_false (rejectUpgrade_not_handedOver w _ _)
            rintro ⟨res', g'', h, -, h'⟩
            cases h
            exact hvalid (h' trivial)
        | false => exact iff_of_true rfl ⟨res, g', rfl, hstatus, fun h => by cases h⟩
      · rw [if_pos hstatus]
        apply iff_of_false (rejectUpgrade_not_handedOver w res g')
        rintro ⟨res', g'', h, hok, -⟩
        cases h
        exact hstatus hok
  · rw [gateUpgrade_refused srv w ho]
    exact iff_of_false (rejectUpgrade_not_handedOver w _ _) fun h => ho h.1

/-- The session ends behind `wire`, the one thing written after `l`, or the socket failed. -/
def EndsBehind (l : List Bytes) (wire : Bytes) (r : Except Exn Step × Sess υ) : Prop :=
  (r.1 = .ok .closed ∧ r.2.2.log = l ++ [wire] ∧
      (r.2.2.broken = false → r.2.2.outbox = (l ++ [wire]).flatten)) ∨
    (r.1 = .error .system ∧ r.2.2.broken = true)

theorem rejectUpgrade_ends (res : Response) (g : Sess υ) (h : Flushed g.2) :
    EndsBehind g.2.log (responseWire (closing res) [] false) ((rejectUpgrade w res).exec g) := by
  have hx : rejectUpgrade (υ := υ) w res = (do
      (writeResponse w (closing res) [] false).right
      pure .closed) := rfl
  have hlog := sends_writeResponse w (.inl trivial) (closing res) [] false g.2.toIncoming g.2.log
  have hflushed := triple_writeResponse w (closing res) [] false
  have hcut := failsCut_writeResponse w (closing res) [] false
  rw [hx, exec_bind, exec_right]
  cases hw : (writeResponse w (closing res) [] false).exec g.2 with
  | mk r c =>
    cases r with
    | ok a =>
      have hc := hlog.ok ⟨rfl, rfl, .inl trivial⟩ hw
      refine .inl ⟨rfl, hc.log, ?_⟩
      intro hb
      have hout := (hflushed.ok h hw).exact hb
      rw [List.append_nil] at hout
      exact hout.trans (congrArg List.flatten hc.log)
    | error e =>
      obtain ⟨he, hb⟩ := hcut.error trivial hw
      exact .inr ⟨congrArg Except.error he, hb⟩

theorem keeps_upgradeChain {J : Conn → Prop} (hJ : Unobserved J) :
    Keeps (fun s : Sess υ => J s.2) (upgradeChain srv) :=
  keeps_buildOptimizedChain (fun _ hx => by cases hx) (chainEntriesOf_keep srv hJ) (.pure _)

theorem flush_log (h : (flushResponseBatch w).exec c = (.ok (), c')) : c'.log = c.log := by
  have hs := (sends_flushResponseBatch w (.inl trivial) c.toIncoming c.log).ok
    ⟨rfl, rfl, .inl trivial⟩ h
  rw [hs.log, List.append_nil]

/-- A session of a WebSocket or of an event stream starts just when the Origin is allowed and the
global middlewares end with status 200 on a valid request; with another status their response is the
last thing written. -/
theorem upgrade_gated (f : Framing) (result : ResolveResult (RouteHandler υ)) (s : Sess υ)
    (ht : srv.upgradeTarget s.1.2 = some t) :
    (∀ e c, (flushResponseBatch w).exec s.2 = (.error e, c) →
      ((serveMatched srv w f result).exec s).1 = .error e) ∧
    ∀ c, (flushResponseBatch w).exec s.2 = (.ok (), c) →
      (((serveMatched srv w f result).exec s).1 = .ok .handedOver ↔
        t.AllowsOrigin s.1.2 ∧ Passed srv t ((s.1.1, t.enter s.1.2), c)) ∧
      (∀ e g, t.AllowsOrigin s.1.2 →
        (upgradeChain srv).exec ((s.1.1, t.enter s.1.2), c) = (.error e, g) →
        (serveMatched srv w f result).exec s = (.error e, g) ∧ g.2.log = s.2.log) ∧
      ∀ res g, t.AllowsOrigin s.1.2 →
        (upgradeChain srv).exec ((s.1.1, t.enter s.1.2), c) = (.ok res, g) → res.status ≠ .hOk →
        Batched s.2 →
        EndsBehind s.2.log (responseWire (closing res) [] false)
          ((serveMatched srv w f result).exec s) := by
  rw [serveMatched_upgrade srv w f result s ht, exec_bind, exec_right]
  constructor
  · intro e c hflush
    rw [hflush]
  · intro c hflush
    rw [hflush]
    refine ⟨gateUpgrade_iff srv w (s.1, c), ?_, ?_⟩
    · intro e g ho hchain
      dsimp only
      rw [gateUpgrade_allowed srv w (s := (s.1, c)) ho, exec_bind, hchain]
      have hlog := keeps_upgradeChain srv (J := fun c => c.log = s.2.log) (fun _ _ h => h)
        ((s.1.1, t.enter s.1.2), c) (flush_log w hflush)
      rw [hchain] at hlog
      exact ⟨rfl, hlog⟩
    · intro res g ho hchain hstatus hbatched
      have hc := (triple_flushResponseBatch w).ok hbatched hflush
      have hlog := keeps_upgradeChain srv (J := fun c => c.log = s.2.log) (fun _ _ h => h)
        ((s.1.1, t.enter s.1.2), c) (flush_log w hflush)
      have hg := keeps_upgradeChain srv unobserved_flushed ((s.1.1, t.enter s.1.2), c) hc
      rw [hchain] at hlog hg
      dsimp only
      rw [gateUpgrade_allowed srv w (s := (s.1, c)) ho, exec_bind, hchain]
      dsimp only
      rw [if_pos hstatus, ← hlog]
      exact rejectUpgrade_ends w res g hg

end Gate

/-- A server of one event stream behind a middleware that answers by itself. -/
def guardedServer (answer : Response) : Server Unit where
  maxHeaderSize := 8192
  maxBodySize := 1024
  ssl := false
  router := .empty _
  wsRoutes := []
  sseRoutes := [bytes "/e"]
  middlewarePipeline := [.hSync (some (pure (some answer))) none false]
  errorHandler := none

def streamRequest : Request where
  method := .hGet
  target := bytes "/e"
  httpVersionMinor := 1
  headers := []
  body := []
  keepAlive := true
  expectContinue := false
  upgradePreScanned := none
  params := []

def streamSession : Sess Unit := (((), streamRequest), { inbox := [] })

/-- A middleware that answers with status 200 does not keep the stream from starting, though the end
of the chain is not reached. -/
theorem upgrade_past_answer :
    ((serveMatched (guardedServer .okEmpty) calmWorld ⟨0, false, 0, false, 1⟩
      ((guardedServer .okEmpty).router.resolveRoute .hGet (bytes "/e"))).exec streamSession).1 =
        .ok .handedOver ∧
      Event.handler ∉ (observedOptimized none (chainEntriesOf (guardedServer .okEmpty))
        (pure .okEmpty) streamSession).2 := by
  constructor
  · rfl
  · decide

theorem upgrade_gated_refusal :
    EndsBehind [] (responseWire (closing originNotAllowed) [] false)
      ((serveMatched (guardedServer originNotAllowed) calmWorld ⟨0, false, 0, false, 1⟩
        ((guardedServer originNotAllowed).router.resolveRoute .hGet (bytes "/e"))).exec
          streamSession) := by
  have hbatched : Batched streamSession.2 := ⟨rfl, rfl, fun _ => rfl, fun _ => List.prefix_refl _⟩
  have hgate := (upgrade_gated (t := ⟨[], [], false⟩) (guardedServer originNotAllowed) calmWorld
    ⟨0, false, 0, false, 1⟩ ((guardedServer originNotAllowed).router.resolveRoute .hGet (bytes "/e"))
    streamSession rfl).2 streamSession.2 rfl
  exact hgate.2.2 originNotAllowed streamSession (.inl rfl) rfl (by decide) hbatched

end Hical
