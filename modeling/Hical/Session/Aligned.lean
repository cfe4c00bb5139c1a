import Hical.Middleware.Coupled
import Hical.Session.HeadLimit
import Hical.Session.Trailers

namespace Hical
open Effect

section Probe
variable {υ : Type} (srv : Server υ) (w : World)

/-- Note that the body is asked for. -/
def probeRead : Eff (Sess υ) Exn (Option Response) := do
  onConn fun c => { c with bodyRead := true }
  pure none

/-- The global middlewares, started on a request, come to ask for its body or to the end of the
chain, where it is read. -/
def Server.asksForBody (v : View υ) : Bool :=
  ((buildOptimizedChain (some probeRead) (chainEntriesOf srv) (do let _ ← probeRead; pure {})).exec
    (v, { inbox := [] })).2.2.bodyRead

def Asked (s : Sess υ) : Prop := s.2.bodyRead = true

/-- The same view, and the body not asked for. -/
def Unasked (s t : Sess υ) : Prop :=
  s.1 = t.1 ∧ s.2.bodyRead = false ∧ t.2.bodyRead = false

theorem unasked_noteUseBody (nb : Bool) (s t : Sess υ) (h : Unasked s t) :
    Unasked (noteUseBody nb s) (noteUseBody nb t) := by
  rw [noteUseBody, noteUseBody]
  split
  · exact h
  · exact h

theorem onSess_blind (e : MiddlewareEntry (View υ) Exn Response) : e.onSess.Blind Unasked Asked := by
  let unread : Conn → Prop := fun c => c.bodyRead = false
  cases e with
  | hAsync h nb =>
    cases h with
    | code p =>
      exact fun s t hst => ⟨unasked_noteUseBody nb s t hst, rfl, p.blind_lift unread unread⟩
    | bodyGate => trivial
  | hSync b a nb =>
    have hnote : Coupled Unasked Asked (modify (noteUseBody nb) : Eff (Sess υ) Exn Unit)
        (modify (noteUseBody nb)) := .modify (unasked_noteUseBody nb)
    have hkeep : ∀ {α : Type} (x : Eff (View υ) Exn α), Keeps (Asked (υ := υ)) x.lift :=
      fun _ _ h => h
    refine ⟨?_, ?_⟩
    · intro x hx
      obtain ⟨b', -, rfl⟩ := Option.map_eq_some_iff.1 hx
      exact hnote.bind (fun _ => Coupled.lift unread unread b') fun _ => hkeep b'
    · intro g hg res
      obtain ⟨a', -, rfl⟩ := Option.map_eq_some_iff.1 hg
      exact hnote.bind (fun _ => Coupled.lift unread unread (a' res)) fun _ => hkeep (a' res)

theorem bodyClosed_asked (f : Framing) (n : Nat) :
    BodyClosed f (n + 4096) fun i => i.bodyRead = true ∧ i.readBuf.length ≤ n where
  inbox _ _ h := h
  copied _ h := h
  dropped _ h := h
  buffered i h := by
    rw [List.length_drop]
    omega
  read := Nat.le_add_left _ _
  spilled _ _ _ h _ := h
  stored _ _ h := h
  skipped _ h := h
  asked _ h := ⟨rfl, h.2⟩

theorem asked_readBodyOnce (maxBodySize : Nat) (f : Framing) :
    Keeps (Asked (υ := υ)) (readBodyOnce w maxBodySize f) :=
  fun s hs => (closed_readBodyOnce w (.inl trivial) maxBodySize
    (bodyClosed_asked f s.2.readBuf.length) s ⟨⟨hs, Nat.le_refl _⟩, .inl trivial⟩).1.1

theorem asked_readRequestBody (maxBodySize : Nat) (f : Framing) (s : Sess υ) :
    Asked ((readRequestBody w maxBodySize f).exec s).2 := by
  rw [readRequestBody, exec_bind, exec_get]
  dsimp only
  split
  · next h => exact h
  · exact asked_readBodyOnce w maxBodySize f (s.1, { s.2 with
      bodyRead := true, bodyReads := s.2.bodyReads + 1 }) rfl

theorem unobserved_asked : Unobserved fun c => c.bodyRead = true := fun _ _ h => h

theorem keeps_asked_readRequestBody (f : Framing) :
    Keeps (fun s : Sess υ => s.2.bodyRead = true) (readRequestBody w srv.maxBodySize f) :=
  fun s _ => asked_readRequestBody w srv.maxBodySize f s

theorem asked_thenDispatch {x : Eff (Sess υ) Exn (Option Response)}
    (hx : ∀ s, Asked (x.exec s).2) {k : Option Response → Eff (Sess υ) Exn Response}
    (hk : ∀ r, Keeps Asked (k r)) (s : Sess υ) : Asked ((x >>= k).exec s).2 := by
  have h := hx s
  rw [exec_bind]
  cases hxs : x.exec s with
  | mk r t =>
    rw [hxs] at h
    cases r with
    | ok r => exact hk r t h
    | error e => exact h

theorem asked_readUnlessRead (f : Framing) (s : Sess υ) :
    Asked ((readUnlessRead srv w f).exec s).2 := by
  rw [readUnlessRead, exec_bind, exec_get]
  dsimp only
  split
  · next h => exact h
  · exact asked_readRequestBody w srv.maxBodySize f s

theorem asked_tail (f : Framing) (result : ResolveResult (RouteHandler υ)) (s : Sess υ) :
    Asked ((tail srv w f result).exec s).2 := by
  apply asked_thenDispatch (asked_readUnlessRead srv w f)
  intro r
  cases r with
  | some err => exact .pure err
  | none =>
    apply keeps_dispatchResolved unobserved_asked
    rintro x ⟨⟩
    exact keeps_asked_readRequestBody srv w f

theorem asked_dispatchRequest (f : Framing) (result : ResolveResult (RouteHandler υ)) (s : Sess υ)
    (hs : s.2.bodyRead = false) (ha : srv.asksForBody s.1 = true) :
    Asked ((dispatchRequest srv w f result).exec s).2 := by
  rw [dispatchRequest]
  split
  · have hb := built_buildOptimizedChain (some (readRequestBody w srv.maxBodySize f))
      (some probeRead) (tail srv w f result) (do let _ ← probeRead; pure {}) (chainEntriesOf srv)
    have hc := hb.coupled (R := Unasked) (D := Asked) ?_ ?_ ?_ ?_ ?_ ?_ ?_
    · rcases hc.1 s (s.1, { inbox := [] }) ⟨rfl, hs, rfl⟩ with h | ⟨-, -, -, h⟩
      · exact h
      · rw [Server.asksForBody, h] at ha
        cases ha
    · intro e he
      rcases mem_chainEntries he with he | rfl
      · obtain ⟨e', -, rfl⟩ := List.mem_map.1 he
        exact onSess_blind e'
      · trivial
    · intro e he
      rcases mem_chainEntries he with he | rfl
      · obtain ⟨e', -, rfl⟩ := List.mem_map.1 he
        exact onSess_keeps unobserved_asked e'
      · trivial
    · rintro a ⟨⟩
      exact ⟨_, rfl, .of_apart fun s _ _ => asked_readRequestBody w srv.maxBodySize f s⟩
    · exact fun h => by cases h
    · rintro a ⟨⟩
      exact keeps_asked_readRequestBody srv w f
    · exact .of_apart fun s _ _ => asked_tail srv w f result s
    · exact fun s _ => asked_tail srv w f result s
  · apply asked_thenDispatch (asked_readRequestBody w srv.maxBodySize f)
    intro r
    cases r with
    | some err => exact .pure err
    | none => exact keeps_dispatchResolved unobserved_asked (fun _ hx => by cases hx) result

end Probe

end Hical

namespace Hical
open Effect Parse

section Turn
variable {υ : Type} (srv : Server υ) (w : World) {f : Framing} {i₀ : Incoming}

/-- In a turn: the body has not been asked for and nothing behind the head was touched, or what is
left over starts where the body ends. -/
def Skipping (f : Framing) (i₀ i : Incoming) : Prop :=
  i.bodyRead = false ∧ i = { i₀ with invoked := i.invoked } ∨
    i.bodyRead = true ∧ i.leftover = (i₀.behind f.headerBytes).drop f.contentLength

theorem leftover_invoked (i : Incoming) (l : List Invocation) :
    { i with invoked := l }.leftover = i.leftover := by
  rw [Incoming.leftover, Incoming.leftover, Incoming.spilled, Incoming.spilled]
  split
  · rfl
  · rfl

theorem unobserved_skipping : Unobserved (Sound X (Skipping f i₀)) := by
  rintro c l ⟨h, hb⟩
  refine ⟨?_, hb⟩
  rcases h with ⟨hr, hi⟩ | ⟨hr, hl⟩
  · left
    refine ⟨hr, ?_⟩
    dsimp only
    rw [hi]
  · right
    refine ⟨hr, ?_⟩
    rw [← hl]
    exact leftover_invoked _ _

theorem bodyClosed_length (f : Framing) (n : Nat) :
    BodyClosed f (n + 4096) fun i => i.readBuf.length ≤ n where
  inbox _ _ h := h
  copied _ h := h
  dropped _ h := h
  buffered i h := by
    rw [List.length_drop]
    omega
  read := Nat.le_add_left _ _
  spilled _ _ _ h _ := h
  stored _ _ h := h
  skipped _ h := h
  asked _ h := h

theorem declaredBody_drop (hc : f.isChunked = false) (hs : f.isSized ∨ f.contentLength = 0)
    (h : declaredBody f s = some (body, rest)) : rest = s.drop f.contentLength := by
  rw [declaredBody] at h
  split at h
  · split at h
    · cases h
      rfl
    · cases h
  · next hn =>
    rw [hc, if_neg Bool.false_ne_true] at h
    cases h
    rw [hs.resolve_left hn]
    rfl

theorem drop_of_declaredBody_none (hc : f.isChunked = false) (h : declaredBody f s = none) :
    s.drop f.contentLength = [] := by
  rw [declaredBody] at h
  split at h
  · split at h
    · cases h
    · next hlt =>
      exact List.drop_eq_nil_of_le (Nat.le_of_lt (Nat.lt_of_not_le hlt))
  · rw [hc, if_neg Bool.false_ne_true] at h
    cases h

theorem skipping_readRequestBody (hw : w.Takes) (hf : Fresh f.headerBytes i₀)
    (hc : f.isChunked = false) (hs : f.isSized ∨ f.contentLength = 0) (hk : f.contentLength ≤ maxBodySize) :
    Keeps (fun s : Sess υ => Sound False (Skipping f i₀) s.2) (readRequestBody w maxBodySize f) := by
  rintro s ⟨h | ⟨hread, hl⟩, hb⟩
  · obtain ⟨hread, hi⟩ := h
    have hsound := closed_readRequestBody w (.inr hw) maxBodySize
      (bodyClosed_length f s.2.readBuf.length) s ⟨Nat.le_refl _, hb⟩
    have hf' : Fresh f.headerBytes s.2.toIncoming := by
      rw [hi]
      exact ⟨hf.spill, hf.src, hf.used, hf.le⟩
    have hbehind : s.2.toIncoming.asked.behind f.headerBytes = i₀.behind f.headerBytes := by
      rw [hi]
      rfl
    have hstage := holds_readRequestBody (X := False) (v := s.1) w (.inr hw) maxBodySize f hf' hread s
      ⟨rfl, rfl, hb⟩
    refine ⟨.inr ⟨asked_readRequestBody w maxBodySize f s, ?_⟩, hsound.2⟩
    cases hx : (readRequestBody w maxBodySize f).exec s with
    | mk r t =>
      rw [hx] at hstage
      cases r with
      | error e =>
        rcases hstage with hfalse | ⟨hnone, hcut⟩
        · exact hfalse.elim
        · rw [hbehind] at hnone
          rw [drop_of_declaredBody_none hc hnone]
          exact (hcut hc).leftover
      | ok r =>
        cases r with
        | none =>
          obtain ⟨body, rest, j, hbody, -, -, hj, hv⟩ := hstage
          rw [hbehind] at hbody
          rw [← declaredBody_drop hc hs hbody]
          dsimp only
          rw [hv.incoming]
          exact hj.leftover
        | some err =>
          dsimp only [BodyStage] at hstage
          split at hstage
          · exact absurd hstage.1 (Nat.not_lt_of_le hk)
          · rw [hc] at hstage
            cases hstage.1
  · rw [readRequestBody, exec_bind, exec_get]
    dsimp only
    rw [if_pos hread]
    exact ⟨.inr ⟨hread, hl⟩, hb⟩

theorem add_contentLength (s : HeadScan) (h : PhrHeader)
    (hs : s.hasContentLength = false → s.contentLength = 0) :
    (s.add h).hasContentLength = false → (s.add h).contentLength = 0 := by
  rw [HeadScan.add]
  split
  · exact hs
  · dsimp only
    split
    · exact nofun
    · split
      · exact hs
      · split
        · exact hs
        · split
          · exact hs
          · exact hs

theorem scanHead_contentLength (head : PhrRequest) (h : (scanHead head).hasContentLength = false) :
    (scanHead head).contentLength = 0 := by
  have hfold : ∀ (hs : List PhrHeader) (s : HeadScan),
      (s.hasContentLength = false → s.contentLength = 0) →
      (hs.foldl HeadScan.add s).hasContentLength = false →
      (hs.foldl HeadScan.add s).contentLength = 0 := by
    intro hs
    induction hs with
    | nil => exact fun _ h => h
    | cons x hs ih => exact fun s h => ih _ (add_contentLength s x h)
  exact hfold head.headers {} (fun _ => rfl) h

theorem framingOf_sized (head : PhrRequest) (n : Nat) :
    (framingOf head n).isSized ∨ (framingOf head n).contentLength = 0 := by
  by_cases hz : (scanHead head).contentLength = 0
  · exact .inr hz
  · left
    refine ⟨?_, Nat.pos_of_ne_zero hz⟩
    by_contra hl
    exact hz (scanHead_contentLength head (Bool.eq_false_iff.2 hl))

theorem asked_runMainChain (f : Framing) (result : ResolveResult (RouteHandler υ)) (s : Sess υ)
    (hs : s.2.bodyRead = false) (ha : srv.asksForBody s.1 = true)
    (hws : srv.isWsOrSse s.1.2 = false) : Asked ((runMainChain srv w f result).exec s).2 := by
  rw [runMainChain, exec_bind, exec_get]
  dsimp only
  rw [hws, if_neg Bool.false_ne_true, catching, exec_of]
  have h := asked_dispatchRequest srv w f result s hs ha
  split
  · next hx =>
    rw [hx] at h
    exact h
  · next hx =>
    rw [hx] at h
    exact keeps_errorResponse srv (J := fun c => c.bodyRead = true) _ _ h

theorem runMainChain_ws (f : Framing) (result : ResolveResult (RouteHandler υ)) (s : Sess υ)
    (hws : srv.isWsOrSse s.1.2 = true) : (runMainChain srv w f result).exec s = (.ok {}, s) := by
  rw [runMainChain, exec_bind, exec_get]
  dsimp only
  rw [hws, if_pos rfl]
  rfl

/-- What the next turn is given to consume: a head whose body, if it declares one, has a known length
within the limit, and that the global middlewares let through to the body stage. -/
def Server.Consumes (s : υ × Conn) : Prop :=
  ∀ head rest, parseRequest s.2.pending = .done head rest →
    (scanHead head).isChunked = false ∧ (scanHead head).contentLength ≤ srv.maxBodySize ∧
      srv.asksForBody (s.1, routedRequest srv head) = true

theorem readHead_broken (hw : w.Takes) (hb : c.broken = false)
    (h : (readHead w maxHeaderSize).exec c = (.ok (some r), c')) : c'.broken = false := by
  obtain ⟨j, hs, -⟩ := (stageA_readHead (X := False) w (.inr hw) maxHeaderSize c.toIncoming).ok
    ⟨rfl, rfl, .inr hb⟩ h
  exact hs.sound.resolve_left id

theorem HeadRead.fresh (hj : HeadRead i st head n j) (hs : i.pipelineSpill = [])
    (hsrc : i.spillSrc = 0) : Fresh n j := by
  refine ⟨?_, ?_, hj.bufUsed, hj.le⟩
  · rw [hj.same]
    exact hs
  · rw [hj.same]
    exact hsrc

theorem HeadRead.behind (hj : HeadRead i st head n j) : j.behind n = st.drop n := by
  rw [Incoming.behind, ← hj.stream, List.drop_append_of_le_length hj.le]

theorem turn_skips (hw : w.Takes) (hb : s.2.broken = false) (hs : srv.Consumes s)
    (h : (turn srv w).exec s = (.ok .goOn, s')) :
    ∃ head rest, parseRequest s.2.pending = .done head rest ∧
      s'.2.pending = rest.drop (scanHead head).contentLength ∧ s'.2.broken = false := by
  obtain ⟨head, n, c, res, t, h⟩ := turn_goOn srv w h
  obtain ⟨hj, -⟩ := h.headRead
  have hfresh : Fresh n c.toIncoming := hj.fresh rfl rfl
  have hread : c.bodyRead = false := by
    have := congrArg Incoming.bodyRead hj.same
    exact this
  have hcb := readHead_broken w hw (c := startTurn s.2) hb h.read
  obtain ⟨hchunked, hle, hasks⟩ := hs head _ hj.parsed
  have hws : srv.isWsOrSse (routedRequest srv head) = false := by
    by_contra hws
    have hx := h.chain
    rw [runMainChain_ws srv w _ _ ((s.1, routedRequest srv head), c) (Bool.not_eq_false _ ▸ hws)] at hx
    cases hx
    exact hws h.stays
  have hkeep := keeps_runMainChain srv w (J := Sound False (Skipping (framingOf head n) c.toIncoming))
    unobserved_skipping (skipping_readRequestBody w hw hfresh hchunked
      (framingOf_sized head n) hle) (resolve srv head) ((s.1, routedRequest srv head), c)
    ⟨.inl ⟨hread, rfl⟩, .inr hcb⟩
  have hasked := asked_runMainChain srv w (framingOf head n) (resolve srv head)
    ((s.1, routedRequest srv head), c) hread hasks hws
  rw [h.chain] at hkeep hasked
  obtain ⟨hkeep, htb⟩ := hkeep
  refine ⟨head, _, hj.parsed, ?_, h.sound hw (htb.resolve_left id)⟩
  rcases hkeep with ⟨hf, -⟩ | ⟨-, hl⟩
  · rw [Asked, hf] at hasked
    cases hasked
  · have hbehind : c.toIncoming.behind n = s.2.pending.drop n := hj.behind
    rw [← hbehind]
    rw [h.incoming]
    exact hl

/-- The states of a session after so many turns, each started in a state that meets a condition. -/
inductive ReachesBy (C : υ × Conn → Prop) (s₀ : υ × Conn) : Nat → υ × Conn → Prop where
  | start : ReachesBy C s₀ 0 s₀
  | turn (h : ReachesBy C s₀ k s) (hc : C s) (hs : (turn srv w).exec s = (.ok .goOn, s')) :
      ReachesBy C s₀ (k + 1) s'

/-- What remains of a stream when so many requests are taken from its front, each with its head and
with the body that the head declares. -/
inductive Remains (stream : Bytes) : Nat → Bytes → Prop where
  | all : Remains stream 0 stream
  | request (h : Remains stream k s) (hp : parseRequest s = .done head rest) :
      Remains stream (k + 1) (rest.drop (scanHead head).contentLength)

theorem reachesBy_remains (hw : w.Takes)
    (h : ReachesBy srv w srv.Consumes (u, { inbox := inbox }) k s) :
    Remains inbox.flatten k s.2.pending ∧ s.2.broken = false := by
  induction h with
  | start => exact ⟨.all, rfl⟩
  | turn _ hc hs ih =>
    obtain ⟨head, rest, hp, hpending, hb⟩ := turn_skips srv w hw ih.2 hc hs
    rw [hpending]
    exact ⟨.request ih.1 hp, hb⟩

/-- Along a session on a socket that takes all writes, whose requests are all consumed, nothing of a
request that was answered is looked at again: behind the answers to `k` requests the session stands
where `k` whole requests end, and the head that it then finds is the one that starts there. -/
theorem session_aligned (hw : w.Takes) (u : υ) (inbox : List Bytes) (k : Nat) (s : υ × Conn)
    (h : ReachesBy srv w srv.Consumes (u, { inbox := inbox }) k s) :
    Remains inbox.flatten k s.2.pending ∧
      ∀ head n c, (readHead w srv.maxHeaderSize).exec (startTurn s.2) = (.ok (some (head, n)), c) →
        parseRequest s.2.pending = .done head (s.2.pending.drop n) := by
  refine ⟨(reachesBy_remains srv w hw h).1, ?_⟩
  intro head n c hread
  obtain ⟨j, -, hj, -⟩ := readHead_ok w srv.maxHeaderSize hread
  exact hj.parsed

end Turn

section Examples

def bareGet : Bytes := bytes "GET / HTTP/1.1\r\n\r\n"

/-- A server whose only middleware answers every request itself. -/
def refusingServer : Server Unit :=
  { helloServer with
    middlewarePipeline := [.hSync (some (pure (some { status := .hUnauthorized }))) none false] }

/-- A server with a middleware that lets every request through and looks at what comes back. -/
def passingServer : Server Unit :=
  { helloServer with
    middlewarePipeline := [.hSync (some (pure none)) (some pure) false] }

/-- A request with a body and another one behind it, in one read. -/
def twoRequests : Bytes := bytes "POST / HTTP/1.1\r\nContent-Length: 3\r\n\r\nabcGET / HTTP/1.1\r\n\r\n"

def lengthFieldName : Bytes := bytes "Content-Length"

def okWire : Bytes :=
  bytes "HTTP/1.1 200 OK\r\nContent-Length: 0\r\nServer: hical/2.7.2\r\nConnection: keep-alive\r\nDate: \r\n\r\n"

deriving instance DecidableEq for Incoming, Outgoing, Conn

def postRequest : Request where
  method := .hPost
  target := bytes "/"
  headers := [⟨lengthFieldName, bytes "3"⟩]
  body := bytes "abc"
  httpVersionMinor := 1
  keepAlive := true
  expectContinue := false
  upgradePreScanned := none
  params := []

/-- The connection where the first request is answered: the second one is kept for the next turn. -/
def afterPost : Unit × Conn :=
  ((), {
    inbox := []
    turn := 1
    pipelineSpill := bareGet
    readBuf := twoRequests
    bufUsed := 18
    spillSrc := 41
    bodyRead := true
    stored := some (bytes "abc")
    bodyReads := 1
    invoked := [.handler postRequest (some (bytes "abc"))]
    responseBatch := okWire
    log := [okWire] })

theorem consumes_of {srv : Server υ} {s : υ × Conn} (hp : parseRequest s.2.pending = .done head rest)
    (h : (scanHead head).isChunked = false ∧ (scanHead head).contentLength ≤ srv.maxBodySize ∧
      srv.asksForBody (s.1, routedRequest srv head) = true) : srv.Consumes s := by
  intro head' rest' hp'
  rw [hp] at hp'
  cases hp'
  exact h

def afterGet : Unit × Conn := ((turn passingServer calmWorld).exec afterPost).2

def getRead : Except Exn (Option (PhrRequest × Nat)) × Conn :=
  (readHead calmWorld 8192).exec (startTurn afterPost.2)

theorem eq_of_fst {x : α × β} (h : x.1 = a) : x = (a, x.2) := Prod.ext h rfl

theorem session_aligned_two :
    ReachesBy passingServer calmWorld passingServer.Consumes ((), { inbox := [twoRequests] }) 2 afterGet ∧
      Remains [twoRequests].flatten 2 afterGet.2.pending ∧ afterGet.2.pending = [] ∧
      ∃ head n, getRead.1 = .ok (some (head, n)) ∧
        parseRequest afterPost.2.pending = .done head (afterPost.2.pending.drop n) := by
  have postParsed : parseRequest twoRequests =
      .done ⟨bytes "POST", bytes "/", 1, [⟨some lengthFieldName, bytes "3"⟩]⟩ (bytes "abcGET / HTTP/1.1\r\n\r\n") := by
    decide +kernel
  have getParsed : parseRequest afterPost.2.pending = .done ⟨bytes "GET", bytes "/", 1, []⟩ [] := by decide +kernel
  have hpost : passingServer.Consumes ((), { inbox := [twoRequests] }) :=
    consumes_of postParsed (by decide +kernel)
  have hget : passingServer.Consumes afterPost :=
    consumes_of getParsed (by decide +kernel)
  have hfirst : (turn passingServer calmWorld).exec ((), { inbox := [twoRequests] }) = (.ok .goOn, afterPost) :=
    Prod.ext (by decide +kernel) (by decide +kernel)
  have hsecond : ((turn passingServer calmWorld).exec afterPost).1 = .ok .goOn := by decide +kernel
  have hread : getRead.1 = .ok (some (⟨bytes "GET", bytes "/", 1, []⟩, 18)) := by decide +kernel
  have h₁ := ReachesBy.turn (C := passingServer.Consumes) .start hpost hfirst
  have h₂ : ReachesBy passingServer calmWorld passingServer.Consumes ((), { inbox := [twoRequests] }) 2 afterGet :=
    .turn h₁ hget (eq_of_fst hsecond)
  have haligned := session_aligned passingServer calmWorld calmWorld_reliable.takes () [twoRequests]
  exact ⟨h₂, (haligned 2 afterGet h₂).1, by decide +kernel, _, 18, hread,
    (haligned 1 afterPost h₁).2 _ 18 _ (eq_of_fst hread)⟩

/-- The request that the middleware answered is there again for the next turn. -/
theorem turn_repeats :
    let r := (turn refusingServer calmWorld).exec ((), { inbox := [bareGet] })
    r.1 = .ok .goOn ∧ r.2.2.inbox = [] ∧ r.2.2.pending = bareGet := by
  decide +kernel

end Examples

end Hical
