import Hical.Session.HeadLimit

namespace Hical
open Effect Parse

/-- A head with `k` more spaces than it needs. -/
def spacedHead (k : Nat) : Bytes := bytes "A " ++ (List.replicate k SP ++ bytes "/ HTTP/1.1\n\n")

def spacedRequest : PhrRequest := ⟨bytes "A", bytes "/", 1, []⟩

theorem parseRequest_spacedHead (k : Nat) :
    parseRequest (spacedHead k) = .done spacedRequest [] := by
  have hline : parseRequest (spacedHead k) = parseRequestLine (spacedHead k) := rfl
  have hmethod : parseToken SP (spacedHead k) =
      .done (bytes "A") (List.replicate k SP ++ bytes "/ HTTP/1.1\n\n") := rfl
  have hpath : span (· == SP) advanceToken (List.replicate k SP ++ bytes "/ HTTP/1.1\n\n") =
      .done (List.replicate k SP ++ [], bytes "/") (bytes "HTTP/1.1\n\n") := by
    apply span_replicate (a := ([], bytes "/")) rfl
    decide +kernel
  have hversion : span (· == SP) parseHttpVersion (bytes "HTTP/1.1\n\n") =
      .done ([], 1) (bytes "\n\n") := by
    decide +kernel
  have heol : eol (bytes "\n\n") = .done () (bytes "\n") := by
    decide +kernel
  have hheaders : parseHeaders maxHeaders true (bytes "\n") = .done [] [] := by
    decide +kernel
  have hne : ¬(bytes "A" = [] ∨ bytes "/" = []) := by
    decide
  rw [hline, parseRequestLine, bind_eq _ hmethod, bind_eq _ hpath, if_neg hne, bind_eq _ hversion,
    bind_eq _ heol, bind_eq _ hheaders]
  rfl

def bareServer (maxHeaderSize : Nat) : Server Unit where
  maxHeaderSize := maxHeaderSize
  maxBodySize := 0
  ssl := false
  router := Router.empty _
  wsRoutes := []
  sseRoutes := []
  middlewarePipeline := []
  errorHandler := none

theorem exec_flush_nil (w : World) (h : c.responseBatch = []) :
    (flushResponseBatch w).exec c = (.ok (), c) := by
  rw [flushResponseBatch, exec_bind, exec_get]
  dsimp only
  rw [if_pos h]
  rfl

theorem exec_asyncReadSome (hb : c.responseBatch = []) (hr : readSome cap c.inbox = some (got, rest)) :
    (asyncReadSome cap).exec c = (.ok got, { c with inbox := rest }) := by
  have hh : (c.heldBack || !c.responseBatch.isEmpty) = c.heldBack := by
    rw [hb]
    exact Bool.or_false _
  rw [asyncReadSome, exec_of]
  simp only [hr, hh]

theorem exec_readHead_two_reads (w : World) (maxHeaderSize : Nat) (c : Conn)
    (hc : c.inbox = [[b], rest]) (hs : c.pipelineSpill = []) (hb : c.responseBatch = [])
    (hmore : parseRequest [b] = .more) (hne : rest ≠ []) (hlen : rest.length ≤ 8191)
    (hp : phrParseRequest (b :: rest) 1 = .done head left)
    (hmax : (b :: rest).length - left.length ≤ maxHeaderSize) :
    (readHead w maxHeaderSize).exec c = (.ok (some (head, (b :: rest).length - left.length)),
      { c with inbox := [], readBuf := b :: rest, bufUsed := (b :: rest).length }) := by
  have hr₁ : readSome 256 c.inbox = some ([b], [rest]) := by
    rw [hc]
    rfl
  have hr₂ : readSome 8191 [rest] = some (rest, []) := by
    cases rest with
    | nil => exact absurd rfl hne
    | cons x rest => exact if_pos hlen
  have hfirst : (fillFirst w).exec c =
      (.ok kBufferSize, { c with inbox := [rest], readBuf := [b], bufUsed := 1 }) := by
    simp only [fillFirst, exec_bind, exec_get, hs, ↓reduceIte, exec_flush_nil w hb,
      exec_asyncReadSome hb hr₁, exec_modify, exec_pure]
    rfl
  rw [readHead, exec_bind, hfirst]
  simp only [parseFirst, exec_bind, exec_get, show phrParseRequest [b] 0 = .more from hmore,
    readHeadLoop]
  rw [if_neg (by rw [kBufferSize]; simp), if_neg (by rw [kBufferSize]; simp)]
  let d : Conn := { c with inbox := [rest], readBuf := [b], bufUsed := 1 }
  rw [exec_bind, exec_flush_nil (c := d) w hb]
  dsimp only
  rw [exec_bind, show kBufferSize - [b].length = 8191 from rfl, exec_asyncReadSome (c := d) hb hr₂]
  simp only [exec_bind, exec_modify, List.singleton_append, List.length_singleton, hp,
    Nat.not_lt.2 hmax, ↓reduceIte]
  rfl

theorem entry_bare (m : Nat) (head : PhrRequest) : (resolve (bareServer m) head).entry = none := by
  have hl : ∀ meth path, (bareServer m).router.lookup meth path = none := fun _ _ => rfl
  rw [resolve, Router.resolveRoute]
  split
  · rfl
  · simp only [hl]

theorem dispatchResolved_of_none (readBody : Option (Eff (Sess υ) Exn (Option Response)))
    (h : result.entry = none) : ∃ res, dispatchResolved readBody result = pure res := by
  rw [dispatchResolved, h]
  split
  · exact ⟨_, rfl⟩
  · dsimp only
    split
    · exact ⟨_, rfl⟩
    · exact ⟨_, rfl⟩

theorem exec_readHead_spill (w : World) (maxHeaderSize : Nat) (c : Conn) (hs : c.pipelineSpill ≠ [])
    (hp : parseRequest c.pipelineSpill = .done head rest) :
    ∃ r c', (readHead w maxHeaderSize).exec c = (.ok (some r), c') := by
  have hz : phrParseRequest c.pipelineSpill 0 = .done head rest := hp
  refine ⟨(head, c.pipelineSpill.length - rest.length), { c with
    readBuf := c.pipelineSpill, bufUsed := c.pipelineSpill.length, pipelineSpill := [] }, ?_⟩
  simp only [readHead, fillFirst, parseFirst, exec_bind, exec_get, hs, ↓reduceIte, exec_modify,
    exec_pure, hz]

theorem exec_readHead_first (w : World) (maxHeaderSize : Nat) (c : Conn)
    (hs : c.pipelineSpill = []) (hb : c.responseBatch = []) (hr : readSome 256 c.inbox = some (got, inbox)) (hp : parseRequest got = .done head rest) :
    ∃ r c', (readHead w maxHeaderSize).exec c = (.ok (some r), c') := by
  have hz : phrParseRequest got 0 = .done head rest := hp
  refine ⟨(head, got.length - rest.length), { c with
    inbox := inbox, readBuf := got, bufUsed := got.length }, ?_⟩
  simp only [readHead, fillFirst, parseFirst, exec_bind, exec_get, hs, ↓reduceIte,
    exec_flush_nil w hb, exec_asyncReadSome hb hr, exec_modify, exec_pure, hz]

/-- Without routes, a request without a body is answered by 404; what stands behind its head is left
over. -/
theorem exec_runMainChain_bare (m n : Nat) (c : Conn) (hc : c.bodyRead = false) :
    ∃ res, (runMainChain (bareServer m) calmWorld (framingOf spacedRequest n)
        (resolve (bareServer m) spacedRequest)).exec
        (((), routedRequest (bareServer m) spacedRequest), c) =
      (.ok res, (((), routedRequest (bareServer m) spacedRequest), { c with
        bodyRead := true, bodyReads := c.bodyReads + 1, spillSrc := n,
        bufUsed := c.readBuf.length - n, stored := some [] })) := by
  obtain ⟨res, hres⟩ := dispatchResolved_of_none none (entry_bare m spacedRequest)
  refine ⟨res, ?_⟩
  have hbody : (readRequestBody calmWorld 0 (framingOf spacedRequest n)).exec
      (((), routedRequest (bareServer m) spacedRequest), c) = (.ok none,
        (((), routedRequest (bareServer m) spacedRequest), { c with
        bodyRead := true, bodyReads := c.bodyReads + 1, spillSrc := n,
        bufUsed := c.readBuf.length - n, stored := some [] })) := by
    simp only [readRequestBody, exec_bind, exec_get, hc, Bool.false_eq_true, ↓reduceIte]
    rfl
  have hws : (bareServer m).isWsOrSse (routedRequest (bareServer m) spacedRequest) = false := by
    rfl
  rw [runMainChain, exec_bind, exec_get]
  simp only [hws, Bool.false_eq_true, ↓reduceIte]
  rw [catching, exec_of, dispatchRequest,
    if_neg (show ¬0 < (bareServer m).middlewarePipeline.length from Nat.lt_irrefl 0), exec_bind,
    show (bareServer m).maxBodySize = 0 from rfl, hbody]
  simp only [hres, exec_pure]

/-- Two requests of which the first byte comes alone. -/
def pipelined (k : Nat) : List Bytes := [[65], (spacedHead 0).drop 1 ++ spacedHead k]

theorem length_spacedHead (k : Nat) : (spacedHead k).length = 14 + k := by
  simp [spacedHead, bytes]
  omega

theorem reaches_pipelined (m k : Nat) (hm : 14 ≤ m) (hk : k ≤ 8164) :
    ∃ s, Reaches (bareServer m) calmWorld ((), { inbox := pipelined k }) s ∧
      s.2.pipelineSpill = spacedHead k ∧ s.2.inbox = [] := by
  have hlen := length_spacedHead k
  have hp : parseRequest (65 :: ((spacedHead 0).drop 1 ++ spacedHead k)) =
      .done spacedRequest (spacedHead k) := reads_parseRequest.append (parseRequest_spacedHead 0) _
  have hphr : phrParseRequest (65 :: ((spacedHead 0).drop 1 ++ spacedHead k)) 1 =
      .done spacedRequest (spacedHead k) := by
    apply phrParseRequest_of_done hp
    simp only [List.length_cons, List.length_append, List.length_drop, length_spacedHead]
    omega
  have hread := exec_readHead_two_reads calmWorld m (startTurn { inbox := pipelined k }) rfl rfl rfl
    (by decide +kernel) (by simp [spacedHead, bytes])
    (by simp only [List.length_append, List.length_drop, length_spacedHead]; omega) hphr
    (by simp only [List.length_cons, List.length_append, List.length_drop, length_spacedHead]; omega)
  obtain ⟨res, hchain⟩ := exec_runMainChain_bare m 14 { startTurn { inbox := pipelined k } with
    inbox := [], readBuf := 65 :: ((spacedHead 0).drop 1 ++ spacedHead k),
    bufUsed := (65 :: ((spacedHead 0).drop 1 ++ spacedHead k)).length } rfl
  have h14 : (65 :: ((spacedHead 0).drop 1 ++ spacedHead k)).length - (spacedHead k).length = 14 := by
    simp only [List.length_cons, List.length_append, List.length_drop, length_spacedHead]
    omega
  rw [h14] at hread
  obtain ⟨s', hturn, -, hi, -⟩ := turn_of_chain (bareServer m) calmWorld
    (s := ((), { inbox := pipelined k })) calmWorld_reliable hread rfl (by decide) rfl (.inr rfl)
    hchain rfl rfl rfl
  have hdrop : (65 :: ((spacedHead 0).drop 1 ++ spacedHead k)).drop 14 = spacedHead k := rfl
  have hpos : 0 < (65 :: ((spacedHead 0).drop 1 ++ spacedHead k)).length - 14 := by
    simp only [List.length_cons, List.length_append, List.length_drop, length_spacedHead]
    omega
  rw [Incoming.spilled, if_pos hpos] at hi
  refine ⟨s', .turn .start hturn, ?_, congrArg Incoming.inbox hi⟩
  have hspill := congrArg Incoming.pipelineSpill hi
  dsimp only at hspill
  rw [hspill, hdrop, List.take_of_length_le]
  simp [length_spacedHead]

theorem not_limitsHeads_of_lt (h : maxHeaderSize < 8178) : ¬LimitsHeads maxHeaderSize := by
  intro hlimits
  by_cases hm : 14 ≤ maxHeaderSize
  · -- a head that is one byte too long, left over by a turn that read both requests at once
    obtain ⟨s, hs, hspill, hin⟩ := reaches_pipelined maxHeaderSize (maxHeaderSize - 13) hm (by omega)
    have hpending : s.2.pending = spacedHead (maxHeaderSize - 13) := by
      rw [Incoming.pending, hspill, hin]
      exact List.append_nil _
    have hp := parseRequest_spacedHead (maxHeaderSize - 13)
    rw [← hpending] at hp
    have hne : (startTurn s.2).pipelineSpill ≠ [] := by
      change s.2.pipelineSpill ≠ []
      rw [hspill]
      simp [spacedHead, bytes]
    have hparse : parseRequest (startTurn s.2).pipelineSpill = .done spacedRequest [] := by
      change parseRequest s.2.pipelineSpill = _
      rw [hspill]
      exact parseRequest_spacedHead _
    obtain ⟨r, c, hr⟩ := exec_readHead_spill calmWorld maxHeaderSize (startTurn s.2) hne hparse
    have hlong : maxHeaderSize < s.2.pending.length - ([] : Bytes).length := by
      rw [hpending, length_spacedHead, List.length_nil]
      omega
    cases ((hlimits Unit _ calmWorld () _ s rfl hs _ _ _ _ hp hr).2 hlong).1
  · -- the smallest head there is, alone
    obtain ⟨r, c, hr⟩ := exec_readHead_first calmWorld maxHeaderSize
      (startTurn { inbox := [spacedHead 0] }) rfl rfl rfl (parseRequest_spacedHead 0)
    cases ((hlimits Unit (bareServer maxHeaderSize) calmWorld () [spacedHead 0] _ rfl .start _ _ _ _
      (parseRequest_spacedHead 0) hr).2 (Nat.lt_of_not_le hm)).1

/-- Heads are limited by their length alone exactly when the limit is so large that no head beyond it
fits a buffer behind another head. -/
theorem limitsHeads_iff (maxHeaderSize : Nat) : LimitsHeads maxHeaderSize ↔ 8178 ≤ maxHeaderSize := by
  constructor
  · intro h
    by_contra hlt
    exact not_limitsHeads_of_lt (Nat.lt_of_not_le hlt) h
  · exact limitsHeads_of_le

/-- With a limit of 4096 bytes, a head of 4097 bytes is taken when it comes behind another one. -/
theorem not_limitsHeads_4096 : ¬LimitsHeads 4096 := not_limitsHeads_of_lt (by decide)

end Hical
