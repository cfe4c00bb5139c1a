import Hical.Session.ReadChunked

namespace Hical
open Effect Parse Transducer

section Unread
variable {υ : Type} (w : World) {X : Prop} (hX : X ∨ w.Takes) (maxBodySize : Nat) (f : Framing)
  {v : View υ} {i : Incoming}

/-- The first call of the body stage in a turn. -/
def Incoming.asked (i : Incoming) : Incoming :=
  { i with bodyRead := true, bodyReads := i.bodyReads + 1 }

include hX in
theorem holds_readRequestBody (hf : Fresh f.headerBytes i) (hr : i.bodyRead = false) :
    Triple (Holds X v i) (readRequestBody w maxBodySize f) (BodyStage maxBodySize f X v i.asked)
      (fun _ => BodyStageFails f X i.asked) := by
  apply Triple.get_bind
  intro s hs
  have hread : s.2.bodyRead = false := by
    rw [← hr]
    exact congrArg Incoming.bodyRead hs.incoming
  rw [hread, if_neg Bool.false_ne_true]
  apply Triple.bind (Q := fun _ => Holds X v i.asked)
  · apply Triple.modify
    rintro _ rfl
    refine ⟨hs.view, ?_, hs.sound⟩
    rw [← hs.incoming]
    rfl
  · intro _
    exact holds_readBodyOnce w hX maxBodySize f ⟨hf.spill, hf.src, hf.used, hf.le⟩

end Unread

/-- Where the parser of request heads starts to look for a request line: it skips one empty line. -/
def requestStart (s : Bytes) : Bytes :=
  match eol s with
  | .done _ rest => rest
  | _ => s

theorem requestStart_crlf (s : Bytes) : requestStart (crlf ++ s) = s := rfl

theorem requestStart_other (hb : isEol b = false) (s : Bytes) : requestStart (b :: s) = b :: s := by
  obtain ⟨hc, hl⟩ := Bool.or_eq_false_iff.1 hb
  have hfail : eol (b :: s) = .fail := by
    rw [eol, Parse.cond, hc, if_neg Bool.false_ne_true]
    change Parser.bind _ _ _ = _
    rw [Parser.bind, sat, hl, if_neg Bool.false_ne_true]
  rw [requestStart, hfail]

theorem requestStart_trailer (t : TrailerLine) (s : Bytes) :
    requestStart (t.wire ++ s) = t.wire ++ s := by
  obtain ⟨line, hne, hcr, hlf⟩ := t
  cases line with
  | nil => exact absurd rfl hne
  | cons b line =>
    apply requestStart_other
    have hc : b ≠ CR := fun h => hcr (h ▸ List.mem_cons_self)
    have hl : b ≠ LF := fun h => hlf (h ▸ List.mem_cons_self)
    rw [isEol, beq_eq_false_iff_ne.2 hc, beq_eq_false_iff_ne.2 hl]
    rfl

section Message
variable {υ : Type} (w : World) (maxBodySize : Nat) (f : Framing)

theorem requestStart_message_iff (m : ChunkedMessage) (rest : Bytes) :
    requestStart (m.trailerSection ++ crlf ++ rest) = rest ↔ m.trailers = [] := by
  rw [ChunkedMessage.trailerSection]
  cases m.trailers with
  | nil => exact iff_of_true (requestStart_crlf rest) rfl
  | cons t ts =>
    refine iff_of_false ?_ (List.cons_ne_nil _ _)
    rw [List.flatMap_cons, List.append_assoc, List.append_assoc, requestStart_trailer]
    intro h
    have := congrArg List.length h
    simp only [List.length_append, crlf, List.length_cons, List.length_nil] at this
    omega

theorem declaredBody_message (m : ChunkedMessage) (rest : Bytes) (hs : ¬f.isSized)
    (hc : f.isChunked = true) (hm : m.SizesFit) :
    declaredBody f (m.wire ++ rest) = some (m.data, m.trailerSection ++ crlf ++ rest) := by
  obtain ⟨c, hrun⟩ := run_message m hm rest
  rw [declaredBody, if_neg hs, if_pos hc, decoded, hrun]

/-- A chunked body is consumed and the next request starts right behind its final line exactly when
it has no trailers, its sizes and its length are within the limits and no read ends within it behind
too much framing. -/
theorem readRequestBody_chunked_iff (hw : w.Takes) (m : ChunkedMessage) (rest : Bytes) (s : Sess υ)
    (hs : ¬f.isSized) (hc : f.isChunked = true) (hf : Fresh f.headerBytes s.2.toIncoming)
    (hr : s.2.bodyRead = false) (hb : s.2.broken = false)
    (hwire : s.2.behind f.headerBytes = m.wire ++ rest) :
    (∃ t, (readRequestBody w maxBodySize f).exec s = (.ok none, t) ∧
        requestStart t.2.leftover = rest) ↔
      m.trailers = [] ∧ m.SizesFit ∧ s.1.2.body.length + m.data.length ≤ maxBodySize ∧
        ∀ p, BodyReadEnd f s.2.toIncoming p → ¬Heavy p := by
  have h := holds_readRequestBody (X := False) (v := s.1) w (.inr hw) maxBodySize f hf hr s
    ⟨rfl, rfl, .inr hb⟩
  have hbehind : s.2.toIncoming.asked.behind f.headerBytes = m.wire ++ rest := hwire
  constructor
  · rintro ⟨t, ht, hstart⟩
    rw [ht] at h
    obtain ⟨body, rest', j, hbody, hlarge, hheavy, hj, hv⟩ := h
    rw [hbehind] at hbody hlarge
    have hm : m.SizesFit := by
      by_contra hm
      rw [declaredBody, if_neg hs, if_pos hc, decoded, run_message_overflow m hm rest] at hbody
      cases hbody
    rw [declaredBody_message f m rest hs hc hm] at hbody
    cases hbody
    obtain ⟨c, hrun⟩ := run_message m hm rest
    rw [TooLarge, if_neg hs, decoded, hrun] at hlarge
    rw [hv.incoming, hj.leftover] at hstart
    refine ⟨(requestStart_message_iff m rest).1 hstart, hm, ?_, hheavy hs hc⟩
    exact Nat.le_of_not_lt fun hlt => hlarge ⟨hc, hlt⟩
  · rintro ⟨htrailers, hm, hlen, hheavy⟩
    obtain ⟨c, hrun⟩ := run_message m hm rest
    have hbody := declaredBody_message f m rest hs hc hm
    cases hx : (readRequestBody w maxBodySize f).exec s with
    | mk r t =>
      rw [hx] at h
      cases r with
      | error e =>
        rcases h with h | ⟨hnone, -⟩
        · exact h.elim
        · rw [hbehind, hbody] at hnone
          cases hnone
      | ok r =>
        cases r with
        | some err =>
          dsimp only [BodyStage] at h
          rw [if_neg hs, hbehind, TooLarge, if_neg hs, decoded, hrun] at h
          rcases h.2 with ⟨-, hlt⟩ | hfail | ⟨p, hp, hh⟩
          · exact absurd hlt (Nat.not_lt_of_le hlen)
          · cases hfail
          · exact absurd hh (hheavy p hp)
        | none =>
          obtain ⟨body, rest', j, hbody', -, -, hj, hv⟩ := h
          rw [hbehind, hbody] at hbody'
          cases hbody'
          refine ⟨t, rfl, ?_⟩
          rw [hv.incoming, hj.leftover]
          exact (requestStart_message_iff m rest).2 htrailers

end Message

section Examples

def chunkedHead : Bytes := bytes "POST / HTTP/1.1\r\nTransfer-Encoding: chunked\r\n\r\n"

/-- A body without data, with the given trailer lines. -/
def emptyMessage (trailers : List TrailerLine) : ChunkedMessage where
  chunks := []
  last := bytes "0"
  lastExt := []
  trailers := trailers
  isHex := isHex_zero
  isExt := isExt_nil
  last_eq := hexValue_zero

def chunkedSession : Sess Unit :=
  let buf := chunkedHead ++ ((emptyMessage []).wire ++ bytes "GET")
  (((), buildRequest ⟨bytes "POST", bytes "/", 1, []⟩),
    { inbox := [], readBuf := buf, bufUsed := buf.length })

def chunkedFraming : Framing := ⟨chunkedHead.length, false, 0, true, 1⟩

/-- A body without trailers that came with its head is consumed up to the next request. -/
theorem readRequestBody_consumes_empty :
    ∃ t, (readRequestBody calmWorld 1024 chunkedFraming).exec chunkedSession = (.ok none, t) ∧
      requestStart t.2.leftover = bytes "GET" := by
  apply (readRequestBody_chunked_iff calmWorld 1024 chunkedFraming calmWorld_reliable.takes
    (emptyMessage []) (bytes "GET") chunkedSession (by decide) rfl ⟨rfl, rfl, rfl, by decide⟩ rfl rfl
    (by decide)).2
  refine ⟨rfl, ⟨nofun, by decide⟩, by decide, ?_⟩
  rintro p ⟨k, rfl⟩
  rw [show readsOf 4096 _ _ = [] from rfl, List.take_nil]
  rintro ⟨-, h, -⟩
  exact absurd h (by decide)

/-- A server that answers every `POST /` with an empty response. -/
def helloServer : Server Unit where
  maxHeaderSize := 8192
  maxBodySize := 1024
  ssl := false
  router := (Router.empty _).route .hPost (bytes "/") ⟨[], fun _ => pure .okEmpty⟩
  wsRoutes := []
  sseRoutes := []
  middlewarePipeline := []
  errorHandler := none

def trailerLine : TrailerLine := ⟨bytes "X: y", by decide, by decide, by decide⟩

/-- A trailer line is where the next turn looks for a request. -/
theorem turn_leaves_trailer :
    let r := (turn helloServer calmWorld).exec
      ((), { inbox := [chunkedHead ++ ((emptyMessage [trailerLine]).wire ++ bytes "GET")] })
    r.1 = .ok .goOn ∧ requestStart r.2.2.pending = trailerLine.wire ++ (crlf ++ bytes "GET") := by
  decide +kernel

end Examples

end Hical
