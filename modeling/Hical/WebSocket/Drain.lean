import Hical.WebSocket.Session

namespace Hical

namespace WebSocketSession

/-- The messages of a byte stream and the close reply it ends with, frame by frame and without
any reading. -/
def drain (maxMessageSize : Nat) :
    Nat → Bytes → WsOpcode → Bytes → List WsMessage × Option Bytes
  | 0, _, _, _ => ([], none)
  | fuel + 1, buf, opcode, stream =>
    match parseWsFrameHeader stream with
    | none => ([], none)
    | some hdr =>
      match headerError maxMessageSize hdr with
      | some reply => ([], some reply)
      | none =>
        if stream.length < hdr.frameSize then ([], none)
        else
          match frameAction maxMessageSize buf opcode hdr (framePayload hdr stream) with
          | .close reply => ([], some reply)
          | .pong _ => drain maxMessageSize fuel buf opcode (stream.drop hdr.frameSize)
          | .skip => drain maxMessageSize fuel buf opcode (stream.drop hdr.frameSize)
          | .data buf opcode message =>
            let (messages, reply) :=
              drain maxMessageSize fuel buf opcode (stream.drop hdr.frameSize)
            (message.toList ++ messages, reply)

theorem drop_frame_length (h : parseWsFrameHeader stream = some hdr) :
    (stream.drop hdr.frameSize).length < stream.length := by
  obtain ⟨h₁, h₂⟩ := parseWsFrameHeader_size h
  rw [List.length_drop, WsFrameHeader.frameSize]
  omega

theorem drain_fuel (h₁ : stream.length ≤ n₁) (h₂ : stream.length ≤ n₂) :
    drain limit n₁ buf op stream = drain limit n₂ buf op stream := by
  induction n₁ generalizing n₂ buf op stream with
  | zero =>
    obtain rfl := List.length_eq_zero_iff.1 (Nat.le_zero.1 h₁)
    cases n₂ <;> rfl
  | succ n₁ ih =>
    cases n₂ with
    | zero =>
      obtain rfl := List.length_eq_zero_iff.1 (Nat.le_zero.1 h₂)
      rfl
    | succ n₂ =>
      rw [drain, drain]
      cases hp : parseWsFrameHeader stream with
      | none => rfl
      | some hdr =>
        have hd := drop_frame_length hp
        have hs (buf : Bytes) (op : WsOpcode) : drain limit n₁ buf op (stream.drop hdr.frameSize) =
            drain limit n₂ buf op (stream.drop hdr.frameSize) := ih (by omega) (by omega)
        simp only [hs]

/-- What a stream means to a session that is between two frames of it. -/
def decoded (maxMessageSize : Nat) (buf : Bytes) (opcode : WsOpcode) (stream : Bytes) :
    List WsMessage × Option Bytes :=
  drain maxMessageSize stream.length buf opcode stream

theorem decoded_header_none (h : parseWsFrameHeader stream = none) :
    decoded limit buf op stream = ([], none) := by
  cases hs : stream with
  | nil => rfl
  | cons b bs =>
    subst hs
    rw [decoded, List.length_cons, drain, h]

theorem decoded_header_error (h : parseWsFrameHeader stream = some hdr)
    (he : headerError limit hdr = some reply) : decoded limit buf op stream = ([], some reply) := by
  cases hs : stream with
  | nil => subst hs; cases h
  | cons b bs =>
    subst hs
    simp only [decoded, List.length_cons, drain, h, he]

theorem decoded_short (h : parseWsFrameHeader stream = some hdr)
    (he : headerError limit hdr = none) (hl : stream.length < hdr.frameSize) :
    decoded limit buf op stream = ([], none) := by
  cases hs : stream with
  | nil => rfl
  | cons b bs =>
    subst hs
    simp only [decoded, List.length_cons] at hl ⊢
    rw [drain, h]
    simp only [he, List.length_cons, hl, ↓reduceIte]

theorem decoded_frame (limit : Nat) (buf : Bytes) (op : WsOpcode)
    (h : parseWsFrameHeader stream = some hdr)
    (he : headerError limit hdr = none) (hl : hdr.frameSize ≤ stream.length) :
    decoded limit buf op stream =
      match frameAction limit buf op hdr (framePayload hdr stream) with
      | .close reply => ([], some reply)
      | .pong _ => decoded limit buf op (stream.drop hdr.frameSize)
      | .skip => decoded limit buf op (stream.drop hdr.frameSize)
      | .data buf op message =>
        (message.toList ++ (decoded limit buf op (stream.drop hdr.frameSize)).1,
          (decoded limit buf op (stream.drop hdr.frameSize)).2) := by
  have hd := drop_frame_length h
  cases hs : stream with
  | nil => subst hs; cases h
  | cons b bs =>
    subst hs
    have hf (buf : Bytes) (op : WsOpcode) : drain limit bs.length buf op
        ((b :: bs).drop hdr.frameSize) = decoded limit buf op ((b :: bs).drop hdr.frameSize) :=
      drain_fuel (by simp only [List.length_cons] at hd; omega) (Nat.le_refl _)
    rw [decoded, List.length_cons, drain, h]
    simp only [he, if_neg (Nat.not_lt.2 hl), hf]

theorem framePayload_append (hl : hdr.frameSize ≤ stream.length) (more : Bytes) :
    framePayload hdr (stream ++ more) = framePayload hdr stream := by
  rw [WsFrameHeader.frameSize] at hl
  rw [framePayload, framePayload, List.drop_append_of_le_length (by omega),
    List.take_append_of_le_length (by rw [List.length_drop]; omega)]

section Reading
variable {s s' : WebSocketSession}

def rest (s : WebSocketSession) : Bytes := s.readBuf ++ s.inbox.flatten

/-- What the rest of the stream will come to. -/
def future (s : WebSocketSession) : List WsMessage × Option Bytes :=
  decoded s.maxMessageSize s.fragmentBuf s.fragmentOpcode s.rest

/-- The session is open, the socket takes what is written, and no close reply is due. -/
structure Live (s : WebSocketSession) : Prop where
  isOpen : s.isOpen = true
  socketOpen : s.socketOpen = true
  writable : ∀ n, s.writable n = true
  closeReply : s.closeReply = none
  recordedClose : s.recordedClose = none

/-- The session may have written and read, but has decoded nothing. -/
structure Keeps (s s' : WebSocketSession) : Prop where
  rest : s'.rest = s.rest
  fragmentBuf : s'.fragmentBuf = s.fragmentBuf
  fragmentOpcode : s'.fragmentOpcode = s.fragmentOpcode
  maxMessageSize : s'.maxMessageSize = s.maxMessageSize
  recordedClose : s'.recordedClose = s.recordedClose
  live : s.Live → s'.Live
  turns : s'.turns ≤ s.turns

theorem Keeps.refl (s : WebSocketSession) : Keeps s s :=
  ⟨rfl, rfl, rfl, rfl, rfl, id, Nat.le_refl _⟩

theorem Keeps.trans (h : Keeps s s') (h' : Keeps s' s'') : Keeps s s'' :=
  ⟨h'.rest.trans h.rest, h'.fragmentBuf.trans h.fragmentBuf,
    h'.fragmentOpcode.trans h.fragmentOpcode, h'.maxMessageSize.trans h.maxMessageSize,
    h'.recordedClose.trans h.recordedClose, fun l => h'.live (h.live l),
    Nat.le_trans h'.turns h.turns⟩

theorem Keeps.future (h : Keeps s s') : s'.future = s.future := by
  rw [WebSocketSession.future, WebSocketSession.future, h.rest, h.fragmentBuf, h.fragmentOpcode,
    h.maxMessageSize]

/-- The session has only written. -/
structure Wrote (s s' : WebSocketSession) : Prop extends Keeps s s' where
  readBuf : s'.readBuf = s.readBuf
  inbox : s'.inbox = s.inbox

theorem Wrote.refl (s : WebSocketSession) : Wrote s s := ⟨.refl s, rfl, rfl⟩

theorem Wrote.trans (h : Wrote s s') (h' : Wrote s' s'') : Wrote s s'' :=
  ⟨h.toKeeps.trans h'.toKeeps, h'.readBuf.trans h.readBuf, h'.inbox.trans h.inbox⟩

theorem writeBatchLocked_wrote (s : WebSocketSession) : Wrote s s.writeBatchLocked := by
  rw [writeBatchLocked]
  split
  · exact .refl s
  · rw [asyncWrite]
    split
    · next hw =>
      split at hw
      · obtain ⟨-, rfl⟩ := Prod.mk.inj hw
        exact ⟨⟨rfl, rfl, rfl, rfl, rfl, fun l => ⟨l.1, l.2, l.3, l.4, l.5⟩, Nat.le_refl _⟩, rfl, rfl⟩
      · cases hw
    · next hw =>
      split at hw
      · cases hw
      · next hn =>
        obtain ⟨-, rfl⟩ := Prod.mk.inj hw
        refine ⟨⟨rfl, rfl, rfl, rfl, rfl, fun l => ?_, Nat.le_refl _⟩, rfl, rfl⟩
        simp [l.socketOpen, l.writable] at hn

theorem queueFrame_wrote (s : WebSocketSession) (opcode : WsOpcode) (payload : Bytes) :
    Wrote s (s.queueFrame opcode payload) := by
  have h : Wrote s { s with writeBatch := s.writeBatch ++ encodeFrame opcode payload true false } :=
    ⟨⟨rfl, rfl, rfl, rfl, rfl, fun l => ⟨l.1, l.2, l.3, l.4, l.5⟩, Nat.le_refl _⟩, rfl, rfl⟩
  rw [queueFrame]
  dsimp only
  split
  · exact h.trans (writeBatchLocked_wrote _)
  · exact h

theorem sendFrame_wrote (s : WebSocketSession) (opcode : WsOpcode) (payload : Bytes) :
    Wrote s (s.sendFrame opcode payload).2 := by
  rw [sendFrame]
  split
  · exact queueFrame_wrote s opcode payload
  · rw [asyncWrite]
    split <;>
      exact ⟨⟨rfl, rfl, rfl, rfl, rfl, fun l => ⟨l.1, l.2, l.3, l.4, l.5⟩, Nat.le_refl _⟩, rfl, rfl⟩

theorem read_keeps {left : List Bytes}
    (h : readSome (size - s.readBuf.length) s.inbox = some (got, left))
    (hs : s.readBuf.length < size) :
    Keeps s { s with readBufSize := size, readBuf := s.readBuf ++ got, inbox := left } ∧
    { s with readBufSize := size, readBuf := s.readBuf ++ got, inbox := left }.turns < s.turns ∧
    left.flatten.length < s.inbox.flatten.length := by
  have hf := readSome_flatten h
  have hl := (readSome_length h (by omega)).1
  have ht : left.flatten.length < s.inbox.flatten.length := by
    rw [hf, List.length_append]
    omega
  refine ⟨⟨?_, rfl, rfl, rfl, rfl, fun l => ⟨l.1, l.2, l.3, l.4, l.5⟩, ?_⟩, ?_, ht⟩
  · simp only [rest, hf, List.append_assoc]
  · simp only [turns, hf, List.length_append]
    omega
  · simp only [turns, hf, List.length_append]
    omega

theorem lt_grownSize (hn : s.readBuf.length < n) : s.readBuf.length < s.grownSize n := by
  rw [grownSize]
  split <;> omega

/-- Reading goes on until there are enough bytes, or until there are no more. -/
theorem readUntil_spec (h : readUntil n fuel s = (ok, s')) (hf : s.inbox.flatten.length < fuel) :
    Keeps s s' ∧ (ok = true → n ≤ s'.readBuf.length ∧ (s.readBuf.length < n → s'.turns < s.turns)) ∧
    (ok = false → s.rest.length < n) := by
  induction fuel generalizing s with
  | zero => omega
  | succ fuel ih =>
    rw [readUntil] at h
    split at h
    · next hn =>
      split at h
      · next hr =>
        obtain ⟨rfl, rfl⟩ := Prod.mk.inj h
        refine ⟨⟨rfl, rfl, rfl, rfl, rfl, fun l => ⟨l.1, l.2, l.3, l.4, l.5⟩, Nat.le_refl _⟩, by
          simp, fun _ => ?_⟩
        simpa [rest, readSome_none hr] using hn
      · next got left hr =>
        obtain ⟨hk, ht, hi⟩ := read_keeps hr (lt_grownSize hn)
        obtain ⟨hk', hok, hend⟩ := ih h (by simp only; omega)
        refine ⟨hk.trans hk', fun ho => ⟨(hok ho).1, fun _ => ?_⟩, fun ho => ?_⟩
        · exact Nat.lt_of_le_of_lt hk'.turns ht
        · rw [← hk.rest]
          exact hend ho
    · next hn =>
      obtain ⟨rfl, rfl⟩ := Prod.mk.inj h
      exact ⟨.refl s, fun _ => ⟨Nat.le_of_not_lt hn, fun h => absurd h hn⟩, by simp⟩

theorem ensureBytes_spec (h : s.ensureBytes n = (ok, s')) (hn : s.readBuf.length < n) :
    Keeps s s' ∧ (ok = true → s'.turns < s.turns) ∧ (ok = false → s.rest.length < n) := by
  have hw := writeBatchLocked_wrote s
  rw [ensureBytes] at h
  obtain ⟨hk, hok, hend⟩ := readUntil_spec h (by omega)
  refine ⟨hw.toKeeps.trans hk, fun ho => ?_, fun ho => ?_⟩
  · refine Nat.lt_of_lt_of_le ((hok ho).2 ?_) hw.turns
    rw [flushBatch, hw.readBuf]
    exact hn
  · rw [← hw.rest]
    exact hend ho

/-- What one turn of the receiving loop may do. -/
def TurnOk (s : WebSocketSession) (out : List WsMessage) (framesInBatch : Nat) : Turn → Prop
  | .again s' out' _ => ∃ new, out' = out ++ new ∧
      s.future = (new ++ s'.future.1, s'.future.2) ∧ (s.Live → s'.Live) ∧ s'.turns < s.turns
  | .stop true s' out' => s' = s ∧ out' = out ∧ (out ≠ [] ∨ kMaxFramesPerBatch ≤ framesInBatch)
  | .stop false s' out' => out' = out ∧ (s.Live → s.future = ([], s'.recordedClose))

theorem await_ok (hn : s.readBuf.length < n)
    (hend : s.rest.length < n → s.future = ([], none)) (out : List WsMessage) (k : Nat) :
    TurnOk s out k (s.await out k n) := by
  rw [await]
  split
  · next ho => exact ⟨rfl, rfl, .inl ho⟩
  · split
    · next s' he =>
      obtain ⟨hk, hok, -⟩ := ensureBytes_spec he hn
      refine ⟨[], (List.append_nil out).symm, ?_, hk.live, hok rfl⟩
      rw [hk.future]
      rfl
    · next s' he =>
      obtain ⟨hk, -, hno⟩ := ensureBytes_spec he hn
      refine ⟨rfl, fun l => ?_⟩
      rw [hend (hno rfl)]
      exact congrArg (Prod.mk _) (hk.recordedClose.trans l.recordedClose).symm

theorem parseWsFrameHeader_short (h : stream.length < 2) : parseWsFrameHeader stream = none := by
  match stream, h with
  | [], _ => rfl
  | [_], _ => rfl

theorem rest_drop (h : n ≤ s.readBuf.length) :
    s.rest.drop n = s.readBuf.drop n ++ s.inbox.flatten := by
  rw [rest, List.drop_append_of_le_length h]

theorem consumed_turns (h₁ : 2 ≤ n) (h₂ : n ≤ s.readBuf.length)
    (hr : s'.readBuf = s.readBuf.drop n) (hi : s'.inbox = s.inbox) : s'.turns < s.turns := by
  rw [turns, turns, hr, hi, List.length_drop]
  omega

theorem receiveTurn_ok (s : WebSocketSession) (out : List WsMessage) (k : Nat) :
    TurnOk s out k (s.receiveTurn out k) := by
  rw [receiveTurn]
  split
  · next hk => exact ⟨rfl, rfl, .inr hk⟩
  · split
    · next hl =>
      exact await_ok hl (fun h => decoded_header_none (parseWsFrameHeader_short h)) out k
    · split
      · next hp =>
        refine await_ok (Nat.lt_succ_self _) (fun h => ?_) out k
        have hi : s.inbox.flatten = [] := by
          rw [rest, List.length_append] at h
          exact List.length_eq_zero_iff.1 (by omega)
        apply decoded_header_none
        rw [rest, hi, List.append_nil]
        exact hp
      · next hdr hp =>
        have hr : parseWsFrameHeader s.rest = some hdr := parseWsFrameHeader_append hp _
        obtain ⟨hs₁, hs₂⟩ := parseWsFrameHeader_size hp
        split
        · next reply he => exact ⟨rfl, fun _ => decoded_header_error hr he⟩
        · next he =>
          split
          · next hl => exact await_ok hl (decoded_short hr he) out k
          · next hl =>
            have hl : hdr.frameSize ≤ s.readBuf.length := Nat.le_of_not_lt hl
            have h2 : 2 ≤ hdr.frameSize := by rw [WsFrameHeader.frameSize]; omega
            have hf := decoded_frame s.maxMessageSize s.fragmentBuf s.fragmentOpcode hr he
              (by rw [rest, List.length_append]; omega)
            rw [rest_drop hl] at hf
            rw [rest, framePayload_append hl] at hf
            cases ha : frameAction s.maxMessageSize s.fragmentBuf s.fragmentOpcode hdr
                (framePayload hdr s.readBuf) with
            | close reply =>
              rw [ha] at hf
              refine ⟨rfl, fun _ => hf.trans ?_⟩
              dsimp only
              split <;> rfl
            | pong payload =>
              rw [ha] at hf
              have hw := queueFrame_wrote s .hPong payload
              refine ⟨[], (List.append_nil out).symm, hf.trans ?_, fun l => ?_, ?_⟩
              · simp only [future, rest, consumeBytes, hw.readBuf, hw.inbox, hw.fragmentBuf,
                  hw.fragmentOpcode, hw.maxMessageSize]
                rfl
              · obtain ⟨h₁, h₂, h₃, h₄, h₅⟩ := hw.live l
                exact ⟨h₁, h₂, h₃, h₄, h₅⟩
              · exact consumed_turns h2 hl (congrArg (List.drop _) hw.readBuf) hw.inbox
            | skip =>
              rw [ha] at hf
              exact ⟨[], (List.append_nil out).symm, hf, fun l => ⟨l.1, l.2, l.3, l.4, l.5⟩,
                consumed_turns h2 hl rfl rfl⟩
            | data buf opcode message =>
              rw [ha] at hf
              exact ⟨message.toList, rfl, hf, fun l => ⟨l.1, l.2, l.3, l.4, l.5⟩,
                consumed_turns h2 hl rfl rfl⟩

theorem receiveLoop_ok (hf : s.turns ≤ fuel) (out : List WsMessage) (k : Nat) :
    ∃ alive s' new, receiveLoop fuel s out k = some (alive, s', out ++ new) ∧
      (alive = true → s.future = (new ++ s'.future.1, s'.future.2) ∧ (s.Live → s'.Live) ∧
        s'.turns ≤ s.turns ∧ (out = [] ∧ k < kMaxFramesPerBatch → s'.turns < s.turns)) ∧
      (alive = false → s.Live → s.future = (new, s'.recordedClose)) := by
  induction fuel generalizing s out k with
  | zero => rw [turns] at hf; omega
  | succ fuel ih =>
    have ht := receiveTurn_ok s out k
    rw [receiveLoop]
    cases hr : s.receiveTurn out k with
    | again s₁ out₁ k₁ =>
      rw [hr] at ht
      obtain ⟨new₁, rfl, hfut, hlive, hlt⟩ := ht
      obtain ⟨alive, s', new, he, hyes, hno⟩ := ih (s := s₁) (by omega) (out ++ new₁) k₁
      refine ⟨alive, s', new₁ ++ new, by rw [← List.append_assoc]; exact he, ?_, ?_⟩
      · intro ha
        obtain ⟨h₁, h₂, h₃, -⟩ := hyes ha
        refine ⟨?_, fun l => h₂ (hlive l), by omega, fun _ => by omega⟩
        rw [hfut, h₁, List.append_assoc]
      · intro ha l
        rw [hfut, hno ha (hlive l)]
    | stop alive s₁ out₁ =>
      rw [hr] at ht
      cases alive with
      | true =>
        obtain ⟨rfl, rfl, hor⟩ := ht
        refine ⟨true, s₁, [], by rw [List.append_nil], fun _ => ⟨rfl, id, Nat.le_refl _, ?_⟩, by
          simp⟩
        rintro ⟨ho, hk⟩
        rcases hor with hor | hor
        · exact absurd ho hor
        · omega
      | false =>
        obtain ⟨rfl, hfut⟩ := ht
        exact ⟨false, s₁, [], by rw [List.append_nil], by simp, fun _ => hfut⟩

theorem receiveBatch_ok (s : WebSocketSession) :
    ∃ alive s' new, s.receiveBatch = some (alive, s', new) ∧
      (alive = true → s.future = (new ++ s'.future.1, s'.future.2) ∧ (s.Live → s'.Live) ∧
        s'.turns < s.turns) ∧
      (alive = false → s.Live → s.future = (new, s'.recordedClose)) := by
  obtain ⟨alive, s', new, he, hyes, hno⟩ := receiveLoop_ok (Nat.le_refl s.turns) [] 0
  refine ⟨alive, s', new, he, fun ha => ?_, hno⟩
  obtain ⟨h₁, h₂, -, h₃⟩ := hyes ha
  exact ⟨h₁, h₂, h₃ ⟨rfl, by decide⟩⟩

end Reading

section Callbacks
variable {s s' : WebSocketSession} {υ : Type} {onMessage : υ → WsMessage → Reaction υ}

/-- Callbacks that return and leave the session open. -/
def Returns (onMessage : υ → WsMessage → Reaction υ) : Prop :=
  ∀ u msg, (onMessage u msg).closes = false ∧ (onMessage u msg).throws = false

theorem react_wrote {r : Reaction υ} (h : r.closes = false) : Wrote s (s.react r) := by
  have hs (replies : List (WsOpcode × Bytes)) (s : WebSocketSession) :
      Wrote s (replies.foldl (fun s reply => (s.sendFrame reply.1 reply.2).2) s) := by
    induction replies generalizing s with
    | nil => exact .refl s
    | cons reply replies ih => exact (sendFrame_wrote s reply.1 reply.2).trans (ih _)
  simp only [react, h, Bool.false_eq_true, ↓reduceIte]
  exact hs r.replies s

theorem deliver_ok (h : Returns onMessage) (batch : List WsMessage) (u : υ)
    (s : WebSocketSession) (seen : List WsMessage) :
    ∃ u' s', deliver onMessage batch u s seen = (true, u', s', seen ++ batch) ∧ Wrote s s' := by
  induction batch generalizing u s seen with
  | nil => exact ⟨u, s, by rw [List.append_nil]; rfl, .refl s⟩
  | cons msg batch ih =>
    obtain ⟨hc, ht⟩ := h u msg
    obtain ⟨u', s', he, hw⟩ := ih (onMessage u msg).user (s.react (onMessage u msg)) (seen ++ [msg])
    refine ⟨u', s', ?_, (react_wrote hc).trans hw⟩
    simp only [deliver, ht, Bool.false_eq_true, ↓reduceIte]
    rw [he, List.append_assoc]
    rfl

theorem beginBatch_wrote (s : WebSocketSession) : Wrote s s.beginBatch :=
  ⟨⟨rfl, rfl, rfl, rfl, rfl, fun l => ⟨l.1, l.2, l.3, l.4, l.5⟩, Nat.le_refl _⟩, rfl, rfl⟩

theorem leaveBatch_wrote (s : WebSocketSession) :
    Wrote s { s with batching := false }.flushBatch := by
  have h : Wrote s { s with batching := false } :=
    ⟨⟨rfl, rfl, rfl, rfl, rfl, fun l => ⟨l.1, l.2, l.3, l.4, l.5⟩, Nat.le_refl _⟩, rfl, rfl⟩
  exact h.trans (writeBatchLocked_wrote _)

theorem endBatch_recordedClose (s : WebSocketSession) :
    s.endBatch.recordedClose = s.recordedClose := by
  have hw := leaveBatch_wrote s
  rw [endBatch]
  split
  · exact hw.recordedClose
  · exact (sendFrame_wrote _ _ _).recordedClose.trans hw.recordedClose

theorem endBatch_keeps (h : s.Live) : Keeps s s.endBatch := by
  have hw := leaveBatch_wrote s
  have he : s.endBatch = { s with batching := false }.flushBatch := by
    rw [endBatch]
    simp only [(hw.live h).closeReply]
  rw [he]
  exact hw.toKeeps

theorem messageLoop_ok (hr : Returns onMessage) (hl : s.Live) (hf : s.turns ≤ fuel) (u : υ)
    (seen : List WsMessage) :
    ∃ s', messageLoop onMessage fuel u s seen = some (s', seen ++ s.future.1) ∧
      s'.recordedClose = s.future.2 := by
  induction fuel generalizing s u seen with
  | zero => rw [turns] at hf; omega
  | succ fuel ih =>
    obtain ⟨alive, s₁, batch, hb, hyes, hno⟩ := receiveBatch_ok s
    obtain ⟨u', s₂, hd, hw⟩ := deliver_ok hr batch u s₁.beginBatch seen
    have hw := (beginBatch_wrote s₁).trans hw
    simp only [messageLoop, hl.isOpen, hl.socketOpen, Bool.and_self, ↓reduceIte, hb, hd,
      Bool.true_and]
    cases alive with
    | true =>
      obtain ⟨hfut, hlive, hlt⟩ := hyes rfl
      have hk := hw.toKeeps.trans (endBatch_keeps (hw.live (hlive hl)))
      obtain ⟨s', he, hc⟩ := ih (s := s₂.endBatch) (hk.live (hlive hl))
        (Nat.le_of_lt_succ (Nat.lt_of_le_of_lt hk.turns (Nat.lt_of_lt_of_le hlt hf))) u'
        (seen ++ batch)
      rw [hk.future] at he hc
      refine ⟨s', ?_, by rw [hc, hfut]⟩
      simp only [↓reduceIte, he, hfut, List.append_assoc]
    | false =>
      have hfut := hno rfl hl
      refine ⟨s₂.endBatch, ?_, ?_⟩
      · simp only [Bool.false_eq_true, ↓reduceIte, hfut]
      · rw [endBatch_recordedClose, hw.recordedClose, hfut]

end Callbacks

/-- Whatever the reads deliver and wherever a batch is cut, the callback sees the messages of the
byte stream and the close reply is the one the stream calls for. -/
theorem handleWebSocket_stream {υ : Type} {onMessage : υ → WsMessage → Reaction υ}
    (hr : Returns onMessage) (maxMessageSize : Nat) (inbox : List Bytes) (writable : Nat → Bool)
    (hw : ∀ n, writable n = true) (u : υ) :
    handleWebSocket onMessage u (create maxMessageSize inbox writable) =
      some (decoded maxMessageSize [] .hText inbox.flatten) := by
  have hl : (create maxMessageSize inbox writable).Live := ⟨rfl, rfl, hw, rfl, rfl⟩
  obtain ⟨s', he, hc⟩ := messageLoop_ok hr hl (Nat.le_succ _) u []
  rw [handleWebSocket, he]
  simp only [Option.map_some, List.nil_append, hc]
  rfl

def textFrame (b : UInt8) : Bytes := buildMaskedWsFrame .hText [b] .zero true false

theorem handleWebSocket_stream_two_reads :
    handleWebSocket (fun (_ : Unit) _ => ⟨(), [], false, false⟩) ()
      (create 1024 [textFrame 65 ++ (textFrame 66).take 3, (textFrame 66).drop 3]
        fun _ => true) =
      some (decoded 1024 [] .hText (textFrame 65 ++ textFrame 66)) :=
  handleWebSocket_stream (fun _ _ => ⟨rfl, rfl⟩) 1024 _ _ (fun _ => rfl) ()

/-- A callback that closes the session at its first message: it still sees the second when both
came in one read, and does not when they came in two. -/
theorem handleWebSocket_closing_callback :
    handleWebSocket (fun (_ : Unit) _ => ⟨(), [], true, false⟩) ()
        (create 1024 [textFrame 65 ++ textFrame 66] fun _ => true) =
      some ([⟨.hText, [65]⟩, ⟨.hText, [66]⟩], none) ∧
    handleWebSocket (fun (_ : Unit) _ => ⟨(), [], true, false⟩) ()
        (create 1024 [textFrame 65, textFrame 66] fun _ => true) =
      some ([⟨.hText, [65]⟩], none) := by
  decide

end WebSocketSession

end Hical
