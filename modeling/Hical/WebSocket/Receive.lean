import Hical.WebSocket.Drain

namespace Hical

/-- A session with what `receive` keeps between its calls, and with a compression context where one was
negotiated. -/
structure WsReceiver (D : Type) where
  session : WebSocketSession
  deflateCtx : Option D := none
  fragmentCompressed : Bool := false
  pending : List WsMessage := []
  pendingPos : Nat := 0

namespace WsReceiver
variable {D : Type}

/-- One turn of the loop in `receiveBatch`. -/
inductive Turn (D : Type) where
  | again (r : WsReceiver D) (out : List WsMessage) (framesInBatch : Nat)
  | stop (alive : Bool) (r : WsReceiver D) (out : List WsMessage)
  | thrown (r : WsReceiver D) (out : List WsMessage)

/-- Wait for `n` bytes, unless there are messages to hand over first; an error other than the end of
the connection is thrown. -/
def await (atEnd : Bool) (r : WsReceiver D) (out : List WsMessage) (framesInBatch n : Nat) : Turn D :=
  if out ≠ [] then .stop true r out
  else
    match r.session.ensureBytes n with
    | (true, s) => .again { r with session := s } out framesInBatch
    | (false, s) =>
      let r := { r with session := { s with isOpen := false } }
      if atEnd then .stop false r out else .thrown r out

/-- Compressed frames are an error only without a compression context. -/
def visible (deflating : Bool) (hdr : WsFrameHeader) : WsFrameHeader :=
  { hdr with rsv1 := hdr.rsv1 && !deflating }

def refuse (r : WsReceiver D) (reply : Bytes) : WsReceiver D :=
  { r with session := r.session.refuse reply }

def joinFragment (r : WsReceiver D) (hdr : WsFrameHeader) (buf : Bytes) (opcode : WsOpcode) : WsReceiver D :=
  { r with
    session := { r.session with fragmentBuf := buf, fragmentOpcode := opcode }.consumeBytes hdr.frameSize
    fragmentCompressed := if hdr.opcode = .hContinuation then r.fragmentCompressed else hdr.rsv1 }

/-- The message that a last frame completes, if it can be decompressed; a compressed one stays in the
fragment buffer. -/
def complete (decompress : D → Bytes → Nat → Option Bytes × D) (r : WsReceiver D) (msg : WsMessage) :
    Option (List WsMessage) × WsReceiver D :=
  match r.deflateCtx with
  | none => (some [msg], r)
  | some ctx =>
    if r.fragmentCompressed then
      let r := { r with session := { r.session with fragmentBuf := msg.data } }
      match decompress ctx msg.data r.session.maxMessageSize with
      | (some data, ctx) => (some [{ msg with data }], { r with deflateCtx := some ctx })
      | (none, ctx) => (none, { r with deflateCtx := some ctx })
    else (some [msg], r)

def appendData (decompress : D → Bytes → Nat → Option Bytes × D) (r : WsReceiver D) (hdr : WsFrameHeader)
    (buf : Bytes) (opcode : WsOpcode) : Option WsMessage → Option (List WsMessage) × WsReceiver D
  | none => (some [], r.joinFragment hdr buf opcode)
  | some msg => (r.joinFragment hdr buf opcode).complete decompress msg

section Loop
variable (decompress : D → Bytes → Nat → Option Bytes × D) (atEnd : Bool)

def receiveTurn (r : WsReceiver D) (out : List WsMessage) (framesInBatch : Nat) : Turn D :=
  let s := r.session
  if WebSocketSession.kMaxFramesPerBatch ≤ framesInBatch then .stop true r out
  else if s.readBuf.length < 2 then r.await atEnd out framesInBatch 2
  else
    match parseWsFrameHeader s.readBuf with
    | none => r.await atEnd out framesInBatch (s.readBuf.length + 1)
    | some hdr =>
      match WebSocketSession.headerError s.maxMessageSize (visible r.deflateCtx.isSome hdr) with
      | some reply => .stop false (r.refuse reply) out
      | none =>
        if s.readBuf.length < hdr.frameSize then r.await atEnd out framesInBatch hdr.frameSize
        else
          match WebSocketSession.frameAction s.maxMessageSize s.fragmentBuf s.fragmentOpcode hdr
            (WebSocketSession.framePayload hdr s.readBuf) with
          | .close reply =>
            let s := s.refuse reply
            .stop false
              { r with session := if hdr.opcode = .hClose then s.consumeBytes hdr.frameSize else s } out
          | .pong payload =>
            .again { r with session := (s.queueFrame .hPong payload).consumeBytes hdr.frameSize } out
              (framesInBatch + 1)
          | .skip => .again { r with session := s.consumeBytes hdr.frameSize } out (framesInBatch + 1)
          | .data buf opcode message =>
            match r.appendData decompress hdr buf opcode message with
            | (some new, r) => .again r (out ++ new) (framesInBatch + 1)
            | (none, r) => .thrown r out

/-- How a batch ends: with whether the connection lives, or with an exception. -/
inductive Batch (D : Type) where
  | done (alive : Bool) (r : WsReceiver D) (out : List WsMessage)
  | thrown (r : WsReceiver D) (out : List WsMessage)

def receiveLoop : Nat → WsReceiver D → List WsMessage → Nat → Option (Batch D)
  | 0, _, _, _ => none
  | fuel + 1, r, out, framesInBatch =>
    match r.receiveTurn decompress atEnd out framesInBatch with
    | .again r out framesInBatch => receiveLoop fuel r out framesInBatch
    | .stop alive r out => some (.done alive r out)
    | .thrown r out => some (.thrown r out)

def receiveBatch (r : WsReceiver D) : Option (Batch D) :=
  receiveLoop decompress atEnd r.session.turns r [] 0

def hasPendingBatchWork (s : WebSocketSession) : Bool := !s.writeBatch.isEmpty || s.closeReply.isSome

def flushWork (r : WsReceiver D) : WsReceiver D :=
  if hasPendingBatchWork r.session then { r with session := r.session.endBatch } else r

/-- What a call of `receive` comes to. -/
inductive Received (M : Type) where
  | message (msg : M)
  | nullopt
  | thrown

/-- The next message of the batch at hand. -/
def takePending (r : WsReceiver D) : Received WsMessage × WsReceiver D :=
  match r.pending[r.pendingPos]? with
  | none => (.nullopt, r)
  | some msg =>
    let r := { r with pendingPos := r.pendingPos + 1 }
    (.message msg, if r.pending.length ≤ r.pendingPos then { r with pending := [], pendingPos := 0 } else r)

def receiveInternal (r : WsReceiver D) : Option (Received WsMessage × WsReceiver D) :=
  if r.pending.length ≤ r.pendingPos then
    if !r.session.isOpen then some (.nullopt, r)
    else
      match receiveBatch decompress atEnd { r with pending := [], pendingPos := 0 } with
      | none => none
      | some (.thrown r out) => some (.thrown, { r with pending := out, pendingPos := 0 })
      | some (.done _ r batch) =>
        some ({ r.flushWork with pending := batch, pendingPos := 0 }.takePending)
  else some r.takePending

def receiveMessage (r : WsReceiver D) : Option (Received WsMessage × WsReceiver D) :=
  r.receiveInternal decompress atEnd

def receive (r : WsReceiver D) : Option (Received Bytes × WsReceiver D) :=
  (r.receiveInternal decompress atEnd).map fun res =>
    (match res.1 with
      | .message msg => .message msg.data
      | .nullopt => .nullopt
      | .thrown => .thrown, res.2)

end Loop

section Plain
variable (decompress : D → Bytes → Nat → Option Bytes × D) (s : WebSocketSession) (out : List WsMessage)

def Turn.plain : WebSocketSession.Turn → Turn D
  | .again s out framesInBatch => .again { session := s } out framesInBatch
  | .stop alive s out => .stop alive { session := s } out

theorem await_plain (framesInBatch n : Nat) :
    await (D := D) true { session := s } out framesInBatch n = .plain (s.await out framesInBatch n) := by
  rw [await, WebSocketSession.await]
  split
  · rfl
  · dsimp only
    cases hready : s.ensureBytes n with
    | mk ready s' =>
      cases ready with
      | true => rfl
      | false => rfl

theorem receiveTurn_plain (framesInBatch : Nat) :
    receiveTurn decompress true { session := s } out framesInBatch = .plain (s.receiveTurn out framesInBatch) := by
  rw [receiveTurn, WebSocketSession.receiveTurn]
  dsimp only
  split
  · rfl
  split
  · exact await_plain ..
  cases parseWsFrameHeader s.readBuf with
  | none => exact await_plain ..
  | some hdr =>
    have hvisible : visible false hdr = hdr := by
      rw [visible, Bool.not_false, Bool.and_true]
    rw [Option.isSome_none]
    dsimp only
    rw [hvisible]
    cases hvalid : WebSocketSession.headerError s.maxMessageSize hdr with
    | some reply => rfl
    | none =>
      -- a header without an error has no RSV1, so that no message counts as compressed
      have hrsv1 : hdr.rsv1 = false := by
        cases hrsv1 : hdr.rsv1 with
        | false => rfl
        | true =>
          rw [WebSocketSession.headerError, hrsv1] at hvalid
          split at hvalid
          · cases hvalid
          · cases hvalid
      dsimp only
      split
      · exact await_plain ..
      cases WebSocketSession.frameAction s.maxMessageSize s.fragmentBuf s.fragmentOpcode hdr
          (WebSocketSession.framePayload hdr s.readBuf) with
      | close reply => rfl
      | pong payload => rfl
      | skip => rfl
      | data buf opcode message =>
        have hjoined : joinFragment (D := D) { session := s } hdr buf opcode =
            { session := { s with fragmentBuf := buf, fragmentOpcode := opcode }.consumeBytes hdr.frameSize } := by
          rw [joinFragment, hrsv1, ite_self]
        cases message with
        | none => exact congrArg (Turn.again · (out ++ []) (framesInBatch + 1)) hjoined
        | some msg => exact congrArg (Turn.again · (out ++ [msg]) (framesInBatch + 1)) hjoined

/-- Without a compression context, the batches are those of the session itself. -/
theorem receiveBatch_plain : receiveBatch decompress true { session := s } =
    s.receiveBatch.map fun batch => .done batch.1 { session := batch.2.1 } batch.2.2 := by
  have hloop (fuel : Nat) : ∀ (s : WebSocketSession) out framesInBatch,
      receiveLoop decompress true fuel { session := s } out framesInBatch =
        (WebSocketSession.receiveLoop fuel s out framesInBatch).map
          fun batch => .done batch.1 { session := batch.2.1 } batch.2.2 := by
    induction fuel with
    | zero => exact fun _ _ _ => rfl
    | succ fuel ih =>
      intro s out framesInBatch
      rw [receiveLoop, WebSocketSession.receiveLoop, receiveTurn_plain]
      cases s.receiveTurn out framesInBatch with
      | again s' out' framesInBatch' => exact ih s' out' framesInBatch'
      | stop alive s' out' => rfl
  exact hloop s.turns s [] 0

end Plain

/-- The next frames of a stream are all there, and they are frames that complete no message. -/
def quiet (deflating : Bool) (maxMessageSize : Nat) : Nat → Bytes → WsOpcode → Bytes → Bool
  | 0, _, _, _ => true
  | n + 1, buf, opcode, stream =>
    match parseWsFrameHeader stream with
    | none => false
    | some hdr =>
      (WebSocketSession.headerError maxMessageSize (visible deflating hdr)).isNone &&
        decide (hdr.frameSize ≤ stream.length) &&
        match WebSocketSession.frameAction maxMessageSize buf opcode hdr
          (WebSocketSession.framePayload hdr stream) with
        | .pong _ => quiet deflating maxMessageSize n buf opcode (stream.drop hdr.frameSize)
        | .skip => quiet deflating maxMessageSize n buf opcode (stream.drop hdr.frameSize)
        | .data buf opcode none => quiet deflating maxMessageSize n buf opcode (stream.drop hdr.frameSize)
        | _ => false

def quietFor (r : WsReceiver D) (n : Nat) : Bool :=
  quiet r.deflateCtx.isSome r.session.maxMessageSize n r.session.fragmentBuf r.session.fragmentOpcode
    r.session.rest

/-- A whole batch lies ahead without a message in it. -/
def Starved (r : WsReceiver D) : Prop :=
  r.pending.length ≤ r.pendingPos ∧ r.session.isOpen = true ∧
    r.quietFor WebSocketSession.kMaxFramesPerBatch = true

section Turns
open WebSocketSession
variable {decompress : D → Bytes → Nat → Option Bytes × D} {atEnd : Bool} {r r' : WsReceiver D}
  {out : List WsMessage} {hdr : WsFrameHeader}

/-- What one turn of the receiving loop may do, and what it says about the frames ahead. -/
def TurnOk (r : WsReceiver D) (out : List WsMessage) (k : Nat) : Turn D → Prop
  | .again r' out' k' =>
    r'.session.turns < r.session.turns ∧ k < kMaxFramesPerBatch ∧ k' ≤ kMaxFramesPerBatch ∧
      (∃ new, out' = out ++ new) ∧
      (out' = [] → r.quietFor (kMaxFramesPerBatch - k) = r'.quietFor (kMaxFramesPerBatch - k')) ∧
      (out' ≠ [] → out = [] → r.quietFor (kMaxFramesPerBatch - k) = false) ∧
      (r.session.Live → r'.session.Live)
  | .stop true r' out' => r' = r ∧ out' = out ∧ (out ≠ [] ∨ kMaxFramesPerBatch ≤ k)
  | .stop false r' out' =>
    out' = out ∧ r'.session.isOpen = false ∧ r.quietFor (kMaxFramesPerBatch - k) = false
  | .thrown _ out' => out' = out ∧ r.quietFor (kMaxFramesPerBatch - k) = false

theorem quiet_none (h : parseWsFrameHeader stream = none) (hn : 0 < n) :
    quiet deflating limit n buf opcode stream = false := by
  obtain ⟨n, rfl⟩ := Nat.exists_eq_succ_of_ne_zero (Nat.ne_of_gt hn)
  rw [quiet, h]

theorem quiet_error (h : parseWsFrameHeader stream = some hdr)
    (he : (headerError limit (visible deflating hdr)).isSome) (hn : 0 < n) :
    quiet deflating limit n buf opcode stream = false := by
  obtain ⟨n, rfl⟩ := Nat.exists_eq_succ_of_ne_zero (Nat.ne_of_gt hn)
  rw [quiet, h]
  dsimp only
  rw [← Option.not_isSome, he]
  rfl

theorem quiet_short (h : parseWsFrameHeader stream = some hdr) (hl : stream.length < hdr.frameSize) (hn : 0 < n) :
    quiet deflating limit n buf opcode stream = false := by
  obtain ⟨n, rfl⟩ := Nat.exists_eq_succ_of_ne_zero (Nat.ne_of_gt hn)
  rw [quiet, h]
  dsimp only
  rw [decide_eq_false (Nat.not_le_of_lt hl), Bool.and_false, Bool.false_and]

theorem quiet_frame (buf : Bytes) (opcode : WsOpcode) (n : Nat) (h : parseWsFrameHeader stream = some hdr)
    (he : headerError limit (visible deflating hdr) = none) (hl : hdr.frameSize ≤ stream.length) :
    quiet deflating limit (n + 1) buf opcode stream =
      match frameAction limit buf opcode hdr (framePayload hdr stream) with
      | .pong _ => quiet deflating limit n buf opcode (stream.drop hdr.frameSize)
      | .skip => quiet deflating limit n buf opcode (stream.drop hdr.frameSize)
      | .data buf opcode none => quiet deflating limit n buf opcode (stream.drop hdr.frameSize)
      | _ => false := by
  rw [quiet, h]
  dsimp only
  rw [he, decide_eq_true hl]
  rfl

/-- Waiting changes nothing ahead, and fails only where the frame is not all there. -/
theorem await_ok (hn : r.session.readBuf.length < n) (hk : k < kMaxFramesPerBatch)
    (hend : r.session.rest.length < n → r.quietFor (kMaxFramesPerBatch - k) = false) :
    TurnOk r out k (r.await atEnd out k n) := by
  rw [await]
  split
  · next ho => exact ⟨rfl, rfl, .inl ho⟩
  · next ho =>
    have ho : out = [] := by simpa using ho
    split
    · next s he =>
      obtain ⟨hkeeps, hok, -⟩ := ensureBytes_spec he hn
      refine ⟨hok rfl, hk, Nat.le_of_lt hk, ⟨[], (List.append_nil out).symm⟩, fun _ => ?_,
        fun hne => absurd ho hne, hkeeps.live⟩
      rw [quietFor, quietFor]
      dsimp only
      rw [hkeeps.rest, hkeeps.fragmentBuf, hkeeps.fragmentOpcode, hkeeps.maxMessageSize]
    · next s he =>
      obtain ⟨-, -, hno⟩ := ensureBytes_spec he hn
      dsimp only
      split
      · exact ⟨rfl, rfl, hend (hno rfl)⟩
      · exact ⟨rfl, hend (hno rfl)⟩

theorem joinFragment_live (h : r.session.Live) (hdr : WsFrameHeader) (buf : Bytes) (opcode : WsOpcode) :
    (r.joinFragment hdr buf opcode).session.Live :=
  ⟨h.isOpen, h.socketOpen, h.writable, h.closeReply, h.recordedClose⟩

theorem complete_ok (decompress : D → Bytes → Nat → Option Bytes × D) (r : WsReceiver D) (msg : WsMessage) :
    (r.complete decompress msg).1 ≠ some [] ∧
      (r.complete decompress msg).2.session.readBuf = r.session.readBuf ∧
      (r.complete decompress msg).2.session.inbox = r.session.inbox ∧
      (r.session.Live → (r.complete decompress msg).2.session.Live) := by
  have hlive : r.session.Live → WebSocketSession.Live { r.session with fragmentBuf := msg.data } :=
    fun l => ⟨l.isOpen, l.socketOpen, l.writable, l.closeReply, l.recordedClose⟩
  rw [complete]
  split
  · exact ⟨fun h => (nomatch h), rfl, rfl, id⟩
  · split
    · dsimp only
      split
      · exact ⟨fun h => (nomatch h), rfl, rfl, hlive⟩
      · exact ⟨fun h => (nomatch h), rfl, rfl, hlive⟩
    · exact ⟨fun h => (nomatch h), rfl, rfl, id⟩

theorem receiveTurn_ok (decompress : D → Bytes → Nat → Option Bytes × D) (atEnd : Bool) (r : WsReceiver D)
    (out : List WsMessage) (k : Nat) : TurnOk r out k (r.receiveTurn decompress atEnd out k) := by
  rw [receiveTurn]
  dsimp only
  split
  · next hk => exact ⟨rfl, rfl, .inr hk⟩
  · next hk =>
    have hk : k < kMaxFramesPerBatch := Nat.lt_of_not_le hk
    have hpos : 0 < kMaxFramesPerBatch - k := Nat.sub_pos_of_lt hk
    split
    · next hl => exact await_ok hl hk fun h => quiet_none (parseWsFrameHeader_short h) hpos
    · split
      · next hp =>
        refine await_ok (Nat.lt_succ_self _) hk fun h => ?_
        have hi : r.session.inbox.flatten = [] := by
          rw [rest, List.length_append] at h
          exact List.length_eq_zero_iff.1 (by omega)
        apply quiet_none _ hpos
        rw [rest, hi, List.append_nil]
        exact hp
      · next hdr hp =>
        have hr : parseWsFrameHeader r.session.rest = some hdr := parseWsFrameHeader_append hp _
        obtain ⟨hs₁, hs₂⟩ := parseWsFrameHeader_size hp
        split
        · next reply he => exact ⟨rfl, rfl, quiet_error hr (by rw [he]; rfl) hpos⟩
        · next he =>
          split
          · next hl => exact await_ok hl hk fun h => quiet_short hr h hpos
          · next hl =>
            have hl : hdr.frameSize ≤ r.session.readBuf.length := Nat.le_of_not_lt hl
            have h2 : 2 ≤ hdr.frameSize := by rw [WsFrameHeader.frameSize]; omega
            have hq := quiet_frame r.session.fragmentBuf r.session.fragmentOpcode
              (kMaxFramesPerBatch - (k + 1)) hr he (by rw [rest, List.length_append]; omega)
            rw [show kMaxFramesPerBatch - (k + 1) + 1 = kMaxFramesPerBatch - k by omega, rest_drop hl] at hq
            rw [rest, framePayload_append hl] at hq
            cases ha : frameAction r.session.maxMessageSize r.session.fragmentBuf r.session.fragmentOpcode hdr
                (framePayload hdr r.session.readBuf) with
            | close reply =>
              rw [ha] at hq
              refine ⟨rfl, ?_, hq⟩
              dsimp only
              split
              · rfl
              · rfl
            | pong payload =>
              rw [ha] at hq
              have hw := queueFrame_wrote r.session .hPong payload
              refine ⟨consumed_turns h2 hl (congrArg (List.drop _) hw.readBuf) hw.inbox, hk, hk,
                ⟨[], (List.append_nil out).symm⟩, fun _ => hq.trans ?_, fun hne ho => absurd ho hne, fun l => ?_⟩
              · simp only [quietFor, rest, consumeBytes, hw.readBuf, hw.inbox, hw.fragmentBuf,
                  hw.fragmentOpcode, hw.maxMessageSize]
              · obtain ⟨h₁, h₂, h₃, h₄, h₅⟩ := hw.live l
                exact ⟨h₁, h₂, h₃, h₄, h₅⟩
            | skip =>
              rw [ha] at hq
              exact ⟨consumed_turns h2 hl rfl rfl, hk, hk, ⟨[], (List.append_nil out).symm⟩, fun _ => hq,
                fun hne ho => absurd ho hne, fun l => ⟨l.1, l.2, l.3, l.4, l.5⟩⟩
            | data buf opcode message =>
              rw [ha] at hq
              cases message with
              | none =>
                refine ⟨consumed_turns h2 hl rfl rfl, hk, hk, ⟨[], rfl⟩, fun _ => hq, fun hne ho => ?_,
                  fun l => joinFragment_live l hdr buf opcode⟩
                rw [ho] at hne
                exact absurd rfl hne
              | some msg =>
                obtain ⟨hne, hbuf, hinbox, hlive⟩ := complete_ok decompress (r.joinFragment hdr buf opcode) msg
                dsimp only [appendData]
                cases hc : (r.joinFragment hdr buf opcode).complete decompress msg with
                | mk new r' =>
                  rw [hc] at hne hbuf hinbox hlive
                  cases new with
                  | none => exact ⟨rfl, hq⟩
                  | some new =>
                    refine ⟨consumed_turns h2 hl hbuf hinbox, hk, hk, ⟨new, rfl⟩, fun ho => ?_, fun _ _ => hq,
                      fun l => hlive (joinFragment_live l hdr buf opcode)⟩
                    exact absurd (congrArg some (List.append_eq_nil_iff.1 ho).2) hne

/-- What a whole batch comes to. -/
def BatchOk (r : WsReceiver D) (out : List WsMessage) (k : Nat) : Batch D → Prop
  | .done alive r' out' =>
    (out' = [] → out = []) ∧ (alive = false → r'.session.isOpen = false) ∧
      (alive = true → out' = [] → r.quietFor (kMaxFramesPerBatch - k) = true) ∧
      (out = [] → r.quietFor (kMaxFramesPerBatch - k) = true →
        alive = true ∧ out' = [] ∧ (r.session.Live → r'.session.Live))
  | .thrown _ out' =>
    (out' = [] → out = []) ∧ (out = [] → r.quietFor (kMaxFramesPerBatch - k) = false)

theorem receiveLoop_ok (decompress : D → Bytes → Nat → Option Bytes × D) (atEnd : Bool) (fuel : Nat)
    (hf : r.session.turns ≤ fuel) (out : List WsMessage) (k : Nat) :
    ∃ batch, receiveLoop decompress atEnd fuel r out k = some batch ∧ BatchOk r out k batch := by
  induction fuel generalizing r out k with
  | zero => rw [turns] at hf; omega
  | succ fuel ih =>
    have ht := receiveTurn_ok decompress atEnd r out k
    rw [receiveLoop]
    cases hr : r.receiveTurn decompress atEnd out k with
    | again r₁ out₁ k₁ =>
      rw [hr] at ht
      obtain ⟨hlt, -, -, ⟨new, rfl⟩, hquiet, hloud, hlive⟩ := ht
      obtain ⟨batch, he, hb⟩ := ih (r := r₁) (by omega) (out ++ new) k₁
      refine ⟨batch, he, ?_⟩
      have hout : out ++ new = [] → out = [] := fun h => (List.append_eq_nil_iff.1 h).1
      have hahead : out = [] → r.quietFor (kMaxFramesPerBatch - k) = true →
          out ++ new = [] ∧ r₁.quietFor (kMaxFramesPerBatch - k₁) = true := by
        intro ho hq
        by_cases hn : out ++ new = []
        · exact ⟨hn, hquiet hn ▸ hq⟩
        · rw [hloud hn ho] at hq
          cases hq
      cases batch with
      | done alive r' out' =>
        obtain ⟨h₁, h₂, h₃, h₄⟩ := hb
        refine ⟨fun ho => hout (h₁ ho), h₂, fun ha ho => ?_, fun ho hq => ?_⟩
        · rw [hquiet (h₁ ho)]
          exact h₃ ha ho
        · obtain ⟨hn, hq₁⟩ := hahead ho hq
          obtain ⟨ha, ho', hl⟩ := h₄ hn hq₁
          exact ⟨ha, ho', fun l => hl (hlive l)⟩
      | thrown r' out' =>
        obtain ⟨h₁, h₂⟩ := hb
        refine ⟨fun ho => hout (h₁ ho), fun ho => ?_⟩
        by_contra hq
        rw [Bool.not_eq_false] at hq
        obtain ⟨hn, hq₁⟩ := hahead ho hq
        rw [h₂ hn] at hq₁
        cases hq₁
    | stop alive r₁ out₁ =>
      rw [hr] at ht
      refine ⟨_, rfl, ?_⟩
      cases alive with
      | true =>
        obtain ⟨rfl, rfl, hor⟩ := ht
        refine ⟨id, fun h => (by cases h), fun _ ho => ?_, fun ho _ => ⟨rfl, ho, id⟩⟩
        rw [Nat.sub_eq_zero_of_le (hor.resolve_left fun hne => hne ho)]
        rfl
      | false =>
        obtain ⟨rfl, hclosed, hq⟩ := ht
        refine ⟨id, fun _ => hclosed, fun h => (by cases h), fun _ hquiet => ?_⟩
        rw [hq] at hquiet
        cases hquiet
    | thrown r₁ out₁ =>
      rw [hr] at ht
      exact ⟨_, rfl, fun ho => ht.1 ▸ ho, fun _ => ht.2⟩

end Turns

section Calls
open WebSocketSession
variable {r : WsReceiver D}

theorem endBatch_closed {s : WebSocketSession} (h : s.isOpen = false) : s.endBatch.isOpen = false := by
  have hwrite : ∀ s : WebSocketSession, s.isOpen = false → s.writeBatchLocked.isOpen = false := by
    intro s h
    rw [writeBatchLocked, WebSocketSession.asyncWrite]
    split
    · exact h
    · split
      · next hw =>
        split at hw
        · cases hw
          exact h
        · cases hw
      · rfl
  have hflush : ({ s with batching := false }.flushBatch).isOpen = false := hwrite _ h
  rw [endBatch]
  split
  · exact hflush
  · rw [sendFrame]
    split
    · rw [queueFrame]
      dsimp only
      split
      · exact hwrite _ hflush
      · exact hflush
    · rw [WebSocketSession.asyncWrite]
      split
      · exact hflush
      · exact hflush

theorem takePending_nullopt (h : r.takePending.1 = .nullopt) : r.pending.length ≤ r.pendingPos := by
  rw [takePending] at h
  split at h
  · next hn => exact List.getElem?_eq_none_iff.1 hn
  · cases h

theorem takePending_session (r : WsReceiver D) : r.takePending.2.session = r.session := by
  rw [takePending]
  split
  · rfl
  · dsimp only
    split
    · rfl
    · rfl

theorem flushWork_closed (h : r.session.isOpen = false) : r.flushWork.session.isOpen = false := by
  rw [flushWork]
  split
  · exact endBatch_closed h
  · exact h

theorem flushWork_open (h : r.session.Live) : r.flushWork.session.isOpen = true := by
  rw [flushWork]
  split
  · exact ((endBatch_keeps h).live h).isOpen
  · exact h.isOpen

/-- `receive` ends with nothing only when the session is closed, as long as no whole batch lies ahead in
which no message ends; there it ends with nothing although the session is open. -/
theorem receiveInternal_ok (decompress : D → Bytes → Nat → Option Bytes × D) (atEnd : Bool) (r : WsReceiver D) :
    ∃ res r', r.receiveInternal decompress atEnd = some (res, r') ∧
      (¬ r.Starved → res = .nullopt → r'.session.isOpen = false) ∧
      (r.Starved → r.session.Live → res = .nullopt ∧ r'.session.isOpen = true) := by
  rw [receiveInternal]
  split
  · next hp =>
    split
    · next hclosed =>
      rw [Bool.not_eq_true'] at hclosed
      refine ⟨_, _, rfl, fun _ _ => hclosed, fun hs => ?_⟩
      rw [hs.2.1] at hclosed
      cases hclosed
    · next hopen =>
      have hopen : r.session.isOpen = true := by simpa using hopen
      have hstarved : r.quietFor kMaxFramesPerBatch = true → r.Starved := fun h => ⟨hp, hopen, h⟩
      obtain ⟨batch, hb, hok⟩ := receiveLoop_ok (r := { r with pending := [], pendingPos := 0 }) decompress atEnd
        r.session.turns (Nat.le_refl _) [] 0
      rw [receiveBatch, hb]
      cases batch with
      | thrown r' out =>
        refine ⟨_, _, rfl, fun _ h => (nomatch h), fun hs => ?_⟩
        have hq : r.quietFor kMaxFramesPerBatch = false := hok.2 rfl
        rw [hs.2.2] at hq
        cases hq
      | done alive r' out =>
        obtain ⟨-, hclosed, hquiet, hlive⟩ := hok
        let taken := ({ r'.flushWork with pending := out, pendingPos := 0 } : WsReceiver D).takePending
        have hsession : taken.2.session = r'.flushWork.session := takePending_session _
        refine ⟨taken.1, taken.2, rfl, fun hn h => ?_, fun hs hl => ?_⟩
        · have hout : out = [] := List.length_eq_zero_iff.1 (Nat.le_zero.1 (takePending_nullopt h))
          have hdead : alive = false := by
            cases alive with
            | false => rfl
            | true => exact absurd (hstarved (hquiet rfl hout)) hn
          rw [hsession]
          exact flushWork_closed (hclosed hdead)
        · obtain ⟨-, hout, hkept⟩ := hlive rfl hs.2.2
          rw [hsession]
          refine ⟨?_, flushWork_open (hkept hl)⟩
          dsimp only [taken]
          rw [hout]
          rfl
  · next hp =>
    refine ⟨_, _, rfl, fun _ h => absurd (takePending_nullopt h) hp, fun hs => absurd hs.1 hp⟩

/-- `receive` and `receiveMessage` come back with nothing only when the session is closed, exactly as long
as no whole batch of frames without a message lies ahead in an open session. -/
theorem receive_nullopt (decompress : D → Bytes → Nat → Option Bytes × D) (atEnd : Bool) (r : WsReceiver D) :
    ∃ res res' r', r.receiveMessage decompress atEnd = some (res, r') ∧
      r.receive decompress atEnd = some (res', r') ∧ (res' = .nullopt ↔ res = .nullopt) ∧
      (¬ r.Starved → res = .nullopt → r'.session.isOpen = false) ∧
      (r.Starved → r.session.Live → res = .nullopt ∧ r'.session.isOpen = true) := by
  obtain ⟨res, r', h, hends, hstarved⟩ := receiveInternal_ok decompress atEnd r
  refine ⟨res, _, r', h, by rw [receive, h]; rfl, ?_, hends, hstarved⟩
  cases res with
  | message msg | thrown => exact ⟨fun h => (nomatch h), fun h => (nomatch h)⟩
  | nullopt => exact ⟨fun _ => rfl, fun _ => rfl⟩

def pingFrame : Bytes := buildMaskedWsFrame .hPing [] .zero true false

theorem quiet_pings (deflating : Bool) (limit : Nat) (buf : Bytes) (opcode : WsOpcode) (n : Nat) (more : Bytes) :
    quiet deflating limit n buf opcode ((List.replicate n pingFrame).flatten ++ more) = true := by
  induction n with
  | zero => rfl
  | succ n ih =>
    rw [List.replicate_succ, List.flatten_cons, List.append_assoc]
    generalize (List.replicate n pingFrame).flatten ++ more = behind at ih
    obtain ⟨size, hp, hlen, -⟩ := parseWsFrameHeader_buildMasked .hPing [] .zero true false (by decide) (by decide)
      behind
    have hsize : WsFrameHeader.frameSize ⟨true, false, false, false, .hPing, true, 0, .zero, size⟩ =
        pingFrame.length := hlen
    rw [pingFrame, quiet_frame buf opcode n hp, ← pingFrame]
    · show quiet deflating limit n buf opcode ((pingFrame ++ behind).drop (WsFrameHeader.frameSize _)) = true
      rw [List.length_nil, hsize, List.drop_left]
      exact ih
    · rfl
    · rw [List.length_nil, hsize, ← pingFrame, List.length_append]
      exact Nat.le_add_right ..

/-- Pings alone make `receive` end, with a message right behind them. -/
theorem pings_end_receive :
    let r : WsReceiver Unit :=
      { session := .create 1048576 [(List.replicate 256 pingFrame).flatten ++ textFrame 104] fun _ => true }
    ∃ r', r.receiveMessage (fun ctx data _ => (some data, ctx)) true = some (.nullopt, r') ∧
      r'.session.isOpen = true := by
  intro r
  have hlive : r.session.Live := ⟨rfl, rfl, fun _ => rfl, rfl, rfl⟩
  have hstarved : r.Starved := by
    refine ⟨Nat.le_refl _, rfl, ?_⟩
    have hrest : r.session.rest = (List.replicate 256 pingFrame).flatten ++ textFrame 104 :=
      List.append_nil _
    rw [quietFor, hrest]
    exact quiet_pings ..
  obtain ⟨res, r', h, -, hends⟩ := receiveInternal_ok (fun ctx data _ => (some data, ctx)) true r
  obtain ⟨rfl, hopen⟩ := hends hstarved hlive
  exact ⟨r', h, hopen⟩

end Calls

end WsReceiver

end Hical
