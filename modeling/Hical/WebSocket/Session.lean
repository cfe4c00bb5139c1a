import Hical.Socket
import Hical.WebSocket.Frame

namespace Hical

structure WsMessage where
  type : WsOpcode
  data : Bytes
  deriving DecidableEq, Repr

/-- A session without compression, with its socket: what the peer still sends and how the reads
cut it, what was written, and which of the writes the socket accepts. -/
structure WebSocketSession where
  isOpen : Bool
  socketOpen : Bool
  maxMessageSize : Nat
  readBuf : Bytes
  readBufSize : Nat
  fragmentBuf : Bytes
  fragmentOpcode : WsOpcode
  writeBatch : Bytes
  batching : Bool
  closeReply : Option Bytes
  writeCount : Nat
  inbox : List Bytes
  outbox : Bytes
  writable : Nat → Bool
  /-- The payload last given to `replyClose`. -/
  recordedClose : Option Bytes

namespace WebSocketSession

def create (maxMessageSize : Nat) (inbox : List Bytes) (writable : Nat → Bool) :
    WebSocketSession where
  isOpen := true
  socketOpen := true
  maxMessageSize := maxMessageSize
  readBuf := []
  readBufSize := 8192
  fragmentBuf := []
  fragmentOpcode := .hText
  writeBatch := []
  batching := false
  closeReply := none
  writeCount := 0
  inbox := inbox
  outbox := []
  writable := writable
  recordedClose := none

def kWriteBatchBytes : Nat := 64 * 1024

def kMaxFramesPerBatch : Nat := 256

def asyncWrite (s : WebSocketSession) (data : Bytes) : Bool × WebSocketSession :=
  if s.socketOpen && s.writable s.writeCount then
    (true, { s with writeCount := s.writeCount + 1, outbox := s.outbox ++ data })
  else (false, { s with writeCount := s.writeCount + 1 })

def writeBatchLocked (s : WebSocketSession) : WebSocketSession :=
  if s.writeBatch = [] then s
  else
    match s.asyncWrite s.writeBatch with
    | (true, s) => { s with writeBatch := [] }
    | (false, s) => { s with writeBatch := [], isOpen := false }

def flushBatch (s : WebSocketSession) : WebSocketSession := s.writeBatchLocked

def queueFrame (s : WebSocketSession) (opcode : WsOpcode) (payload : Bytes) : WebSocketSession :=
  let s := { s with writeBatch := s.writeBatch ++ encodeFrame opcode payload true false }
  if kWriteBatchBytes ≤ s.writeBatch.length then s.writeBatchLocked else s

/-- A frame sent by the application or by the batch's end, and whether it was written. -/
def sendFrame (s : WebSocketSession) (opcode : WsOpcode) (payload : Bytes) :
    Bool × WebSocketSession :=
  if s.batching then (true, s.queueFrame opcode payload)
  else s.asyncWrite (encodeFrame opcode payload true false)

def replyClose (s : WebSocketSession) (payload : Bytes) : WebSocketSession :=
  { s with closeReply := some payload, recordedClose := some payload }

def beginBatch (s : WebSocketSession) : WebSocketSession := { s with batching := true }

def endBatch (s : WebSocketSession) : WebSocketSession :=
  let s := { s with batching := false }.flushBatch
  match s.closeReply with
  | none => s
  | some payload => ({ s with closeReply := none }.sendFrame .hClose payload).2

def close (s : WebSocketSession) : WebSocketSession :=
  if s.isOpen then { s with isOpen := false, socketOpen := false } else s

def consumeBytes (s : WebSocketSession) (n : Nat) : WebSocketSession :=
  { s with readBuf := s.readBuf.drop n }

/-- The size of the read buffer once it has room for `n` bytes. -/
def grownSize (s : WebSocketSession) (n : Nat) : Nat :=
  if s.readBufSize < n then max n (s.readBufSize * 2) else s.readBufSize

/-- The reading loop of `ensureBytes`; the connection may end before there are enough bytes. -/
def readUntil (n : Nat) : Nat → WebSocketSession → Bool × WebSocketSession
  | 0, s => (false, s)
  | fuel + 1, s =>
    if s.readBuf.length < n then
      match readSome (s.grownSize n - s.readBuf.length) s.inbox with
      | none => (false, { s with readBufSize := s.grownSize n })
      | some (got, inbox) =>
        readUntil n fuel { s with
          readBufSize := s.grownSize n, readBuf := s.readBuf ++ got, inbox := inbox }
    else (true, s)

def ensureBytes (s : WebSocketSession) (n : Nat) : Bool × WebSocketSession :=
  let s := s.flushBatch
  readUntil n (s.inbox.flatten.length + 2) s

/-- The checks on a frame header, in the order they are made; the payload of the close reply. -/
def headerError (maxMessageSize : Nat) (hdr : WsFrameHeader) : Option Bytes :=
  if hdr.rsv2 || hdr.rsv3 then
    some (buildClosePayload .hProtocolError (bytes "Unexpected RSV2/RSV3"))
  else if hdr.rsv1 then
    some (buildClosePayload .hProtocolError (bytes "Unexpected RSV1 without deflate"))
  else if !hdr.masked then
    some (buildClosePayload .hProtocolError (bytes "Client frames must be masked"))
  else if hdr.opcode.isControl && 125 < hdr.payloadLength then
    some (buildClosePayload .hProtocolError (bytes "Control frame payload too large"))
  else if maxMessageSize < hdr.payloadLength then some (buildClosePayload .hMessageTooBig [])
  else none

def framePayload (hdr : WsFrameHeader) (stream : Bytes) : Bytes :=
  unmaskPayload hdr.maskKey ((stream.drop hdr.headerSize).take hdr.payloadLength)

/-- What a complete frame means for the session. -/
inductive FrameAction where
  | close (reply : Bytes)
  | pong (payload : Bytes)
  | skip
  | data (buf : Bytes) (opcode : WsOpcode) (message : Option WsMessage)
  deriving DecidableEq, Repr

def appendFragment (maxMessageSize : Nat) (fin : Bool) (buf : Bytes) (opcode : WsOpcode)
    (payload : Bytes) : FrameAction :=
  if maxMessageSize < (buf ++ payload).length then .close (buildClosePayload .hMessageTooBig [])
  else if fin then .data [] opcode (some ⟨opcode, buf ++ payload⟩)
  else .data (buf ++ payload) opcode none

def frameAction (maxMessageSize : Nat) (fragmentBuf : Bytes) (fragmentOpcode : WsOpcode)
    (hdr : WsFrameHeader) (payload : Bytes) : FrameAction :=
  match hdr.opcode with
  | .hClose => .close (if 2 ≤ payload.length then payload else [])
  | .hPing => .pong payload
  | .hPong => .skip
  | .hText => appendFragment maxMessageSize hdr.fin [] .hText payload
  | .hBinary => appendFragment maxMessageSize hdr.fin [] .hBinary payload
  | .hContinuation => appendFragment maxMessageSize hdr.fin fragmentBuf fragmentOpcode payload
  | .unknown _ => .close (buildClosePayload .hProtocolError (bytes "Unknown opcode"))

def refuse (s : WebSocketSession) (reply : Bytes) : WebSocketSession :=
  { s.replyClose reply with isOpen := false }

/-- One turn of the loop in `receiveBatch`: it goes on, or returns whether the connection lives. -/
inductive Turn where
  | again (s : WebSocketSession) (out : List WsMessage) (framesInBatch : Nat)
  | stop (alive : Bool) (s : WebSocketSession) (out : List WsMessage)

/-- Wait for `n` bytes, unless there are messages to hand over first. -/
def await (s : WebSocketSession) (out : List WsMessage) (framesInBatch n : Nat) : Turn :=
  if out ≠ [] then .stop true s out
  else
    match s.ensureBytes n with
    | (true, s) => .again s out framesInBatch
    | (false, s) => .stop false { s with isOpen := false } out

def receiveTurn (s : WebSocketSession) (out : List WsMessage) (framesInBatch : Nat) : Turn :=
  if kMaxFramesPerBatch ≤ framesInBatch then .stop true s out
  else if s.readBuf.length < 2 then s.await out framesInBatch 2
  else
    match parseWsFrameHeader s.readBuf with
    | none => s.await out framesInBatch (s.readBuf.length + 1)
    | some hdr =>
      match headerError s.maxMessageSize hdr with
      | some reply => .stop false (s.refuse reply) out
      | none =>
        if s.readBuf.length < hdr.frameSize then s.await out framesInBatch hdr.frameSize
        else
          match frameAction s.maxMessageSize s.fragmentBuf s.fragmentOpcode hdr
            (framePayload hdr s.readBuf) with
          | .close reply =>
            let s := s.refuse reply
            .stop false (if hdr.opcode = .hClose then s.consumeBytes hdr.frameSize else s) out
          | .pong payload =>
            .again ((s.queueFrame .hPong payload).consumeBytes hdr.frameSize) out
              (framesInBatch + 1)
          | .skip => .again (s.consumeBytes hdr.frameSize) out (framesInBatch + 1)
          | .data buf opcode message =>
            .again ({ s with fragmentBuf := buf, fragmentOpcode := opcode }.consumeBytes
              hdr.frameSize) (out ++ message.toList) (framesInBatch + 1)

def receiveLoop : Nat → WebSocketSession → List WsMessage → Nat →
    Option (Bool × WebSocketSession × List WsMessage)
  | 0, _, _, _ => none
  | fuel + 1, s, out, framesInBatch =>
    match s.receiveTurn out framesInBatch with
    | .again s out framesInBatch => receiveLoop fuel s out framesInBatch
    | .stop alive s out => some (alive, s, out)

/-- Every byte is read once and decoded once, so this many turns are enough. -/
def turns (s : WebSocketSession) : Nat := 2 * s.inbox.flatten.length + s.readBuf.length + 1

def receiveBatch (s : WebSocketSession) : Option (Bool × WebSocketSession × List WsMessage) :=
  receiveLoop s.turns s [] 0

end WebSocketSession

/-- What a message callback does: it replies, it may close the session, it may throw. -/
structure Reaction (υ : Type) where
  user : υ
  replies : List (WsOpcode × Bytes)
  closes : Bool
  throws : Bool

namespace WebSocketSession

def react (s : WebSocketSession) (r : Reaction υ) : WebSocketSession :=
  let s := r.replies.foldl (fun s reply => (s.sendFrame reply.1 reply.2).2) s
  if r.closes then s.close else s

/-- The callbacks of one batch, in order; a callback that throws ends the rest. -/
def deliver (onMessage : υ → WsMessage → Reaction υ) :
    List WsMessage → υ → WebSocketSession → List WsMessage →
      Bool × υ × WebSocketSession × List WsMessage
  | [], u, s, seen => (true, u, s, seen)
  | msg :: batch, u, s, seen =>
    let r := onMessage u msg
    if r.throws then (false, r.user, s.react r, seen ++ [msg])
    else deliver onMessage batch r.user (s.react r) (seen ++ [msg])

/-- The message loop of `handleWebSocket`: the session at its end, and the messages that were
passed to the callback. -/
def messageLoop (onMessage : υ → WsMessage → Reaction υ) :
    Nat → υ → WebSocketSession → List WsMessage → Option (WebSocketSession × List WsMessage)
  | 0, _, _, _ => none
  | fuel + 1, u, s, seen =>
    if s.isOpen && s.socketOpen then
      match s.receiveBatch with
      | none => none
      | some (alive, s, batch) =>
        let (completed, u, s, seen) := deliver onMessage batch u s.beginBatch seen
        let s := s.endBatch
        if completed && alive then messageLoop onMessage fuel u s seen else some (s, seen)
    else some (s, seen)

/-- The messages passed to the callback and the close payload recorded in a whole session. -/
def handleWebSocket (onMessage : υ → WsMessage → Reaction υ) (u : υ) (s : WebSocketSession) :
    Option (List WsMessage × Option Bytes) :=
  (messageLoop onMessage (s.turns + 1) u s []).map fun r => (r.2, r.1.recordedClose)

end WebSocketSession

end Hical
