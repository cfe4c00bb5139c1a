import Hical.Bytes
import Hical.Http2.Budget
import Hical.Http2.Codec
import Mathlib.Data.Finset.Basic

namespace Hical.Http2

namespace FrameType

def hData : UInt8 := 0

def hHeaders : UInt8 := 1

def hPushPromise : UInt8 := 5

def hContinuation : UInt8 := 9

end FrameType

def kEndStream : UInt8 := 0x01

def kEndHeaders : UInt8 := 0x04

def kFrameHeaderBytes : Nat := 9

def kClientPrefaceBytes : Nat := 24

/-- How far `Http2Output::Impl` got in the output that was acknowledged. Of `frameHeader` only the
first `headerUsed` octets are kept. -/
@[ext] structure Acknowledged where
  prefaceRemaining : Nat
  frameHeader : Bytes := []
  payloadRemaining : Nat := 0
  continuedEndStream : Int := 0
  header_le : frameHeader.length ≤ kFrameHeaderBytes := by decide
  payload_pos : frameHeader.length = kFrameHeaderBytes → 0 < payloadRemaining := by decide

def framePayloadLength (header : Bytes) : Nat :=
  (header.getD 0 0).toNat <<< 16 ||| (header.getD 1 0).toNat <<< 8 ||| (header.getD 2 0).toNat

def headerStreamId (header : Bytes) : Int :=
  ((header.getD 5 0 &&& 0x7f).toNat <<< 24 ||| (header.getD 6 0).toNat <<< 16
    ||| (header.getD 7 0).toNat <<< 8 ||| (header.getD 8 0).toNat : Nat)

namespace Acknowledged

/-- What `frameComplete` does behind a frame with this header to `continuedEndStream` and to the
list of ended streams. -/
def frameComplete (pendingEnds : Finset Int) (header : Bytes) (continuedEndStream : Int)
    (ended : List Int) : Int × List Int :=
  let type := header.getD 3 0
  let flags := header.getD 4 0
  let id := headerStreamId header
  let pushed := if id ∈ pendingEnds then ended ++ [id] else ended
  if type = FrameType.hHeaders ∧ flags &&& kEndStream ≠ 0 then
    if flags &&& kEndHeaders ≠ 0 then (continuedEndStream, pushed) else (id, ended)
  else if type = FrameType.hContinuation ∧ flags &&& kEndHeaders ≠ 0 ∧ continuedEndStream = id then
    (0, pushed)
  else if type = FrameType.hData ∧ flags &&& kEndStream ≠ 0 then (continuedEndStream, pushed)
  else (continuedEndStream, ended)

/-- The place behind a frame. -/
def between (prefaceRemaining : Nat) (continuedEndStream : Int) : Acknowledged :=
  { prefaceRemaining, continuedEndStream }

def parseAcknowledged (pendingEnds : Finset Int) (p : Acknowledged) (bytes : Bytes)
    (ended : List Int) : Acknowledged × List Int :=
  if hb : bytes.length = 0 then (p, ended)
  else if hp : p.prefaceRemaining ≠ 0 then
    let count := min p.prefaceRemaining bytes.length
    parseAcknowledged pendingEnds { p with prefaceRemaining := p.prefaceRemaining - count }
      (bytes.drop count) ended
  else if hh : p.frameHeader.length < kFrameHeaderBytes then
    let count := min (kFrameHeaderBytes - p.frameHeader.length) bytes.length
    let header := p.frameHeader ++ bytes.take count
    if hf : header.length = kFrameHeaderBytes then
      if h0 : framePayloadLength header = 0 then
        let completed := frameComplete pendingEnds header p.continuedEndStream ended
        parseAcknowledged pendingEnds (between 0 completed.1) (bytes.drop count) completed.2
      else
        parseAcknowledged pendingEnds
          { p with
            frameHeader := header
            payloadRemaining := framePayloadLength header
            header_le := hf.le
            payload_pos := fun _ => Nat.pos_of_ne_zero h0 }
          (bytes.drop count) ended
    else
      parseAcknowledged pendingEnds
        { p with
          frameHeader := header
          header_le := by simp only [header, count, List.length_append, List.length_take]; omega
          payload_pos := fun h => absurd h hf }
        (bytes.drop count) ended
  else
    let count := min p.payloadRemaining bytes.length
    if h0 : p.payloadRemaining - count = 0 then
      let completed := frameComplete pendingEnds p.frameHeader p.continuedEndStream ended
      parseAcknowledged pendingEnds (between 0 completed.1) (bytes.drop count) completed.2
    else
      parseAcknowledged pendingEnds
        { p with
          payloadRemaining := p.payloadRemaining - count
          payload_pos := fun _ => Nat.pos_of_ne_zero h0 }
        (bytes.drop count) ended
termination_by bytes.length
decreasing_by
  all_goals
    have := p.header_le
    have := p.payload_pos
    simp only [List.length_drop]
    omega

end Acknowledged

/-- `Http2Output`, as far as the ends of streams go. -/
structure Output where
  closed : Bool := false
  pendingEnds : Finset Int := ∅
  batch : Bytes := []
  offset : Nat := 0
  parser : Acknowledged
  offset_le : offset ≤ batch.length := by decide

structure AckResult where
  endedStreams : List Int := []
  error : NetworkError := {}

namespace Output

theorem front_le (batch : Bytes) : 0 ≤ batch.length := Nat.zero_le _

/-- What the other calls do to the streams whose end is awaited. -/
inductive Change where
  /-- `submitRequest`, `submitResponse` or `submitResponseHeaders`, when the codec took it. -/
  | submit (streamId : Int)
  /-- `cancelStream`, `onStreamClose` with an error or `Producer::cancel`. -/
  | cancel (streamId : Int)
  | close

def start (role : Role) : Output :=
  { parser := .between (if role = .hClient then kClientPrefaceBytes else 0) 0 }

def change (s : Output) : Change → Output
  | .submit streamId =>
    if s.closed then s else { s with pendingEnds := insert streamId s.pendingEnds }
  | .cancel streamId => { s with pendingEnds := s.pendingEnds.erase streamId }
  | .close => if s.closed then s else { s with closed := true, pendingEnds := ∅ }

def changes (s : Output) (cs : List Change) : Output := cs.foldl change s

/-- `nextBatch`, with what the callbacks of `memSend` do and what it gives. -/
def nextBatch (s : Output) (during : List Change) (sent : Except NetworkError Bytes) : Output :=
  if s.closed then s
  else if s.offset < s.batch.length then s
  else
    match sent with
    | .error _ => (s.changes during).change .close
    | .ok bytes => { s.changes during with batch := bytes, offset := 0, offset_le := front_le bytes }

/-- The octets of the batch that were not written yet. -/
def remaining (s : Output) : Bytes := s.batch.drop s.offset

def acknowledge (s : Output) (bytesWritten : Nat) : Output × AckResult :=
  if h : s.batch.length - s.offset < bytesWritten then
    (s, { error := ⟨.hInvalidConfiguration, "HTTP/2 写确认超过当前批次", none⟩ })
  else
    let parsed :=
      if s.closed then (s.parser, [])
      else s.parser.parseAcknowledged s.pendingEnds (s.remaining.take bytesWritten) []
    let s' :=
      { s with
        parser := parsed.1
        pendingEnds := parsed.2.foldl Finset.erase s.pendingEnds
        offset := s.offset + bytesWritten
        offset_le := by have := s.offset_le; omega }
    (if s.offset + bytesWritten = s.batch.length then
        { s' with batch := [], offset := 0, offset_le := Nat.le_refl _ }
      else s', { endedStreams := parsed.2 })

end Output

end Hical.Http2
