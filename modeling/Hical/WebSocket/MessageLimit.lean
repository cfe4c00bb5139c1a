import Hical.WebSocket.Negotiation
import Hical.WebSocket.Receive

namespace Hical

/-- The codes that the calls of zlib return. -/
inductive ZCode where
  | ok
  | streamEnd
  | needDict
  | streamError
  | dataError
  | memError
  | bufError
  deriving DecidableEq, Repr

/-- What one call on a stream comes to: how much of the input it took and what it put out. -/
structure ZCall (σ : Type) where
  code : ZCode
  consumed : Nat
  output : Bytes
  stream : σ

/-- Inflation as zlib offers it, for input and room of any size. -/
structure Inflate (σ : Type) where
  inflate : σ → Bytes → Nat → ZCall σ
  inflateReset : σ → σ
  output_le : ∀ s input room, (inflate s input room).output.length ≤ room

/-- Deflation as zlib offers it, with `Z_SYNC_FLUSH` in every call. -/
structure Deflate (δ : Type) where
  deflate : δ → Bytes → Nat → ZCall δ
  deflateReset : δ → δ
  deflateBound : δ → Nat → Nat
  output_le : ∀ s input room, (deflate s input room).output.length ≤ room

/-- A compression context with its two streams. -/
structure WsDeflateContext (δ σ : Type) where
  config : WsDeflateConfig
  deflateStream : δ
  inflateStream : σ

namespace WsDeflateContext

def kSyncMarker : Bytes := [0, 0, 255, 255]

def kChunkSize : Nat := 4096

def uInt (n : Nat) : Nat := n % 2 ^ 32

def stripMarker (output : Bytes) : Bytes :=
  if 4 ≤ output.length ∧ output.drop (output.length - 4) = kSyncMarker then output.take (output.length - 4)
  else output

def deflateStart (z : Deflate δ) (ctx : WsDeflateContext δ σ) : δ :=
  if ctx.config.serverNoContextTakeover then z.deflateReset ctx.deflateStream else ctx.deflateStream

/-- The compressed message, or nothing where the call throws. -/
def compress (z : Deflate δ) (ctx : WsDeflateContext δ σ) (input : Bytes) : Option Bytes × WsDeflateContext δ σ :=
  let s := ctx.deflateStart z
  let size := z.deflateBound s input.length
  let call := z.deflate s (input.take (uInt input.length)) (uInt size)
  let ctx := { ctx with deflateStream := call.stream }
  if call.code = .ok then
    (some (stripMarker (call.output ++ List.replicate (size - uInt size) 0)), ctx)
  else (none, ctx)

/-- The loop of `decompress` with the size of its buffer and what it has produced: it throws or it returns the
message, unless the fuel is short. Room that is cut off by `uInt` counts as produced. -/
def inflateLoop (z : Inflate σ) (maxOutputSize : Nat) : Nat → σ → Bytes → Nat → Bytes → Option (Option Bytes × σ)
  | 0, _, _, _, _ => none
  | fuel + 1, s, input, size, output =>
    let size := if size ≤ output.length then size * 2 else size
    if 0 < maxOutputSize ∧ maxOutputSize < output.length then some (none, s)
    else
      let room := uInt (size - output.length)
      let call := z.inflate s input room
      let availOut := room - call.output.length
      let rest := input.drop call.consumed
      let output := output ++ call.output ++ List.replicate (size - output.length - room) 0
      if call.code = .streamEnd ∨ (call.code = .ok ∧ rest = [] ∧ 0 < availOut) then
        some (some output, call.stream)
      else if call.code = .ok ∧ availOut = 0 then inflateLoop z maxOutputSize fuel call.stream rest size output
      else if call.code = .bufError ∧ availOut = 0 then
        inflateLoop z maxOutputSize fuel call.stream rest size output
      else some (none, call.stream)

def inflateStart (z : Inflate σ) (ctx : WsDeflateContext δ σ) : σ :=
  if ctx.config.clientNoContextTakeover then z.inflateReset ctx.inflateStream else ctx.inflateStream

/-- What the calls of inflate are given for a message. -/
def withSync (input : Bytes) : Bytes :=
  let inputWithSync := input ++ kSyncMarker
  inputWithSync.take (uInt inputWithSync.length)

def decompressWith (z : Inflate σ) (fuel : Nat) (ctx : WsDeflateContext δ σ) (input : Bytes) (maxOutputSize : Nat) :
    Option (Option Bytes × WsDeflateContext δ σ) :=
  (inflateLoop z maxOutputSize fuel (ctx.inflateStart z) (withSync input) kChunkSize []).map fun res =>
    (res.1, { ctx with inflateStream := res.2 })

/-- The message, or nothing where the call throws; with a limit the turns are enough. -/
def decompress (z : Inflate σ) (ctx : WsDeflateContext δ σ) (input : Bytes) (maxOutputSize : Nat) :
    Option Bytes × WsDeflateContext δ σ :=
  (ctx.decompressWith z (maxOutputSize + 2) input maxOutputSize).getD (none, ctx)

end WsDeflateContext

namespace WebSocketSession

/-- A frame sent with its first reserved bit as told, and whether it was written. -/
def sendFrameWith (s : WebSocketSession) (opcode : WsOpcode) (payload : Bytes) (fin rsv1 : Bool) :
    Bool × WebSocketSession :=
  if s.batching then
    let s := { s with writeBatch := s.writeBatch ++ encodeFrame opcode payload fin rsv1 }
    (true, if kWriteBatchBytes ≤ s.writeBatch.length then s.writeBatchLocked else s)
  else s.asyncWrite (encodeFrame opcode payload fin rsv1)

end WebSocketSession

namespace WsReceiver
variable {D : Type}

/-- `send` and `sendBinary`: whether the message was written, unless compression throws. -/
def sendMessage (compress : D → Bytes → Option Bytes × D) (r : WsReceiver D) (opcode : WsOpcode) (msg : Bytes) :
    Option Bool × WsReceiver D :=
  match r.deflateCtx with
  | none =>
    let (written, s) := r.session.sendFrame opcode msg
    (some written, { r with session := s })
  | some ctx =>
    match compress ctx msg with
    | (none, ctx) => (none, { r with deflateCtx := some ctx })
    | (some compressed, ctx) =>
      let (written, s) := r.session.sendFrameWith opcode compressed true true
      (some written, { r with session := s, deflateCtx := some ctx })

end WsReceiver

namespace WsDeflateContext

/-- The size of the buffer in a call that begins with so many bytes: the first buffer, or a full one doubled. -/
def bufferSize (held : Nat) : Nat := if held = 0 then kChunkSize else held * 2

def roomAt (held : Nat) : Nat := uInt (bufferSize held - held)

theorem lt_bufferSize (held : Nat) : held < bufferSize held := by
  rw [bufferSize]
  split
  · next h =>
    rw [h]
    decide
  · omega

theorem roomAt_le (held : Nat) : roomAt held ≤ bufferSize held - held := Nat.mod_le ..

end WsDeflateContext

open WsDeflateContext

def ZCall.Ends (call : ZCall σ) (input : Bytes) (room : Nat) : Prop :=
  call.code = .streamEnd ∨ (call.code = .ok ∧ input.drop call.consumed = [] ∧ call.output.length < room)

def ZCall.Fills (call : ZCall σ) (room : Nat) : Prop :=
  (call.code = .ok ∨ call.code = .bufError) ∧ call.output.length = room

/-- With `held` bytes of the message out, each next call fills its room until one ends the message; that one
begins with `first` bytes out and leaves `last`. -/
inductive Inflate.Ends (z : Inflate σ) : σ → Bytes → Nat → Nat → Nat → Prop
  | now (h : (z.inflate s input (roomAt held)).Ends input (roomAt held)) :
    Ends z s input held held
      (bufferSize held - (roomAt held - (z.inflate s input (roomAt held)).output.length))
  | later (h : ¬ (z.inflate s input (roomAt held)).Ends input (roomAt held))
    (hfills : (z.inflate s input (roomAt held)).Fills (roomAt held))
    (hends : Ends z (z.inflate s input (roomAt held)).stream
      (input.drop (z.inflate s input (roomAt held)).consumed) (bufferSize held) first last) :
    Ends z s input held first last

/-- The message ends in a call that begins within the limit and goes beyond it. -/
def Inflate.Overshoots (z : Inflate σ) (limit : Nat) (s : σ) (input : Bytes) : Prop :=
  ∃ first last, z.Ends s input 0 first last ∧ first ≤ limit ∧ limit < last

theorem Inflate.Ends.held_le {z : Inflate σ} (h : z.Ends s input held first last) : held ≤ first := by
  induction h with
  | now => exact Nat.le_refl _
  | later _ _ _ ih => exact Nat.le_trans (Nat.le_of_lt (lt_bufferSize _)) ih

namespace WsDeflateContext

theorem length_held {output more : Bytes} (hmore : more.length ≤ roomAt output.length) :
    (output ++ more ++ List.replicate (bufferSize output.length - output.length - roomAt output.length) 0).length =
      bufferSize output.length - (roomAt output.length - more.length) := by
  have hroom := roomAt_le output.length
  have hgrows := lt_bufferSize output.length
  rw [List.length_append, List.length_append, List.length_replicate]
  omega

/-- The loop ends; it returns what the calls of inflate leave unless the last of them begins beyond the limit. -/
theorem inflateLoop_spec (z : Inflate σ) (hlimit : 0 < limit) (fuel : Nat) (s : σ) (input : Bytes) (size : Nat)
    (output : Bytes) (hsize : (if size ≤ output.length then size * 2 else size) = bufferSize output.length)
    (hpos : 0 < fuel) (hfuel : limit + 2 ≤ fuel + output.length) :
    ∃ res s', inflateLoop z limit fuel s input size output = some (res, s') ∧ ∀ last,
      (∃ out, res = some out ∧ out.length = last) ↔ ∃ first ≤ limit, z.Ends s input output.length first last := by
  induction fuel generalizing s input size output with
  | zero => exact absurd hpos (Nat.lt_irrefl 0)
  | succ fuel ih =>
    have hgrows : output.length < bufferSize output.length := lt_bufferSize _
    have hroom : uInt (bufferSize output.length - output.length) = roomAt output.length := rfl
    rw [inflateLoop]
    dsimp only
    rw [hsize, hroom]
    have hout : (z.inflate s input (roomAt output.length)).output.length ≤ roomAt output.length := z.output_le ..
    have hlength := length_held hout
    by_cases hover : limit < output.length
    · rw [if_pos ⟨hlimit, hover⟩]
      refine ⟨none, s, rfl, fun last => ⟨?_, ?_⟩⟩
      · rintro ⟨out, h, -⟩
        cases h
      · rintro ⟨first, hfirst, hends⟩
        have := hends.held_le
        omega
    · rw [if_neg (fun h => hover h.2)]
      by_cases hends : (z.inflate s input (roomAt output.length)).Ends input (roomAt output.length)
      · rw [if_pos (by rwa [ZCall.Ends, ← Nat.sub_pos_iff_lt] at hends)]
        refine ⟨_, _, rfl, fun last => ⟨?_, ?_⟩⟩
        · rintro ⟨out, h, rfl⟩
          cases h
          rw [hlength]
          exact ⟨output.length, Nat.le_of_not_lt hover, .now hends⟩
        · rintro ⟨first, hfirst, h⟩
          cases h with
          | now => exact ⟨_, rfl, hlength⟩
          | later hnot => exact absurd hends hnot
      · rw [if_neg (by rwa [ZCall.Ends, ← Nat.sub_pos_iff_lt] at hends)]
        by_cases hfills : (z.inflate s input (roomAt output.length)).Fills (roomAt output.length)
        · have hfull : roomAt output.length - (z.inflate s input (roomAt output.length)).output.length = 0 :=
            Nat.sub_eq_zero_of_le (Nat.le_of_eq hfills.2.symm)
          rw [hfull, Nat.sub_zero] at hlength
          obtain ⟨res, s', hloop, hspec⟩ := ih (z.inflate s input (roomAt output.length)).stream
            (input.drop (z.inflate s input (roomAt output.length)).consumed) (bufferSize output.length) _
            (by rw [hlength, if_pos (Nat.le_refl _), bufferSize.eq_1 (bufferSize _), if_neg (by omega)])
            (by omega) (by rw [hlength]; omega)
          refine ⟨res, s', ?_, fun last => (hspec last).trans ?_⟩
          · rw [hfull]
            rcases hfills.1 with hcode | hcode
            · rw [if_pos ⟨hcode, rfl⟩]
              exact hloop
            · rw [if_neg (by simp [hcode]), if_pos ⟨hcode, rfl⟩]
              exact hloop
          · rw [hlength]
            apply exists_congr
            intro first
            apply and_congr_right
            intro _
            constructor
            · exact .later hends hfills
            · intro h
              cases h with
              | now h => exact absurd h hends
              | later _ _ h => exact h
        · have hleft : ∀ code, (z.inflate s input (roomAt output.length)).code = code → code = .ok ∨ code = .bufError →
              roomAt output.length - (z.inflate s input (roomAt output.length)).output.length ≠ 0 := by
            intro code hcode hor hzero
            apply hfills
            rw [ZCall.Fills, hcode]
            exact ⟨hor, by omega⟩
          rw [if_neg (fun h => hleft _ h.1 (.inl rfl) h.2), if_neg (fun h => hleft _ h.1 (.inr rfl) h.2)]
          refine ⟨none, _, rfl, fun last => ⟨?_, ?_⟩⟩
          · rintro ⟨out, h, -⟩
            cases h
          · rintro ⟨first, -, h⟩
            cases h with
            | now h => exact absurd h hends
            | later _ h => exact absurd h hfills

theorem decompressWith_spec (z : Inflate σ) (ctx : WsDeflateContext δ σ) (input : Bytes) (hlimit : 0 < limit)
    (hfuel : limit + 2 ≤ fuel) :
    ∃ res ctx', ctx.decompressWith z fuel input limit = some (res, ctx') ∧
      ((∀ out, res = some out → out.length ≤ limit) ↔
        ¬ z.Overshoots limit (ctx.inflateStart z) (withSync input)) := by
  obtain ⟨res, s', hloop, hspec⟩ := inflateLoop_spec z hlimit fuel (ctx.inflateStart z) (withSync input)
    kChunkSize [] rfl (by omega) (by simpa using hfuel)
  refine ⟨res, _, by rw [decompressWith, hloop]; rfl, ?_⟩
  rw [← not_iff_not, not_not]
  constructor
  · intro h
    simp only [not_forall] at h
    obtain ⟨out, hres, hlong⟩ := h
    obtain ⟨first, hfirst, hends⟩ := (hspec out.length).1 ⟨out, hres, rfl⟩
    exact ⟨first, _, hends, hfirst, Nat.lt_of_not_le hlong⟩
  · rintro ⟨first, last, hends, hfirst, hlast⟩ h
    obtain ⟨out, hres, hlength⟩ := (hspec last).2 ⟨first, hfirst, hends⟩
    have := h out hres
    omega

end WsDeflateContext

namespace WebSocketSession

theorem endBatch_maxMessageSize (s : WebSocketSession) : s.endBatch.maxMessageSize = s.maxMessageSize := by
  have hleave := (leaveBatch_wrote s).maxMessageSize
  rw [endBatch]
  split
  · exact hleave
  · exact (sendFrame_wrote _ _ _).maxMessageSize.trans hleave

theorem sendFrameWith_maxMessageSize (s : WebSocketSession) (opcode : WsOpcode) (payload : Bytes)
    (fin rsv1 : Bool) : (s.sendFrameWith opcode payload fin rsv1).2.maxMessageSize = s.maxMessageSize := by
  rw [sendFrameWith]
  split
  · dsimp only
    split
    · exact (writeBatchLocked_wrote _).maxMessageSize
    · rfl
  · rw [asyncWrite]
    split
    · rfl
    · rfl

end WebSocketSession

namespace WsReceiver
variable {D : Type}

/-- A context that remembers the calls of `decompress` made on it. -/
abbrev Logged (D : Type) := D × List (D × Bytes × Nat)

def logged (decompress : D → Bytes → Nat → Option Bytes × D) (ctx : Logged D) (data : Bytes) (limit : Nat) :
    Option Bytes × Logged D :=
  let (res, d) := decompress ctx.1 data limit
  (res, d, ctx.2 ++ [(ctx.1, data, limit)])

def kept (compress : D → Bytes → Option Bytes × D) (ctx : Logged D) (msg : Bytes) : Option Bytes × Logged D :=
  let (res, d) := compress ctx.1 msg
  (res, d, ctx.2)

def log (r : WsReceiver (Logged D)) : List (D × Bytes × Nat) :=
  match r.deflateCtx with
  | none => []
  | some ctx => ctx.2

/-- What is done with a session. -/
inductive Use where
  | receive (atEnd : Bool)
  | receiveMessage (atEnd : Bool)
  | receiveBatch (atEnd : Bool)
  | send (opcode : WsOpcode) (msg : Bytes)
  | sendPing (payload : Bytes)
  | beginBatch
  | endBatch
  | close

section Use
variable (compress : D → Bytes → Option Bytes × D) (decompress : D → Bytes → Nat → Option Bytes × D)

/-- A session with the messages that were handed to the application. -/
def use (state : WsReceiver D × List Bytes) : Use → WsReceiver D × List Bytes
  | .receive atEnd =>
    match state.1.receive decompress atEnd with
    | some (.message data, r) => (r, state.2 ++ [data])
    | some (_, r) => (r, state.2)
    | none => state
  | .receiveMessage atEnd =>
    match state.1.receiveMessage decompress atEnd with
    | some (.message msg, r) => (r, state.2 ++ [msg.data])
    | some (_, r) => (r, state.2)
    | none => state
  | .receiveBatch atEnd =>
    match receiveBatch decompress atEnd state.1 with
    | some (.done _ r batch) => (r, state.2 ++ batch.map (·.data))
    | some (.thrown r _) => (r, state.2)
    | none => state
  | .send opcode msg => ((state.1.sendMessage compress opcode msg).2, state.2)
  | .sendPing payload =>
    ({ state.1 with session := (state.1.session.sendFrame .hPing (payload.take 125)).2 }, state.2)
  | .beginBatch => ({ state.1 with session := state.1.session.beginBatch }, state.2)
  | .endBatch => ({ state.1 with session := state.1.session.endBatch }, state.2)
  | .close => ({ state.1 with session := state.1.session.close }, state.2)

end Use

section Limit
open WebSocketSession
variable (Over : D → Bytes → Nat → Prop) {compress : D → Bytes → Option Bytes × D}
  {decompress : D → Bytes → Nat → Option Bytes × D} {atEnd : Bool} {r r' r'' : WsReceiver (Logged D)}
  {new more out : List WsMessage}

def Within (r : WsReceiver (Logged D)) : Prop := ∀ call ∈ r.log, ¬ Over call.1 call.2.1 call.2.2

/-- The session has added these messages, which are as short as its limit while no call goes over. -/
structure Grows (r r' : WsReceiver (Logged D)) (new : List WsMessage) : Prop where
  maxMessageSize : r'.session.maxMessageSize = r.session.maxMessageSize
  pending : r'.pending = r.pending
  within : Within Over r' → Within Over r
  sized : Within Over r' → ∀ msg ∈ new, msg.data.length ≤ r.session.maxMessageSize

variable {Over}

theorem Grows.same (hmax : r'.session.maxMessageSize = r.session.maxMessageSize) (hpending : r'.pending = r.pending)
    (hctx : r'.deflateCtx = r.deflateCtx) : Grows Over r r' [] := by
  refine ⟨hmax, hpending, ?_, fun _ msg h => (nomatch h)⟩
  rw [Within, Within, log, log, hctx]
  exact id

theorem Grows.trans (h : Grows Over r r' new) (h' : Grows Over r' r'' more) :
    Grows Over r r'' (new ++ more) := by
  refine ⟨h'.maxMessageSize.trans h.maxMessageSize, h'.pending.trans h.pending, fun hw => h.within (h'.within hw),
    fun hw msg hm => ?_⟩
  rcases List.mem_append.1 hm with hm | hm
  · exact h.sized (h'.within hw) msg hm
  · rw [← h.maxMessageSize]
    exact h'.sized hw msg hm

theorem appendFragment_sized (h : appendFragment limit fin buf opcode payload = .data buf' opcode' (some msg)) :
    msg.data.length ≤ limit := by
  rw [appendFragment] at h
  split at h
  · cases h
  · next hle =>
    split at h
    · cases h
      exact Nat.le_of_not_lt hle
    · cases h

theorem frameAction_sized (h : frameAction limit buf opcode hdr payload = .data buf' opcode' (some msg)) :
    msg.data.length ≤ limit := by
  rw [frameAction] at h
  split at h
  · cases h
  · cases h
  · cases h
  · exact appendFragment_sized h
  · exact appendFragment_sized h
  · exact appendFragment_sized h
  · cases h

variable (Over) in
def TurnGrows (r : WsReceiver (Logged D)) (out : List WsMessage) : Turn (Logged D) → Prop
  | .again r' out' _ => ∃ new, out' = out ++ new ∧ Grows Over r r' new
  | .stop _ r' out' => out' = out ∧ Grows Over r r' []
  | .thrown r' out' => out' = out ∧ Grows Over r r' []

theorem await_grows (hn : r.session.readBuf.length < n) (k : Nat) :
    TurnGrows Over r out (r.await atEnd out k n) := by
  rw [await]
  split
  · exact ⟨rfl, .same rfl rfl rfl⟩
  · split
    · next s he => exact ⟨[], (List.append_nil out).symm, .same (ensureBytes_spec he hn).1.maxMessageSize rfl rfl⟩
    · next s he =>
      have hs : s.maxMessageSize = r.session.maxMessageSize := (ensureBytes_spec he hn).1.maxMessageSize
      dsimp only
      split
      · exact ⟨rfl, .same hs rfl rfl⟩
      · exact ⟨rfl, .same hs rfl rfl⟩

section Sized
variable (hover : ∀ ctx data limit, 0 < limit → ¬ Over ctx data limit →
  ∀ out, (decompress ctx data limit).1 = some out → out.length ≤ limit)
include hover

theorem complete_grows (hlimit : 0 < r.session.maxMessageSize) (hmsg : msg.data.length ≤ r.session.maxMessageSize) :
    Grows Over r (r.complete (logged decompress) msg).2 ((r.complete (logged decompress) msg).1.getD []) := by
  have hplain : Grows Over r r [msg] := by
    refine ⟨rfl, rfl, id, fun _ m hm => ?_⟩
    rw [List.mem_singleton.1 hm]
    exact hmsg
  cases hctx : r.deflateCtx with
  | none =>
    simp only [complete, hctx]
    exact hplain
  | some ctx =>
    by_cases hcompressed : r.fragmentCompressed = true
    · have hlog : r.log = ctx.2 := by rw [log, hctx]
      simp only [complete, hctx, hcompressed, if_true, logged]
      cases hres : (decompress ctx.1 msg.data r.session.maxMessageSize).1 with
      | none =>
        refine ⟨rfl, rfl, fun hw call hcall => ?_, fun _ m hm => (by cases hm)⟩
        apply hw call
        rw [hlog] at hcall
        exact List.mem_append_left _ hcall
      | some data =>
        refine ⟨rfl, rfl, fun hw call hcall => ?_, fun hw m hm => ?_⟩
        · apply hw call
          rw [hlog] at hcall
          exact List.mem_append_left _ hcall
        · rw [Option.getD_some, List.mem_singleton] at hm
          rw [hm]
          exact hover _ _ _ hlimit (hw _ (List.mem_append_right _ (List.mem_singleton.2 rfl))) data hres
    · simp only [complete, hctx, hcompressed]
      exact hplain

theorem receiveTurn_grows (hlimit : 0 < r.session.maxMessageSize) (k : Nat) :
    TurnGrows Over r out (r.receiveTurn (logged decompress) atEnd out k) := by
  rw [receiveTurn]
  dsimp only
  split
  · exact ⟨rfl, .same rfl rfl rfl⟩
  · split
    · next hl => exact await_grows hl k
    · split
      · exact await_grows (Nat.lt_succ_self _) k
      · next hdr hp =>
        split
        · exact ⟨rfl, .same rfl rfl rfl⟩
        · split
          · next hl => exact await_grows hl k
          · cases ha : frameAction r.session.maxMessageSize r.session.fragmentBuf r.session.fragmentOpcode hdr
                (framePayload hdr r.session.readBuf) with
            | close reply =>
              refine ⟨rfl, .same ?_ rfl rfl⟩
              dsimp only
              split
              · rfl
              · rfl
            | pong payload =>
              exact ⟨[], (List.append_nil out).symm,
                .same (queueFrame_wrote r.session .hPong payload).maxMessageSize rfl rfl⟩
            | skip => exact ⟨[], (List.append_nil out).symm, .same rfl rfl rfl⟩
            | data buf opcode message =>
              cases message with
              | none => exact ⟨[], rfl, .same rfl rfl rfl⟩
              | some msg =>
                have hjoin : Grows Over r (r.joinFragment hdr buf opcode) [] := .same rfl rfl rfl
                have hgrows := hjoin.trans (complete_grows hover (r := r.joinFragment hdr buf opcode) hlimit
                  (frameAction_sized ha))
                dsimp only [appendData]
                cases hc : (r.joinFragment hdr buf opcode).complete (logged decompress) msg with
                | mk new r' =>
                  rw [hc] at hgrows
                  cases new with
                  | none => exact ⟨rfl, hgrows⟩
                  | some new => exact ⟨new, rfl, hgrows⟩

theorem receiveLoop_grows (hlimit : 0 < r.session.maxMessageSize) (atEnd : Bool) (out : List WsMessage)
    (fuel k : Nat) :
    match receiveLoop (logged decompress) atEnd fuel r out k with
    | some (.done _ r' out') => ∃ new, out' = out ++ new ∧ Grows Over r r' new
    | some (.thrown r' out') => ∃ new, out' = out ++ new ∧ Grows Over r r' new
    | none => True := by
  induction fuel generalizing r out k with
  | zero => trivial
  | succ fuel ih =>
    have hturn : TurnGrows Over r out (r.receiveTurn (logged decompress) atEnd out k) :=
      receiveTurn_grows hover hlimit k
    rw [receiveLoop]
    cases ht : r.receiveTurn (logged decompress) atEnd out k with
    | again r₁ out₁ k₁ =>
      rw [ht] at hturn
      obtain ⟨new, rfl, hgrows⟩ := hturn
      have hrest := ih (r := r₁) (by rw [hgrows.maxMessageSize]; exact hlimit) (out ++ new) k₁
      dsimp only
      split
      · next hl =>
        rw [hl] at hrest
        obtain ⟨more, rfl, hmore⟩ := hrest
        exact ⟨new ++ more, List.append_assoc .., hgrows.trans hmore⟩
      · next hl =>
        rw [hl] at hrest
        obtain ⟨more, rfl, hmore⟩ := hrest
        exact ⟨new ++ more, List.append_assoc .., hgrows.trans hmore⟩
      · trivial
    | stop alive r₁ out₁ | thrown r₁ out₁ =>
      rw [ht] at hturn
      obtain ⟨rfl, hgrows⟩ := hturn
      exact ⟨[], (List.append_nil _).symm, hgrows⟩

end Sized

section Uses
variable {limit : Nat} {seen : List Bytes}

variable (Over) in
/-- What was handed over and what is pending is within the limit while no call goes over. -/
structure Fits (limit : Nat) (r : WsReceiver (Logged D)) (seen : List Bytes) : Prop where
  maxMessageSize : r.session.maxMessageSize = limit
  seen : Within Over r → ∀ data ∈ seen, data.length ≤ limit
  pending : Within Over r → ∀ msg ∈ r.pending, msg.data.length ≤ limit

theorem Fits.same (h : Fits Over limit r seen) (hmax : r'.session.maxMessageSize = r.session.maxMessageSize)
    (hpending : ∀ msg ∈ r'.pending, msg ∈ r.pending) (hlog : r'.log = r.log) : Fits Over limit r' seen := by
  have hwithin : Within Over r' → Within Over r := by
    rw [Within, Within, hlog]
    exact id
  exact ⟨hmax.trans h.maxMessageSize, fun hw => h.seen (hwithin hw),
    fun hw msg hm => h.pending (hwithin hw) msg (hpending msg hm)⟩

theorem Fits.grows (h : Fits Over limit r seen) (hgrows : Grows Over r r' new) (hpending : ∀ msg ∈ more, msg ∈ new) :
    Fits Over limit { r' with pending := more, pendingPos := 0 } seen :=
  ⟨hgrows.maxMessageSize.trans h.maxMessageSize, fun hw => h.seen (hgrows.within hw),
    fun hw msg hm => h.maxMessageSize ▸ hgrows.sized hw msg (hpending msg hm)⟩

theorem Fits.grown (h : Fits Over limit r seen) (hgrows : Grows Over r r' new) :
    Fits Over limit r' (seen ++ new.map (·.data)) := by
  refine ⟨hgrows.maxMessageSize.trans h.maxMessageSize, fun hw data hm => ?_, fun hw msg hm => ?_⟩
  · rcases List.mem_append.1 hm with hm | hm
    · exact h.seen (hgrows.within hw) data hm
    · obtain ⟨msg, hmsg, rfl⟩ := List.mem_map.1 hm
      rw [← h.maxMessageSize]
      exact hgrows.sized hw msg hmsg
  · rw [hgrows.pending] at hm
    exact h.pending (hgrows.within hw) msg hm

/-- What a call hands over. -/
def Received.data : Received WsMessage → List Bytes
  | .message msg => [msg.data]
  | .nullopt => []
  | .thrown => []

theorem takePending_fits (h : Fits Over limit r seen) :
    Fits Over limit r.takePending.2 (seen ++ r.takePending.1.data) := by
  rw [takePending]
  split
  · rw [Received.data, List.append_nil]
    exact h
  · next msg hmsg =>
    have hmem : msg ∈ r.pending := List.mem_of_getElem? hmsg
    have htaken : Fits Over limit r (seen ++ [msg.data]) := by
      refine ⟨h.maxMessageSize, fun hw data hm => ?_, h.pending⟩
      rcases List.mem_append.1 hm with hm | hm
      · exact h.seen hw data hm
      · rw [List.mem_singleton.1 hm]
        exact h.pending hw msg hmem
    dsimp only [Received.data]
    split
    · exact htaken.same rfl (fun _ hm => (by cases hm)) rfl
    · exact htaken.same rfl (fun _ hm => hm) rfl

theorem taken_fits (h : Fits Over limit r seen) (he : some r.takePending = some (res, r')) :
    Fits Over limit r' (seen ++ res.data) := by
  have hfits := takePending_fits h
  rw [Option.some.inj he] at hfits
  exact hfits

theorem flushWork_maxMessageSize (r : WsReceiver D) :
    r.flushWork.session.maxMessageSize = r.session.maxMessageSize := by
  rw [flushWork]
  split
  · exact endBatch_maxMessageSize _
  · rfl

theorem flushWork_deflateCtx (r : WsReceiver D) : r.flushWork.deflateCtx = r.deflateCtx := by
  rw [flushWork]
  split
  · rfl
  · rfl

theorem sendMessage_keeps (compress : D → Bytes → Option Bytes × D) (r : WsReceiver (Logged D)) (opcode : WsOpcode) (msg : Bytes) :
    (r.sendMessage (kept compress) opcode msg).2.session.maxMessageSize = r.session.maxMessageSize ∧
      (r.sendMessage (kept compress) opcode msg).2.pending = r.pending ∧
      (r.sendMessage (kept compress) opcode msg).2.log = r.log := by
  rw [sendMessage]
  split
  · exact ⟨(sendFrame_wrote _ _ _).maxMessageSize, rfl, rfl⟩
  · next ctx hctx =>
    have hlog : r.log = ctx.2 := by rw [log, hctx]
    rw [hlog]
    split
    · next ctx' hk => exact ⟨rfl, rfl, congrArg (fun res => res.2.2) hk.symm⟩
    · next compressed ctx' hk =>
      exact ⟨sendFrameWith_maxMessageSize .., rfl, congrArg (fun res => res.2.2) hk.symm⟩

section Sized
variable (hover : ∀ ctx data limit, 0 < limit → ¬ Over ctx data limit →
  ∀ out, (decompress ctx data limit).1 = some out → out.length ≤ limit) (hlimit : 0 < limit)
include hover hlimit

theorem receiveInternal_fits (h : Fits Over limit r seen)
    (he : r.receiveInternal (logged decompress) atEnd = some (res, r')) :
    Fits Over limit r' (seen ++ res.data) := by
  rw [receiveInternal] at he
  split at he
  · split at he
    · cases he
      rw [Received.data, List.append_nil]
      exact h
    · have hloop := receiveLoop_grows (r := { r with pending := [], pendingPos := 0 }) hover
        (h.maxMessageSize ▸ hlimit) atEnd [] r.session.turns 0
      have hcleared : Fits Over limit { r with pending := [], pendingPos := 0 } seen :=
        h.same rfl (fun _ hm => (by cases hm)) rfl
      split at he
      · cases he
      · next r₁ out hb =>
        rw [receiveBatch] at hb
        rw [hb] at hloop
        obtain ⟨new, rfl, hgrows⟩ := hloop
        cases he
        rw [Received.data, List.append_nil]
        exact hcleared.grows hgrows fun _ hm => hm
      · next r₁ out hb =>
        rw [receiveBatch] at hb
        rw [hb] at hloop
        obtain ⟨new, rfl, hgrows⟩ := hloop
        have hdone : Fits Over limit { r₁ with pending := out, pendingPos := 0 } seen :=
          hcleared.grows hgrows fun _ hm => hm
        apply taken_fits (hdone.same ?_ ?_ ?_) he
        · exact flushWork_maxMessageSize r₁
        · exact fun _ hm => hm
        · rw [log, log, ← flushWork_deflateCtx r₁]
  · exact taken_fits h he

theorem receiveBatch_fits (h : Fits Over limit r seen)
    (he : receiveBatch (logged decompress) atEnd r = some (.done alive r' batch)) :
    Fits Over limit r' (seen ++ batch.map (·.data)) := by
  have hloop := receiveLoop_grows hover (h.maxMessageSize ▸ hlimit) atEnd [] r.session.turns 0
  rw [receiveBatch] at he
  rw [he] at hloop
  obtain ⟨new, rfl, hgrows⟩ := hloop
  exact h.grown hgrows

theorem use_fits (h : Fits Over limit r seen) (u : Use) :
    Fits Over limit (use (kept compress) (logged decompress) (r, seen) u).1
      (use (kept compress) (logged decompress) (r, seen) u).2 := by
  cases u with
  | receive atEnd =>
    obtain ⟨res, r', he, -⟩ := receiveInternal_ok (logged decompress) atEnd r
    have hfits := receiveInternal_fits hover hlimit h he
    rw [use, receive, he]
    cases res with
    | message msg => exact hfits
    | nullopt | thrown => exact List.append_nil seen ▸ hfits
  | receiveMessage atEnd =>
    obtain ⟨res, r', he, -⟩ := receiveInternal_ok (logged decompress) atEnd r
    have hfits := receiveInternal_fits hover hlimit h he
    rw [use, receiveMessage, he]
    cases res with
    | message msg => exact hfits
    | nullopt | thrown => exact List.append_nil seen ▸ hfits
  | receiveBatch atEnd =>
    have hloop := receiveLoop_grows hover (h.maxMessageSize ▸ hlimit) atEnd [] r.session.turns 0
    rw [use]
    split
    · next he => exact receiveBatch_fits hover hlimit h he
    · next r' out he =>
      dsimp only at he
      rw [receiveBatch] at he
      rw [he] at hloop
      obtain ⟨new, rfl, hgrows⟩ := hloop
      have hgrown := h.grown hgrows
      exact ⟨hgrown.maxMessageSize, fun hw data hm => hgrown.seen hw data (List.mem_append_left _ hm), hgrown.pending⟩
    · exact h
  | send opcode msg =>
    obtain ⟨hmax, hpending, hlog⟩ := sendMessage_keeps compress r opcode msg
    apply h.same hmax _ hlog
    intro m hm
    rw [← hpending]
    exact hm
  | sendPing payload => exact h.same (sendFrame_wrote _ _ _).maxMessageSize (fun _ hm => hm) rfl
  | beginBatch => exact h.same rfl (fun _ hm => hm) rfl
  | endBatch => exact h.same (endBatch_maxMessageSize _) (fun _ hm => hm) rfl
  | close =>
    have hmax : r.session.close.maxMessageSize = r.session.maxMessageSize := by
      rw [WebSocketSession.close]
      split
      · rfl
      · rfl
    exact h.same hmax (fun _ hm => hm) rfl

theorem uses_fit (h : Fits Over limit r seen) (uses : List Use) :
    Fits Over limit (uses.foldl (use (kept compress) (logged decompress)) (r, seen)).1
      (uses.foldl (use (kept compress) (logged decompress)) (r, seen)).2 := by
  induction uses generalizing r seen with
  | nil => exact h
  | cons u uses ih => exact ih (use_fits hover hlimit h u)

end Sized

end Uses

end Limit

end WsReceiver

namespace WsDeflateContext
open WsReceiver

/-- `decompress` ends whatever inflate does, and it throws or keeps to the limit exactly when no call of inflate
that begins within the limit ends the message beyond it. A session on which no call does that hands over no
message beyond its limit. -/
theorem message_limit_iff (z : Inflate σ) (deflater : Deflate δ) (limit : Nat) (hlimit : 0 < limit) :
    (∀ (ctx : WsDeflateContext δ σ) (input : Bytes) (fuel : Nat), limit + 2 ≤ fuel →
      ∃ res ctx', ctx.decompressWith z fuel input limit = some (res, ctx') ∧
        ((∀ out, res = some out → out.length ≤ limit) ↔
          ¬ z.Overshoots limit (ctx.inflateStart z) (withSync input))) ∧
      ∀ (r : WsReceiver (Logged (WsDeflateContext δ σ))) (uses : List Use), r.session.maxMessageSize = limit →
        r.pending = [] →
        let (r', seen) := uses.foldl (use (kept fun ctx => ctx.compress deflater)
          (logged fun ctx => ctx.decompress z)) (r, [])
        (∀ call ∈ r'.log, ¬ z.Overshoots call.2.2 (call.1.inflateStart z) (withSync call.2.1)) →
          ∀ data ∈ seen, data.length ≤ limit := by
  constructor
  · intro ctx input fuel hfuel
    exact decompressWith_spec z ctx input hlimit hfuel
  · intro r uses hmax hpending hwithin
    have hover : ∀ (ctx : WsDeflateContext δ σ) (data : Bytes) (limit : Nat), 0 < limit →
        ¬ z.Overshoots limit (ctx.inflateStart z) (withSync data) →
        ∀ out, (ctx.decompress z data limit).1 = some out → out.length ≤ limit := by
      intro ctx data limit hlimit hnot out hout
      obtain ⟨res, ctx', hres, hiff⟩ := decompressWith_spec z ctx data hlimit (Nat.le_refl (limit + 2))
      rw [decompress, hres] at hout
      exact hiff.2 hnot out hout
    have hstart : WsReceiver.Fits (fun ctx data limit => z.Overshoots limit (WsDeflateContext.inflateStart z ctx) (withSync data))
        limit r [] :=
      ⟨hmax, fun _ data hm => (nomatch hm), fun _ msg hm => by rw [hpending] at hm; cases hm⟩
    exact (uses_fit hover hlimit hstart uses).seen hwithin

/-- Eleven times the same letter, as deflate writes them. -/
def letters : Bytes := [114, 116, 132, 3, 0, 0]

def lettersInflate : Inflate Unit where
  inflate _ input room :=
    if input = letters ++ kSyncMarker then ⟨.ok, input.length, (List.replicate 11 65).take room, ()⟩
    else ⟨.dataError, 0, [], ()⟩
  inflateReset := id
  output_le _ input room := by
    split
    · exact List.length_take_le ..
    · exact Nat.zero_le room

def noDeflate : Deflate Unit where
  deflate _ _ _ := ⟨.streamError, 0, [], ()⟩
  deflateReset := id
  deflateBound _ n := n
  output_le _ _ room := Nat.zero_le room

def lettersSession (limit : Nat) : WsReceiver (Logged (WsDeflateContext Unit Unit)) where
  session := .create limit [buildMaskedWsFrame .hText letters .zero true true] fun _ => true
  deflateCtx := some (⟨{}, (), ()⟩, [])

theorem message_limit_iff_eleven :
    (∀ out, (decompress lettersInflate (⟨{}, (), ()⟩ : WsDeflateContext Unit Unit) letters 11).1 = some out →
      out.length ≤ 11) ∧
      ∀ data ∈ (use (kept fun ctx => ctx.compress noDeflate) (logged fun ctx => ctx.decompress lettersInflate)
        (lettersSession 11, []) (.receive true)).2, data.length ≤ 11 := by
  obtain ⟨hcall, hrun⟩ := message_limit_iff lettersInflate noDeflate 11 (by decide)
  obtain ⟨res, ctx', hres, hiff⟩ := hcall ⟨{}, (), ()⟩ letters 13 (Nat.le_refl 13)
  have hshort : ∀ out, res = some out → out.length ≤ 11 := by
    intro out hout
    cases hres
    cases hout
    decide
  constructor
  · rw [decompress, hres]
    exact hshort
  · apply hrun (lettersSession 11) [.receive true] rfl rfl
    intro call hm
    have hcall : call = (⟨{}, (), ()⟩, letters, 11) := List.mem_singleton.1 hm
    rw [hcall]
    exact hiff.1 hshort

/-- A message of eleven bytes with a limit of ten: it is returned, and a session hands it over. -/
theorem message_over_limit :
    (decompress lettersInflate (⟨{}, (), ()⟩ : WsDeflateContext Unit Unit) letters 10).1 =
        some (List.replicate 11 65) ∧
      (use (kept fun ctx => ctx.compress noDeflate) (logged fun ctx => ctx.decompress lettersInflate)
        (lettersSession 10, []) (.receive true)).2 = [List.replicate 11 65] ∧
      10 < (List.replicate 11 (65 : UInt8)).length := by
  refine ⟨?_, ?_, by decide⟩
  · decide +kernel
  · decide +kernel

end WsDeflateContext

end Hical
