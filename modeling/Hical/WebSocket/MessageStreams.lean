import Hical.WebSocket.MessageLimit

namespace Hical

/-- RFC 1951, for a row of whole blocks that ends on a byte and of which only the last may be final: whether that
one is, and what the row says behind a history. -/
abbrev DeflateFormat := (history coded : Bytes) → Option (Bool × Bytes)

/-- How deflate behaves as documented: on a stream whose input is all flushed it gives a row for the next input,
with the marker behind it, unless there is nothing to do or no room. -/
structure DeflateContract (z : Deflate δ) (format : DeflateFormat) where
  /-- The history of the stream, and whether the last call was a flush. -/
  At : δ → Bytes → Bool → Prop
  reset (d : δ) : At (z.deflateReset d) [] false
  repeated (h : At d history true) (room : Nat) : (z.deflate d [] room).code = .bufError
  flush (h : At d history flushed) (hinput : input ≠ [] ∨ flushed = false)
    (hroom : (z.deflate d input room).output.length < room) :
    (z.deflate d input room).code = .ok ∧
      format history (z.deflate d input room).output = some (false, input) ∧
      WsDeflateContext.kSyncMarker <:+ (z.deflate d input room).output ∧
      At (z.deflate d input room).stream (history ++ input) true

/-- How inflate behaves as documented: a call stops when the input is used up or the room is, and behind a final
block the stream stays at its end until it is reset. -/
structure InflateContract (z : Inflate σ) (format : DeflateFormat) where
  /-- The stream is between two blocks. -/
  At : σ → Bytes → Prop
  /-- The stream is within a row of blocks: what is left of the row, whether it ends the stream, what is left of
  its text, and the history behind it. -/
  Within : σ → Bytes → Bool → Bytes → Bytes → Prop
  Ended : σ → Prop
  reset (s : σ) : At (z.inflateReset s) []
  begin (h : At s history) (hcoded : format history coded = some (final, text)) :
    Within s coded final text (history ++ text)
  last (h : Within s coded false text history) (hroom : text.length < room) (hsome : coded ≠ [] ∨ text ≠ []) :
    ∃ s', z.inflate s coded room = ⟨.ok, coded.length, text, s'⟩ ∧ At s' history
  stop (h : Within s coded true text history) (hroom : text.length < room) (more : Bytes) :
    ∃ consumed s', z.inflate s (coded ++ more) room = ⟨.streamEnd, consumed, text, s'⟩ ∧ Ended s'
  fill (h : Within s coded final text history) (hpos : 0 < room) (hroom : room ≤ text.length) (more : Bytes)
    (hmore : final = false → more = []) :
    ∃ consumed s', consumed ≤ coded.length ∧
      ((z.inflate s (coded ++ more) room = ⟨.ok, consumed, text.take room, s'⟩ ∧
        Within s' (coded.drop consumed) final (text.drop room) history) ∨
      (final = true ∧ z.inflate s (coded ++ more) room = ⟨.streamEnd, consumed, text, s'⟩ ∧ Ended s'))
  stays (h : Ended s) (input : Bytes) (room : Nat) :
    ∃ consumed s', z.inflate s input room = ⟨.streamEnd, consumed, [], s'⟩ ∧ Ended s'

namespace WsDeflateContext

section Sending
variable {format : DeflateFormat} {z : Deflate δ}

/-- What a client has read: it puts the marker back behind each message. -/
def inflateFrames (format : DeflateFormat) (noContextTakeover : Bool) : Bytes → List Bytes → Option (List Bytes)
  | _, [] => some []
  | history, payload :: payloads =>
    match format history (payload ++ kSyncMarker) with
    | some (false, text) =>
      (inflateFrames format noContextTakeover (if noContextTakeover then [] else history ++ text) payloads).map
        (text :: ·)
    | _ => none

/-- The buffer of `deflateBound` is larger than what deflate puts out, and the sizes fit in a `uInt`. -/
def FitsBound (z : Deflate δ) (ctx : WsDeflateContext δ σ) (input : Bytes) : Prop :=
  input.length < 2 ^ 32 ∧ z.deflateBound (ctx.deflateStart z) input.length < 2 ^ 32 ∧
    (z.deflate (ctx.deflateStart z) input (z.deflateBound (ctx.deflateStart z) input.length)).output.length <
      z.deflateBound (ctx.deflateStart z) input.length

theorem stripMarker_append (h : kSyncMarker <:+ output) : stripMarker output ++ kSyncMarker = output := by
  obtain ⟨front, rfl⟩ := h
  have hlength : (front ++ kSyncMarker).length - 4 = front.length := by
    rw [List.length_append]
    exact Nat.add_sub_cancel ..
  have hfour : 4 ≤ (front ++ kSyncMarker).length := by
    rw [List.length_append]
    exact Nat.le_add_left ..
  rw [stripMarker, hlength, List.drop_left, List.take_left, if_pos ⟨hfour, rfl⟩]

theorem uInt_of_lt (h : n < 2 ^ 32) : uInt n = n := Nat.mod_eq_of_lt h

variable (c : DeflateContract z format) {ctx : WsDeflateContext δ σ}
include c

theorem compress_spec (hstart : c.At (ctx.deflateStart z) history flushed) (hinput : input ≠ [] ∨ flushed = false)
    (hfits : ctx.FitsBound z input) :
    ∃ payload d, ctx.compress z input = (some payload, { ctx with deflateStream := d }) ∧
      format history (payload ++ kSyncMarker) = some (false, input) ∧ c.At d (history ++ input) true := by
  obtain ⟨hsmall, hbound, hroom⟩ := hfits
  obtain ⟨hcode, hformat, hmarker, hat⟩ := c.flush hstart hinput hroom
  refine ⟨stripMarker (z.deflate (ctx.deflateStart z) input
    (z.deflateBound (ctx.deflateStart z) input.length)).output, _, ?_, ?_, hat⟩
  · rw [compress, uInt_of_lt hsmall, uInt_of_lt hbound, List.take_length, if_pos hcode, Nat.sub_self, List.replicate_zero,
      List.append_nil]
  · rw [stripMarker_append hmarker]
    exact hformat

theorem deflateStart_at (h : c.At ctx.deflateStream history flushed) :
    c.At (ctx.deflateStart z) (if ctx.config.serverNoContextTakeover then [] else history)
      (!ctx.config.serverNoContextTakeover && flushed) := by
  rw [deflateStart]
  cases ctx.config.serverNoContextTakeover with
  | true => exact c.reset _
  | false => exact h

end Sending

end WsDeflateContext

namespace WebSocketSession

/-- What was written and what is waiting to be. -/
def sent (s : WebSocketSession) : Bytes := s.outbox ++ s.writeBatch

/-- The socket takes what is written, and nothing waits outside of a batch. -/
structure Sending (s : WebSocketSession) : Prop where
  socketOpen : s.socketOpen = true
  writable : ∀ n, s.writable n = true
  batch : s.batching = true ∨ s.writeBatch = []

theorem asyncWrite_sending {s : WebSocketSession} (h : s.Sending) (data : Bytes) :
    s.asyncWrite data = (true, { s with writeCount := s.writeCount + 1, outbox := s.outbox ++ data }) := by
  rw [asyncWrite, h.socketOpen, h.writable]
  rfl

theorem sendFrameWith_sending {s : WebSocketSession} (h : s.Sending) (opcode : WsOpcode) (payload : Bytes)
    (fin rsv1 : Bool) :
    ∃ s', s.sendFrameWith opcode payload fin rsv1 = (true, s') ∧ s'.Sending ∧
      s'.sent = s.sent ++ encodeFrame opcode payload fin rsv1 := by
  rw [sendFrameWith]
  split
  · next hbatching =>
    have hqueued : Sending { s with writeBatch := s.writeBatch ++ encodeFrame opcode payload fin rsv1 } :=
      ⟨h.socketOpen, h.writable, .inl hbatching⟩
    refine ⟨_, rfl, ?_⟩
    dsimp only
    split
    · rw [writeBatchLocked]
      split
      · exact ⟨hqueued, (List.append_assoc ..).symm⟩
      · rw [asyncWrite_sending hqueued]
        refine ⟨⟨h.socketOpen, h.writable, .inl hbatching⟩, ?_⟩
        simp only [sent, List.append_nil, List.append_assoc]
    · exact ⟨hqueued, (List.append_assoc ..).symm⟩
  · next hbatching =>
    have hempty : s.writeBatch = [] := h.batch.resolve_left hbatching
    rw [asyncWrite_sending h]
    refine ⟨_, rfl, ⟨h.socketOpen, h.writable, h.batch⟩, ?_⟩
    simp only [sent, hempty, List.append_nil]

end WebSocketSession

namespace WsReceiver

/-- Messages sent one after another, and how each call ends. -/
def sendAll (compress : D → Bytes → Option Bytes × D) : WsReceiver D → List (WsOpcode × Bytes) →
    List (Option Bool) × WsReceiver D
  | r, [] => ([], r)
  | r, msg :: msgs =>
    let (res, r) := r.sendMessage compress msg.1 msg.2
    let (results, r) := sendAll compress r msgs
    (res :: results, r)

def frames (msgs : List (WsOpcode × Bytes)) (payloads : List Bytes) : Bytes :=
  (List.zipWith (fun msg payload => encodeFrame msg.1 payload true true) msgs payloads).flatten

open WsDeflateContext

section Sending
variable {format : DeflateFormat} {z : Deflate δ}

/-- One message: the call does not throw, and the frame holds what the client reads back. -/
theorem sendMessage_spec {r : WsReceiver (WsDeflateContext δ σ)} {ctx : WsDeflateContext δ σ} {payload : Bytes}
    {ctx' : WsDeflateContext δ σ} (hctx : r.deflateCtx = some ctx) (opcode : WsOpcode)
    (h : ctx.compress z msg = (some payload, ctx')) :
    ∃ written r', r.sendMessage (fun ctx => ctx.compress z) opcode msg = (some written, r') ∧
      r'.deflateCtx = some ctx' ∧
      (r.session.Sending → written = true ∧ r'.session.Sending ∧
        r'.session.sent = r.session.sent ++ encodeFrame opcode payload true true) := by
  cases hframe : r.session.sendFrameWith opcode payload true true with
  | mk written s =>
    refine ⟨written, { r with session := s, deflateCtx := some ctx' }, ?_, rfl, fun hsending => ?_⟩
    · rw [sendMessage, hctx]
      dsimp only
      rw [h]
      dsimp only
      rw [hframe]
    · obtain ⟨s', hs', hnext, hsent⟩ :=
        WebSocketSession.sendFrameWith_sending hsending opcode payload true true
      rw [hframe] at hs'
      cases hs'
      exact ⟨rfl, hnext, hsent⟩

/-- Messages are read back as long as none of them is empty behind another and the buffers are large enough. -/
theorem sendAll_spec (c : DeflateContract z format) {r : WsReceiver (WsDeflateContext δ σ)}
    {ctx : WsDeflateContext δ σ} (hctx : r.deflateCtx = some ctx) (hat : c.At ctx.deflateStream history flushed)
    (msgs : List (WsOpcode × Bytes))
    (hempty : ctx.config.serverNoContextTakeover = true ∨
      (flushed = true → ∀ msg ∈ msgs, msg.2 ≠ []) ∧ ∀ msg ∈ msgs.tail, msg.2 ≠ [])
    (hfits : Runs.Along (fun ctx msg => (ctx.compress z msg).2) (FitsBound z) ctx (msgs.map (·.2))) :
    ∃ payloads, payloads.length = msgs.length ∧
      inflateFrames format ctx.config.serverNoContextTakeover
        (if ctx.config.serverNoContextTakeover then [] else history) payloads = some (msgs.map (·.2)) ∧
      (∀ res ∈ (r.sendAll (fun ctx => ctx.compress z) msgs).1, res ≠ none) ∧
      (r.session.Sending → (r.sendAll (fun ctx => ctx.compress z) msgs).2.session.sent =
        r.session.sent ++ frames msgs payloads) := by
  induction msgs generalizing r ctx history flushed with
  | nil => exact ⟨[], rfl, rfl, fun res h => (nomatch h), fun _ => (List.append_nil _).symm⟩
  | cons msg msgs ih =>
    obtain ⟨hfit, hfits⟩ := hfits
    have hinput : msg.2 ≠ [] ∨ (!ctx.config.serverNoContextTakeover && flushed) = false := by
      rcases hempty with h | ⟨h, -⟩
      · rw [h]
        exact .inr rfl
      · cases flushed with
        | false => exact .inr (Bool.and_false _)
        | true => exact .inl (h rfl msg (List.mem_cons_self ..))
    obtain ⟨payload, d, hcompress, hformat, hnext⟩ :=
      compress_spec c (deflateStart_at c hat) hinput hfit
    obtain ⟨written, r', hsend, hctx', hwritten⟩ := sendMessage_spec hctx msg.1 hcompress
    dsimp only at hfits
    rw [hcompress] at hfits
    obtain ⟨payloads, hlength, hread, hresults, hsent⟩ := ih hctx' hnext
      (hempty.imp_right fun h => ⟨fun _ m hm => h.2 m hm, fun m hm => h.2 m (List.mem_of_mem_tail hm)⟩) hfits
    refine ⟨payload :: payloads, congrArg (· + 1) hlength, ?_, ?_, ?_⟩
    · rw [inflateFrames, hformat]
      cases hnct : ctx.config.serverNoContextTakeover with
      | true | false =>
        rw [hnct] at hread
        exact congrArg (Option.map (msg.2 :: ·)) hread
    · intro res hres
      rw [sendAll, hsend] at hres
      rcases List.mem_cons.1 hres with rfl | hres
      · exact fun h => (nomatch h)
      · exact hresults res hres
    · intro hsending
      obtain ⟨-, hsending', hfirst⟩ := hwritten hsending
      rw [sendAll, hsend]
      refine (hsent hsending').trans ?_
      rw [hfirst, List.append_assoc]
      rfl

end Sending

end WsReceiver

/-- So many bytes fill a buffer. -/
def WsDeflateContext.Boundary (n : Nat) : Prop := ∃ k, n = kChunkSize * 2 ^ k

/-- A message as a client compresses it: rows of blocks that end with a final one, and a row without, each with
its text. The payload is the blocks less the marker at their end. -/
structure ClientMessage where
  payload : Bytes
  finals : List (Bytes × Bytes)
  last : Bytes × Bytes

namespace ClientMessage
open WsDeflateContext

def text (m : ClientMessage) : Bytes := (m.finals.map (·.2)).flatten ++ m.last.2

def Rows (format : DeflateFormat) : Bytes → List (Bytes × Bytes) → Bytes × Bytes → Prop
  | history, [], last => format history last.1 = some (false, last.2)
  | history, row :: rows, last =>
    format history row.1 = some (true, row.2) ∧ Rows format (history ++ row.2) rows last

/-- RFC 7692 allows the message behind this history. -/
structure Compressed (format : DeflateFormat) (history : Bytes) (m : ClientMessage) : Prop where
  payload : m.payload ++ kSyncMarker = (m.finals.map (·.1)).flatten ++ m.last.1
  rows : Rows format history m.finals m.last

/-- Messages of one client, which takes its context over or does not. -/
def Sent (format : DeflateFormat) (noContextTakeover : Bool) : Bytes → List ClientMessage → Prop
  | _, [] => True
  | history, m :: msgs =>
    m.Compressed format history ∧
      Sent format noContextTakeover (if noContextTakeover then [] else history ++ m.text) msgs

/-- The sizes fit in a `uInt`, the text does not end with a full buffer, and there is no text behind a final
block. -/
structure Whole (m : ClientMessage) : Prop where
  payload : m.payload.length + 4 < 2 ^ 32
  small : m.text.length < 2 ^ 32
  boundary : m.finals = [] → ¬ Boundary m.text.length
  final : ∀ row ∈ m.finals.head?, m.text = row.2

end ClientMessage

namespace WsDeflateContext

/-- Messages decompressed one after another, and what each call returns. -/
def decompressAll (z : Inflate σ) (fuel maxOutputSize : Nat) :
    WsDeflateContext δ σ → List Bytes → Option (List (Option Bytes))
  | _, [] => some []
  | ctx, payload :: payloads =>
    match ctx.decompressWith z fuel payload maxOutputSize with
    | none => none
    | some (res, ctx) => (decompressAll z fuel maxOutputSize ctx payloads).map (res :: ·)

section Receiving
variable {format : DeflateFormat} {z : Inflate σ} (c : InflateContract z format)

theorem bufferSize_boundary (h : held = 0 ∨ Boundary held) : Boundary (bufferSize held) := by
  rcases h with rfl | ⟨k, rfl⟩
  · exact ⟨0, rfl⟩
  · refine ⟨k + 1, ?_⟩
    have hpos : 0 < kChunkSize * 2 ^ k := Nat.mul_pos (by decide) (Nat.two_pow_pos k)
    rw [bufferSize, if_neg (Nat.ne_of_gt hpos), Nat.pow_succ, Nat.mul_assoc]

theorem roomAt_of_lt (h : held < 2 ^ 32) : roomAt held = bufferSize held - held := by
  apply uInt_of_lt
  rw [bufferSize]
  split
  · exact Nat.lt_of_le_of_lt (Nat.sub_le ..) (by decide)
  · omega

section Turn
variable {output : Bytes} (hsize : (if size ≤ output.length then size * 2 else size) = bufferSize output.length)
  (hsmall : output.length < 2 ^ 32) (hlimit : limit = 0 ∨ output.length ≤ limit)
include hsize hsmall hlimit

theorem inflateLoop_turn (z : Inflate σ) (fuel : Nat) (s : σ) (input : Bytes) :
    inflateLoop z limit (fuel + 1) s input size output =
      let call := z.inflate s input (roomAt output.length)
      let rest := input.drop call.consumed
      let availOut := roomAt output.length - call.output.length
      if call.code = .streamEnd ∨ (call.code = .ok ∧ rest = [] ∧ 0 < availOut) then
        some (some (output ++ call.output), call.stream)
      else if call.code = .ok ∧ availOut = 0 then
        inflateLoop z limit fuel call.stream rest (bufferSize output.length) (output ++ call.output)
      else if call.code = .bufError ∧ availOut = 0 then
        inflateLoop z limit fuel call.stream rest (bufferSize output.length) (output ++ call.output)
      else some (none, call.stream) := by
  have hroom : uInt (bufferSize output.length - output.length) = roomAt output.length := rfl
  rw [inflateLoop, hsize]
  dsimp only
  rw [if_neg (by omega), hroom, roomAt_of_lt hsmall, Nat.sub_self, List.replicate_zero]
  simp only [List.append_nil]

theorem inflateLoop_returns (fuel : Nat)
    (hcall : z.inflate s input (roomAt output.length) = ⟨code, consumed, more, s'⟩)
    (hends : code = .streamEnd ∨ (code = .ok ∧ input.drop consumed = [] ∧ more.length < roomAt output.length)) :
    inflateLoop z limit (fuel + 1) s input size output = some (some (output ++ more), s') := by
  rw [inflateLoop_turn hsize hsmall hlimit, hcall]
  exact if_pos (hends.imp_right fun h => ⟨h.1, h.2.1, Nat.sub_pos_of_lt h.2.2⟩)

theorem inflateLoop_continues (fuel : Nat)
    (hcall : z.inflate s input (roomAt output.length) = ⟨.ok, consumed, more, s'⟩)
    (hfull : more.length = roomAt output.length) :
    inflateLoop z limit (fuel + 1) s input size output =
      inflateLoop z limit fuel s' (input.drop consumed) (bufferSize output.length) (output ++ more) := by
  rw [inflateLoop_turn hsize hsmall hlimit, hcall]
  dsimp only
  rw [hfull, Nat.sub_self, if_neg (by simp), if_pos ⟨rfl, rfl⟩]

end Turn

include c

theorem inflateLoop_within (limit : Nat) (more : Bytes) (size : Nat) (output : Bytes) (n : Nat)
    (htext : text.length = n) (hwithin : c.Within s coded final text history)
    (hsize : (if size ≤ output.length then size * 2 else size) = bufferSize output.length)
    (hheld : output.length = 0 ∨ Boundary output.length) (htotal : output.length + text.length < 2 ^ 32)
    (hlimit : limit = 0 ∨ output.length + text.length ≤ limit)
    (hlast : final = false → more = [] ∧ ¬ Boundary (output.length + text.length) ∧ (coded ≠ [] ∨ text ≠ [])) :
    ∃ turns s', (∀ fuel, turns ≤ fuel →
      inflateLoop z limit fuel s (coded ++ more) size output = some (some (output ++ text), s')) ∧
      (if final then c.Ended s' else c.At s' history) := by
  induction n using Nat.strongRecOn generalizing text s coded size output with
  | _ n ih =>
    have hgrows : output.length < bufferSize output.length := lt_bufferSize _
    have hsmall : output.length < 2 ^ 32 := by omega
    have hroom : roomAt output.length = bufferSize output.length - output.length := roomAt_of_lt hsmall
    have hlimit' : limit = 0 ∨ output.length ≤ limit := by omega
    have hreturns {consumed : Nat} {s' : σ} {code : ZCode}
        (hcall : z.inflate s (coded ++ more) (roomAt output.length) = ⟨code, consumed, text, s'⟩)
        (hends : code = .streamEnd ∨
          (code = .ok ∧ (coded ++ more).drop consumed = [] ∧ text.length < roomAt output.length)) :
        ∀ fuel, 1 ≤ fuel →
          inflateLoop z limit fuel s (coded ++ more) size output = some (some (output ++ text), s') := by
      intro fuel hfuel
      obtain ⟨fuel, rfl⟩ := Nat.exists_eq_succ_of_ne_zero (Nat.ne_of_gt hfuel)
      exact inflateLoop_returns hsize hsmall hlimit' fuel hcall hends
    by_cases hfit : text.length < roomAt output.length
    · cases final with
      | true =>
        obtain ⟨consumed, s', hcall, hended⟩ := c.stop hwithin hfit more
        exact ⟨1, s', hreturns hcall (.inl rfl), hended⟩
      | false =>
        obtain ⟨rfl, -, hsome⟩ := hlast rfl
        obtain ⟨s', hcall, hat⟩ := c.last hwithin hfit hsome
        rw [← List.append_nil coded] at hcall
        refine ⟨1, s', hreturns hcall (.inr ⟨rfl, ?_, hfit⟩), hat⟩
        rw [List.append_nil, List.drop_length]
    · have hfull : (text.take (roomAt output.length)).length = roomAt output.length :=
        List.length_take_of_le (Nat.le_of_not_lt hfit)
      have hheld' : (output ++ text.take (roomAt output.length)).length = bufferSize output.length := by
        rw [List.length_append, hfull]
        omega
      have hboundary : Boundary (bufferSize output.length) := bufferSize_boundary hheld
      obtain ⟨consumed, s', hconsumed, ⟨hcall, hnext⟩ | ⟨rfl, hcall, hended⟩⟩ :=
        c.fill hwithin (by omega) (Nat.le_of_not_lt hfit) more (fun h => (hlast h).1)
      · have htotal' : (output ++ text.take (roomAt output.length)).length + (text.drop (roomAt output.length)).length =
            output.length + text.length := by
          rw [hheld', List.length_drop]
          omega
        obtain ⟨turns, s'', hloop, hend⟩ := ih (text.drop (roomAt output.length)).length
          (by rw [List.length_drop]; omega) (bufferSize output.length) (output ++ text.take (roomAt output.length))
          rfl hnext
          (by rw [hheld', if_pos (Nat.le_refl _), bufferSize.eq_1 (bufferSize _), if_neg (by omega)])
          (.inr (hheld'.symm ▸ hboundary)) (by omega) (by omega) (by
            intro hfinal
            obtain ⟨hmore, hnot, -⟩ := hlast hfinal
            rw [htotal']
            refine ⟨hmore, hnot, .inr fun hnil => hnot ?_⟩
            have := congrArg List.length hnil
            rw [List.length_drop, List.length_nil] at this
            rwa [show output.length + text.length = bufferSize output.length by omega])
        refine ⟨turns + 1, s'', fun fuel hfuel => ?_, hend⟩
        obtain ⟨fuel, rfl⟩ := Nat.exists_eq_succ_of_ne_zero (Nat.ne_of_gt (Nat.lt_of_lt_of_le (Nat.succ_pos _) hfuel))
        rw [inflateLoop_continues hsize hsmall hlimit' fuel hcall hfull, List.drop_append_of_le_length hconsumed,
          hloop fuel (Nat.le_of_succ_le_succ hfuel), List.append_assoc, List.take_append_drop]
      · exact ⟨1, s', hreturns hcall (.inl rfl), hended⟩

variable {ctx : WsDeflateContext δ σ} {m : ClientMessage}

theorem inflateStart_at (h : if ended then c.Ended ctx.inflateStream else c.At ctx.inflateStream history) :
    if !ctx.config.clientNoContextTakeover && ended then c.Ended (ctx.inflateStart z)
    else c.At (ctx.inflateStart z) (if ctx.config.clientNoContextTakeover then [] else history) := by
  rw [inflateStart]
  cases ctx.config.clientNoContextTakeover with
  | true => exact c.reset _
  | false => exact h

omit c in
theorem withSync_small (h : payload.length + 4 < 2 ^ 32) : withSync payload = payload ++ kSyncMarker := by
  have hlength : (payload ++ kSyncMarker).length < 2 ^ 32 := by
    rw [List.length_append]
    exact h
  rw [withSync, uInt_of_lt hlength, List.take_length]

theorem decompressWith_message (hm : m.Compressed format history) (hwhole : m.Whole)
    (hstart : if ended then c.Ended (ctx.inflateStart z) else c.At (ctx.inflateStart z) history)
    (hended : ended = true → m.text = []) (hlimit : limit = 0 ∨ m.text.length ≤ limit) :
    ∃ turns s', (∀ fuel, turns ≤ fuel →
      ctx.decompressWith z fuel m.payload limit = some (some m.text, { ctx with inflateStream := s' })) ∧
      (if ended || !m.finals.isEmpty then c.Ended s' else c.At s' (history ++ m.text)) := by
  suffices hloop : ∃ turns s', (∀ fuel, turns ≤ fuel →
      inflateLoop z limit fuel (ctx.inflateStart z) (withSync m.payload) kChunkSize [] =
        some (some m.text, s')) ∧
      (if ended || !m.finals.isEmpty then c.Ended s' else c.At s' (history ++ m.text)) by
    obtain ⟨turns, s', hloop, hend⟩ := hloop
    refine ⟨turns, s', fun fuel hfuel => ?_, hend⟩
    rw [decompressWith, hloop fuel hfuel]
    rfl
  rw [withSync_small hwhole.payload]
  cases ended with
  | true =>
    rw [hended rfl]
    obtain ⟨consumed, s', hcall, hend⟩ := c.stays hstart (m.payload ++ kSyncMarker) (roomAt 0)
    refine ⟨1, s', fun fuel hfuel => ?_, hend⟩
    obtain ⟨fuel, rfl⟩ := Nat.exists_eq_succ_of_ne_zero (Nat.ne_of_gt hfuel)
    have hsize : (if kChunkSize ≤ ([] : Bytes).length then kChunkSize * 2 else kChunkSize) =
        bufferSize ([] : Bytes).length := rfl
    exact inflateLoop_returns hsize (by decide) (by simp) fuel hcall (.inl rfl)
  | false =>
    rw [hm.payload]
    have hrows := hm.rows
    cases hfinals : m.finals with
    | nil =>
      rw [hfinals] at hrows
      have htext : m.text = m.last.2 := by rw [ClientMessage.text, hfinals]; rfl
      rw [htext]
      have hcoded : m.last.1 ≠ [] := by
        intro h
        have := congrArg List.length hm.payload
        rw [hfinals, h] at this
        simp [kSyncMarker] at this
      obtain ⟨turns, s', hloop, hend⟩ := inflateLoop_within c limit [] kChunkSize [] _ rfl
        (c.begin hstart hrows) rfl (.inl rfl) (by simpa [htext] using hwhole.small)
        (by simpa [htext] using hlimit)
        (fun _ => ⟨rfl, by simpa [htext] using hwhole.boundary hfinals, .inl hcoded⟩)
      refine ⟨turns, s', fun fuel hfuel => ?_, hend⟩
      have := hloop fuel hfuel
      rw [List.append_nil] at this
      exact this
    | cons row rows =>
      rw [hfinals] at hrows
      have htext : m.text = row.2 := hwhole.final row (by rw [hfinals]; rfl)
      rw [htext]
      obtain ⟨turns, s', hloop, hend⟩ := inflateLoop_within c limit
        ((rows.map (·.1)).flatten ++ m.last.1) kChunkSize [] _ rfl
        (c.begin hstart hrows.1) rfl (.inl rfl) (by simpa [htext] using hwhole.small)
        (by simpa [htext] using hlimit) (fun h => (by cases h))
      refine ⟨turns, s', fun fuel hfuel => ?_, hend⟩
      rw [List.map_cons, List.flatten_cons, List.append_assoc]
      exact hloop fuel hfuel

/-- Messages are returned whole, one after another, as long as no text comes behind a final block. -/
theorem decompressAll_spec (ctx : WsDeflateContext δ σ) (ended : Bool) (history : Bytes) (msgs : List ClientMessage)
    (hstart : if ended then c.Ended ctx.inflateStream else c.At ctx.inflateStream history)
    (hsent : ClientMessage.Sent format ctx.config.clientNoContextTakeover
      (if ctx.config.clientNoContextTakeover then [] else history) msgs)
    (hwhole : ∀ m ∈ msgs, m.Whole) (hlimit : ∀ m ∈ msgs, limit = 0 ∨ m.text.length ≤ limit)
    (hquiet : ctx.config.clientNoContextTakeover = true ∨
      (ended = true → ∀ m ∈ msgs, m.text = []) ∧ msgs.Pairwise fun m m' => m.finals ≠ [] → m'.text = []) :
    ∃ turns, ∀ fuel, turns ≤ fuel →
      ctx.decompressAll z fuel limit (msgs.map (·.payload)) = some (msgs.map fun m => some m.text) := by
  induction msgs generalizing ctx history ended with
  | nil => exact ⟨0, fun fuel _ => rfl⟩
  | cons m msgs ih =>
    obtain ⟨hm, hsent⟩ := hsent
    have hended : (!ctx.config.clientNoContextTakeover && ended) = true → m.text = [] := by
      intro h
      rw [Bool.and_eq_true, Bool.not_eq_true'] at h
      rcases hquiet with hnct | hquiet
      · rw [h.1] at hnct
        cases hnct
      · exact hquiet.1 h.2 m (List.mem_cons_self ..)
    obtain ⟨turns, s', hfirst, hnext⟩ := decompressWith_message c hm (hwhole m (List.mem_cons_self ..))
      (inflateStart_at c hstart) hended (hlimit m (List.mem_cons_self ..))
    obtain ⟨more, hrest⟩ := ih { ctx with inflateStream := s' } _ _ hnext
      (by
        cases hnct : ctx.config.clientNoContextTakeover with
        | true =>
          rw [hnct] at hsent
          exact hsent
        | false =>
          rw [hnct] at hsent
          exact hsent)
      (fun m' hm' => hwhole m' (List.mem_cons_of_mem _ hm')) (fun m' hm' => hlimit m' (List.mem_cons_of_mem _ hm'))
      (hquiet.imp_right fun h => by
        obtain ⟨hbehind, hpairs⟩ := List.pairwise_cons.1 h.2
        refine ⟨fun hor m' hm' => ?_, hpairs⟩
        rw [Bool.or_eq_true, Bool.and_eq_true] at hor
        rcases hor with hor | hor
        · exact h.1 hor.2 m' (List.mem_cons_of_mem _ hm')
        · apply hbehind m' hm'
          intro hnil
          rw [hnil] at hor
          cases hor)
    refine ⟨max turns more, fun fuel hfuel => ?_⟩
    rw [List.map_cons, decompressAll, hfirst fuel (Nat.le_trans (Nat.le_max_left ..) hfuel)]
    dsimp only
    rw [hrest fuel (Nat.le_trans (Nat.le_max_right ..) hfuel)]
    rfl

end Receiving

/-- On a new context, messages sent are read back by the client, and messages received are returned whole, as
long as every empty message finds a new stream or is the first, the buffers are large enough, no message fills a
buffer of `decompress`, and no text comes behind a final block on the same stream. -/
theorem message_streams {format : DeflateFormat} {deflater : Deflate δ} (out : DeflateContract deflater format)
    {inflater : Inflate σ} (into : InflateContract inflater format) (ctx : WsDeflateContext δ σ)
    (hout : out.At ctx.deflateStream [] false) (hinto : into.At ctx.inflateStream []) :
    (∀ (r : WsReceiver (WsDeflateContext δ σ)) (msgs : List (WsOpcode × Bytes)), r.deflateCtx = some ctx →
      (ctx.config.serverNoContextTakeover = true ∨ ∀ msg ∈ msgs.tail, msg.2 ≠ []) →
      Runs.Along (fun ctx msg => (ctx.compress deflater msg).2) (FitsBound deflater) ctx (msgs.map (·.2)) →
      let sent := r.sendAll (fun ctx => ctx.compress deflater) msgs
      ∃ payloads, payloads.length = msgs.length ∧
        inflateFrames format ctx.config.serverNoContextTakeover [] payloads = some (msgs.map (·.2)) ∧
        (∀ res ∈ sent.1, res ≠ none) ∧
        (r.session.Sending → sent.2.session.sent = r.session.sent ++ WsReceiver.frames msgs payloads)) ∧
      ∀ (msgs : List ClientMessage) (limit : Nat),
        ClientMessage.Sent format ctx.config.clientNoContextTakeover [] msgs →
        (∀ m ∈ msgs, limit = 0 ∨ m.text.length ≤ limit) → (∀ m ∈ msgs, m.Whole) →
        (ctx.config.clientNoContextTakeover = true ∨ msgs.Pairwise fun m m' => m.finals ≠ [] → m'.text = []) →
        ∃ turns, ∀ fuel, turns ≤ fuel →
          ctx.decompressAll inflater fuel limit (msgs.map (·.payload)) = some (msgs.map fun m => some m.text) := by
  constructor
  · intro r msgs hctx hempty hfits
    obtain ⟨payloads, hlength, hread, hresults, hsent⟩ := WsReceiver.sendAll_spec out hctx hout msgs
      (hempty.imp_right fun h => ⟨fun hflushed => (by cases hflushed), h⟩) hfits
    rw [ite_self] at hread
    exact ⟨payloads, hlength, hread, hresults, hsent⟩
  · intro msgs limit hsent hlimit hwhole hquiet
    apply decompressAll_spec into ctx false [] msgs hinto _ hwhole hlimit
    · exact hquiet.imp_right fun h => ⟨fun hended => (by cases hended), h⟩
    · rw [ite_self]
      exact hsent

section Known

def letterRow : Bytes := [74, 4, 0, 0, 0, 255, 255]

def emptyRow : Bytes := [0, 0, 0, 255, 255]

def finalRow : Bytes := [75, 4, 0]

def knownFormat : DeflateFormat := fun _ coded =>
  if coded = letterRow then some (false, [97])
  else if coded = emptyRow then some (false, [])
  else if coded = finalRow then some (true, [97])
  else none

def knownDeflate : Deflate Bool where
  deflate flushed input room :=
    if input = [97] then ⟨.ok, 1, letterRow.take room, true⟩
    else if input = [] ∧ flushed then ⟨.bufError, 0, [], true⟩
    else if input = [] then ⟨.ok, 0, emptyRow.take room, true⟩
    else ⟨.ok, 0, List.replicate room 0, flushed⟩
  deflateReset _ := false
  deflateBound _ n := n + n / 32 + n / 128 + n / 2048 + 7
  output_le flushed input room := by
    split
    · exact List.length_take_le ..
    · split
      · exact Nat.zero_le room
      · split
        · exact List.length_take_le ..
        · exact Nat.le_of_eq List.length_replicate

def knownInflate : Inflate Bool where
  inflate ended input room :=
    if ended then ⟨.streamEnd, 0, [], true⟩
    else if input.take 3 = finalRow then ⟨.streamEnd, 3, ([97] : Bytes).take room, true⟩
    else if input = letterRow then ⟨.ok, 7, ([97] : Bytes).take room, false⟩
    else if input = emptyRow then ⟨.ok, 5, [], false⟩
    else ⟨.bufError, 0, [], false⟩
  inflateReset _ := false
  output_le ended input room := by
    split
    · exact Nat.zero_le room
    · split
      · exact List.length_take_le ..
      · split
        · exact List.length_take_le ..
        · split
          · exact Nat.zero_le room
          · exact Nat.zero_le room

theorem take_of_room {row : Bytes} (h : (row.take room).length < room) : row.take room = row := by
  rw [List.length_take] at h
  exact List.take_of_length_le (by omega)

def knownDeflateContract : DeflateContract knownDeflate knownFormat where
  At flushed _ last := flushed = last
  reset _ := rfl
  repeated h room := by
    rw [h]
    rfl
  flush {d history flushed input room} h hinput hroom := by
    subst h
    by_cases hletter : input = [97]
    · subst hletter
      have hrow : letterRow.take room = letterRow := take_of_room hroom
      refine ⟨rfl, ?_, ?_, rfl⟩
      · exact congrArg (knownFormat history) hrow
      · show kSyncMarker <:+ letterRow.take room
        rw [hrow]
        exact ⟨[74, 4, 0], rfl⟩
    · by_cases hnil : input = []
      · subst hnil
        obtain rfl : d = false := hinput.resolve_left fun h => h rfl
        have hrow : emptyRow.take room = emptyRow := take_of_room hroom
        refine ⟨rfl, ?_, ?_, rfl⟩
        · exact congrArg (knownFormat history) hrow
        · show kSyncMarker <:+ emptyRow.take room
          rw [hrow]
          exact ⟨[0], rfl⟩
      · have hcall : knownDeflate.deflate d input room = ⟨.ok, 0, List.replicate room 0, d⟩ := by
          simp only [knownDeflate, hletter, hnil, false_and, if_false]
        rw [hcall, List.length_replicate] at hroom
        exact absurd hroom (Nat.lt_irrefl _)

/-- What is left of a known row. -/
inductive KnownRow : Bytes → Bool → Bytes → Prop
  | letter : KnownRow letterRow false [97]
  | empty : KnownRow emptyRow false []
  | final : KnownRow finalRow true [97]
  | done : KnownRow [] false []

def knownInflateContract : InflateContract knownInflate knownFormat where
  At ended _ := ended = false
  Within ended coded final text _ := ended = false ∧ KnownRow coded final text
  Ended ended := ended = true
  reset _ := rfl
  begin h hcoded := by
    refine ⟨h, ?_⟩
    rw [knownFormat] at hcoded
    split at hcoded
    · next hrow =>
      cases hcoded
      exact hrow ▸ .letter
    · split at hcoded
      · next hrow =>
        cases hcoded
        exact hrow ▸ .empty
      · split at hcoded
        · next hrow =>
          cases hcoded
          exact hrow ▸ .final
        · cases hcoded
  last {s coded text history room} h hroom hsome := by
    obtain ⟨rfl, hrow⟩ := h
    cases hrow with
    | letter =>
      obtain ⟨room, rfl⟩ := Nat.exists_eq_succ_of_ne_zero (Nat.ne_of_gt (Nat.zero_lt_of_lt hroom))
      have hcall : knownInflate.inflate false letterRow (room + 1) = ⟨.ok, 7, 97 :: List.take room [], false⟩ := rfl
      rw [List.take_nil] at hcall
      exact ⟨false, hcall, rfl⟩
    | empty => exact ⟨false, rfl, rfl⟩
    | done => simp at hsome
  stop {s coded text history room} h hroom more := by
    obtain ⟨rfl, hrow⟩ := h
    cases hrow with
    | final =>
      obtain ⟨room, rfl⟩ := Nat.exists_eq_succ_of_ne_zero (Nat.ne_of_gt (Nat.zero_lt_of_lt hroom))
      have hcall : knownInflate.inflate false (finalRow ++ more) (room + 1) =
          ⟨.streamEnd, 3, 97 :: List.take room [], true⟩ := rfl
      rw [List.take_nil] at hcall
      exact ⟨3, true, hcall, rfl⟩
  fill {s coded final text history room} h hpos hroom more hmore := by
    obtain ⟨rfl, hrow⟩ := h
    cases hrow with
    | letter =>
      obtain rfl : room = 1 := Nat.le_antisymm hroom hpos
      rw [hmore rfl]
      exact ⟨7, false, Nat.le_refl 7, .inl ⟨rfl, rfl, .done⟩⟩
    | empty | done => exact absurd hroom (Nat.not_le_of_gt hpos)
    | final =>
      obtain rfl : room = 1 := Nat.le_antisymm hroom hpos
      exact ⟨3, true, Nat.le_refl 3, .inr ⟨rfl, rfl, rfl⟩⟩
  stays h input room := by
    rw [h]
    exact ⟨0, true, rfl, rfl⟩

/-- Two messages of a letter, sent and received. -/
theorem message_streams_letters :
    (∃ payloads : List Bytes, payloads.length = 2 ∧ inflateFrames knownFormat false [] payloads = some [[97], [97]]) ∧
      ∃ turns, ∀ fuel, turns ≤ fuel →
        decompressAll knownInflate fuel 1 (⟨{}, false, false⟩ : WsDeflateContext Bool Bool)
          [[74, 4, 0], [74, 4, 0]] = some [some [97], some [97]] := by
  obtain ⟨hsend, hreceive⟩ := message_streams knownDeflateContract knownInflateContract ⟨{}, false, false⟩ rfl rfl
  constructor
  · obtain ⟨payloads, hlength, hread, -⟩ := hsend
      { session := .create 100 [] fun _ => true, deflateCtx := some ⟨{}, false, false⟩ }
      [(.hText, [97]), (.hBinary, [97])] rfl (.inr (by decide))
      ⟨⟨by decide, by decide, by decide⟩, ⟨by decide, by decide, by decide⟩, trivial⟩
    exact ⟨payloads, hlength, hread⟩
  · have hletter : ClientMessage.Compressed knownFormat [] ⟨[74, 4, 0], [], (letterRow, [97])⟩ := ⟨rfl, rfl⟩
    have hwhole : ClientMessage.Whole ⟨[74, 4, 0], [], (letterRow, [97])⟩ := by
      refine ⟨by decide, by decide, fun _ h => ?_, fun row h => (nomatch h)⟩
      obtain ⟨k, hk⟩ := h
      have hk : 1 = 4096 * 2 ^ k := hk
      omega
    apply hreceive [⟨[74, 4, 0], [], (letterRow, [97])⟩, ⟨[74, 4, 0], [], (letterRow, [97])⟩] 1
    · exact ⟨hletter, ⟨rfl, rfl⟩, trivial⟩
    · decide
    · intro m hm
      simp only [List.mem_cons, List.not_mem_nil, or_false, or_self] at hm
      exact hm ▸ hwhole
    · exact .inr (by decide)

/-- A full buffer of one letter, as deflate writes it. -/
def fullRow : Bytes :=
  [236, 193, 1, 13, 0, 0, 0, 194, 160, 108, 239, 95, 202, 30, 14, 40, 0, 0, 0, 224, 221, 0, 0, 0, 255, 255]

def fullInflate : Inflate Unit where
  inflate _ input room :=
    if input = fullRow then ⟨.ok, 26, (List.replicate 4096 65).take room, ()⟩ else ⟨.bufError, 0, [], ()⟩
  inflateReset := id
  output_le _ input room := by
    split
    · exact List.length_take_le ..
    · exact Nat.zero_le room

/-- An empty message behind another is refused, a message behind one with a final block is lost, and a message
of 4096 bytes is refused. -/
theorem message_streams_broken :
    let ctx : WsDeflateContext Bool Bool := ⟨{}, false, false⟩
    ((ctx.compress knownDeflate [97]).2.compress knownDeflate []).1 = none ∧
      (ClientMessage.Sent knownFormat false []
          [⟨[75, 4, 0, 0], [(finalRow, [97])], (emptyRow, [])⟩, ⟨[74, 4, 0], [], (letterRow, [97])⟩] ∧
        ctx.decompressAll knownInflate 5 100 [[75, 4, 0, 0], [74, 4, 0]] = some [some [97], some []]) ∧
      (decompress fullInflate (⟨{}, (), ()⟩ : WsDeflateContext Unit Unit) (fullRow.take 22) 5000).1 = none := by
  refine ⟨by decide, ⟨⟨⟨rfl, rfl, rfl⟩, ⟨rfl, rfl⟩, trivial⟩, by decide⟩, ?_⟩
  decide +kernel

end Known

end WsDeflateContext

end Hical
