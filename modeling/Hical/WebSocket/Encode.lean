import Hical.Lib.Buffer
import Hical.WebSocket.Frame

namespace Hical

namespace WsFrame

def headerSize (payloadLen : Nat) : Nat :=
  2 + if payloadLen > 65535 then 8 else if payloadLen > 125 then 2 else 0

/-- Stores of the header bytes into the buffer, from `base` on. -/
def writeHeader (out : Bytes) (base : Nat) (mask : UInt8) (opcode : WsOpcode) (payloadLen : Nat)
    (fin rsv1 : Bool) : Bytes :=
  let out := out.set base (frameByte0 opcode fin rsv1)
  if payloadLen ≤ 125 then
    out.set (base + 1) (mask ||| UInt8.ofNat payloadLen)
  else if payloadLen ≤ 65535 then
    let len16 := payloadLen % 2 ^ 16
    let out := out.set (base + 1) (mask ||| 126)
    let out := out.set (base + 2) (UInt8.ofNat (len16 >>> 8))
    out.set (base + 3) (UInt8.ofNat (len16 &&& 0xFF))
  else
    let out := out.set (base + 1) (mask ||| 127)
    let out := out.set (base + 2) (UInt8.ofNat (payloadLen >>> 56))
    let out := out.set (base + 3) (UInt8.ofNat (payloadLen >>> 48 &&& 0xFF))
    let out := out.set (base + 4) (UInt8.ofNat (payloadLen >>> 40 &&& 0xFF))
    let out := out.set (base + 5) (UInt8.ofNat (payloadLen >>> 32 &&& 0xFF))
    let out := out.set (base + 6) (UInt8.ofNat (payloadLen >>> 24 &&& 0xFF))
    let out := out.set (base + 7) (UInt8.ofNat (payloadLen >>> 16 &&& 0xFF))
    let out := out.set (base + 8) (UInt8.ofNat (payloadLen >>> 8 &&& 0xFF))
    out.set (base + 9) (UInt8.ofNat (payloadLen &&& 0xFF))

def buildWsFrame (opcode : WsOpcode) (payload : Bytes) (fin rsv1 : Bool) : Bytes :=
  let payloadLen := payload.length
  let frame := Buffer.resize 0 [] (headerSize payloadLen + payloadLen)
  let frame := writeHeader frame 0 0 opcode payloadLen fin rsv1
  if payloadLen > 0 then Buffer.copy frame (headerSize payloadLen) payload else frame

def buildMaskedWsFrame (opcode : WsOpcode) (payload : Bytes) (maskKey : MaskKey) (fin rsv1 : Bool) :
    Bytes :=
  let payloadLen := payload.length
  let headerSize := headerSize payloadLen + 4
  let frame := Buffer.resize 0 [] (headerSize + payloadLen)
  let frame := writeHeader frame 0 0x80 opcode payloadLen fin rsv1
  let maskKeyOffset := if payloadLen ≤ 125 then 2 else if payloadLen ≤ 65535 then 4 else 10
  let frame := Buffer.copy frame maskKeyOffset maskKey.toBytes
  if payloadLen > 0 then
    Buffer.update (Buffer.copy frame headerSize payload) headerSize payloadLen (unmaskPayload maskKey)
  else frame

/-- The encoder of the session: it appends to what the batch already holds. -/
def encodeFrame (dst : Bytes) (opcode : WsOpcode) (payload : Bytes)
    (fin rsv1 : Bool) : Bytes :=
  let payloadLen := payload.length
  let base := dst.length
  let dst := Buffer.resize 0 dst (base + headerSize payloadLen + payloadLen)
  let dst := writeHeader dst base 0 opcode payloadLen fin rsv1
  if payloadLen > 0 then Buffer.copy dst (base + headerSize payloadLen) payload else dst

theorem ofNat_and_octet (n : Nat) : UInt8.ofNat (n &&& 0xFF) = UInt8.ofNat n := by
  apply UInt8.toNat.inj
  rw [UInt8.toNat_ofNat', UInt8.toNat_ofNat']
  exact (congrArg (· % 256) (Nat.and_two_pow_sub_one_eq_mod n 8)).trans (Nat.mod_mod n 256)

theorem shift_octet (n k : Nat) : n >>> (8 * k) = n / 256 ^ k := by
  rw [Nat.shiftRight_eq_div_pow, Nat.pow_mul]

theorem frameLength_length (mask : UInt8) (n : Nat) :
    (frameLength mask n).length + 1 = headerSize n := by
  rw [frameLength, headerSize]
  split
  · next h =>
    rw [if_neg (by omega), if_neg (by omega)]
    rfl
  · split
    · next h₁ h =>
      rw [if_neg (by omega), if_pos (by omega), List.length_cons, beBytes_length]
    · next h₁ h =>
      rw [if_pos (by omega), List.length_cons, beBytes_length]

theorem writeHeader_eq (mask : UInt8) (opcode : WsOpcode) (n : Nat) (fin rsv1 : Bool)
    (h : base + headerSize n ≤ out.length) :
    writeHeader out base mask opcode n fin rsv1 =
      Buffer.copy out base (frameByte0 opcode fin rsv1 :: frameLength mask n) := by
  rw [headerSize] at h
  have hbase : base < out.length := by omega
  simp only [writeHeader, frameLength, Buffer.set_eq_copy hbase]
  split
  · rw [Buffer.set_copy (k := 1) rfl (by omega)]
    rfl
  · next h₁ =>
    split
    · next h₂ =>
      rw [if_neg (by omega), if_pos (by omega)] at h
      rw [Buffer.set_copy (k := 1) rfl (by omega), Buffer.set_copy (k := 2) rfl (by omega),
        Buffer.set_copy (k := 3) rfl (by omega)]
      simp only [List.cons_append, List.nil_append]
      rw [ofNat_and_octet, Nat.mod_eq_of_lt (by omega), shift_octet n 1]
      simp only [beBytes, Nat.pow_zero, Nat.div_one]
    · next h₂ =>
      rw [if_pos (by omega)] at h
      rw [Buffer.set_copy (k := 1) rfl (by omega), Buffer.set_copy (k := 2) rfl (by omega),
        Buffer.set_copy (k := 3) rfl (by omega), Buffer.set_copy (k := 4) rfl (by omega),
        Buffer.set_copy (k := 5) rfl (by omega), Buffer.set_copy (k := 6) rfl (by omega),
        Buffer.set_copy (k := 7) rfl (by omega), Buffer.set_copy (k := 8) rfl (by omega),
        Buffer.set_copy (k := 9) rfl (by omega)]
      simp only [List.cons_append, List.nil_append]
      simp only [ofNat_and_octet, shift_octet n 7, shift_octet n 6, shift_octet n 5, shift_octet n 4,
        shift_octet n 3, shift_octet n 2, shift_octet n 1, beBytes, Nat.pow_zero, Nat.div_one]

theorem writeHeader_room (before : Bytes) (mask : UInt8) (opcode : WsOpcode) (n k : Nat)
    (fin rsv1 : Bool) :
    writeHeader (before ++ List.replicate (headerSize n + k) 0) before.length mask opcode n fin rsv1 =
      before ++ frameByte0 opcode fin rsv1 :: frameLength mask n ++ List.replicate k 0 := by
  have hlen : (List.replicate (headerSize n) (0 : UInt8)).length =
      (frameByte0 opcode fin rsv1 :: frameLength mask n).length := by
    rw [List.length_replicate, List.length_cons, frameLength_length]
  rw [writeHeader_eq, List.replicate_add, ← List.append_assoc, Buffer.copy_between hlen]
  rw [List.length_append, List.length_replicate]
  omega

theorem copy_payload (before payload : Bytes) :
    (if payload.length > 0 then
        Buffer.copy (before ++ List.replicate payload.length 0) before.length payload
      else before ++ List.replicate payload.length 0) = before ++ payload := by
  split
  · have hlen : (List.replicate payload.length (0 : UInt8)).length = payload.length :=
      List.length_replicate
    have h := Buffer.copy_between hlen before []
    rw [List.append_nil, List.append_nil] at h
    exact h
  · next h =>
    obtain rfl := List.eq_nil_of_length_eq_zero (Nat.eq_zero_of_not_pos h)
    rfl

theorem encodeFrame_eq (dst : Bytes) (opcode : WsOpcode) (payload : Bytes)
    (fin rsv1 : Bool) :
    encodeFrame dst opcode payload fin rsv1 =
      dst ++ Hical.encodeFrame opcode payload fin rsv1 := by
  have hlen : (dst ++ frameByte0 opcode fin rsv1 :: frameLength 0 payload.length).length =
      dst.length + headerSize payload.length := by
    rw [List.length_append, List.length_cons, frameLength_length]
  rw [encodeFrame, Nat.add_assoc, Buffer.resize_grow]
  simp only [writeHeader_room]
  rw [← hlen, copy_payload, Hical.encodeFrame, List.append_assoc]

theorem buildWsFrame_eq (opcode : WsOpcode) (payload : Bytes) (fin rsv1 : Bool) :
    buildWsFrame opcode payload fin rsv1 = Hical.encodeFrame opcode payload fin rsv1 := by
  have h := encodeFrame_eq [] opcode payload fin rsv1
  rw [encodeFrame, List.nil_append] at h
  simp only [List.length_nil, Nat.zero_add] at h
  exact h

theorem maskKeyOffset_eq (n : Nat) :
    (if n ≤ 125 then 2 else if n ≤ 65535 then 4 else 10) = headerSize n := by
  rw [headerSize]
  split
  · rw [if_neg (by omega), if_neg (by omega)]
  · split
    · rw [if_neg (by omega), if_pos (by omega)]
    · rw [if_pos (by omega)]

theorem buildMaskedWsFrame_eq (opcode : WsOpcode) (payload : Bytes) (key : MaskKey)
    (fin rsv1 : Bool) :
    buildMaskedWsFrame opcode payload key fin rsv1 =
      Hical.buildMaskedWsFrame opcode payload key fin rsv1 := by
  have hhead : (frameByte0 opcode fin rsv1 :: frameLength 0x80 payload.length).length =
      headerSize payload.length := by
    rw [List.length_cons, frameLength_length]
  have hmask : (List.replicate 4 (0 : UInt8)).length = key.toBytes.length := rfl
  have hfull : (frameByte0 opcode fin rsv1 :: frameLength 0x80 payload.length ++ key.toBytes).length =
      headerSize payload.length + 4 := by
    rw [List.length_append, hhead]
    rfl
  have hroom := writeHeader_room [] 0x80 opcode payload.length (4 + payload.length) fin rsv1
  rw [List.nil_append, List.nil_append, List.length_nil, ← Nat.add_assoc] at hroom
  have hresize := Buffer.resize_grow (0 : UInt8) [] (headerSize payload.length + 4 + payload.length)
  rw [List.length_nil, Nat.zero_add, List.nil_append] at hresize
  have hkey := Buffer.copy_between hmask
    (frameByte0 opcode fin rsv1 :: frameLength 0x80 payload.length)
    (List.replicate payload.length 0)
  rw [hhead, List.append_assoc, ← List.replicate_add] at hkey
  rw [buildMaskedWsFrame]
  simp only [hresize, hroom, maskKeyOffset_eq, hkey]
  have hcopy := copy_payload
    (frameByte0 opcode fin rsv1 :: frameLength 0x80 payload.length ++ key.toBytes) payload
  rw [hfull] at hcopy
  split
  · next hpos =>
    rw [if_pos hpos] at hcopy
    have hupdate := Buffer.update_between (unmaskPayload key) (unmaskPayload_length key payload)
      (frameByte0 opcode fin rsv1 :: frameLength 0x80 payload.length ++ key.toBytes) []
    rw [List.append_nil, List.append_nil, hfull] at hupdate
    rw [hcopy, hupdate]
    rfl
  · next hzero =>
    obtain rfl := List.eq_nil_of_length_eq_zero (Nat.eq_zero_of_not_pos hzero)
    rw [if_neg hzero] at hcopy
    exact hcopy

theorem frame_round_trip (opcode : WsOpcode) (payload : Bytes) (key : MaskKey) (fin rsv1 : Bool)
    (hl : payload.length < 2 ^ 63) (more dst : Bytes) :
    ∃ hdr, parseWsFrameHeader (buildMaskedWsFrame opcode payload key fin rsv1 ++ more) = some hdr ∧
      hdr.fin = fin ∧ hdr.rsv1 = rsv1 ∧ hdr.rsv2 = false ∧ hdr.rsv3 = false ∧
      hdr.opcode.toByte = opcode.toByte &&& 0x0F ∧
      (opcode.toByte < 16 → hdr.opcode.toByte = opcode.toByte) ∧
      hdr.masked = true ∧ hdr.maskKey = key ∧ hdr.payloadLength = payload.length ∧
      unmaskPayload key (((buildMaskedWsFrame opcode payload key fin rsv1 ++ more).drop
        hdr.headerSize).take payload.length) = payload ∧
      (∀ n, parseWsFrameHeader ((buildMaskedWsFrame opcode payload key fin rsv1 ++ more).take n) =
        if n < hdr.headerSize then none else some hdr) ∧
      encodeFrame dst opcode payload fin rsv1 =
        dst ++ buildWsFrame opcode payload fin rsv1 := by
  obtain ⟨size, hparse, -, hdrop⟩ := parseWsFrameHeader_nibble opcode payload key fin rsv1
    (Nat.lt_trans hl (by decide)) more
  rw [buildMaskedWsFrame_eq]
  refine ⟨_, hparse, rfl, rfl, rfl, rfl, WsOpcode.toByte_ofNibble _, ?_, rfl, rfl, rfl, ?_,
    parseWsFrameHeader_take hparse, ?_⟩
  · intro hbyte
    rw [WsOpcode.toByte_ofNibble]
    apply UInt8.toNat.inj
    rw [UInt8.toNat_and]
    exact (Nat.and_two_pow_sub_one_eq_mod _ 4).trans (Nat.mod_eq_of_lt hbyte)
  · dsimp only
    rw [hdrop, List.take_left' (unmaskPayload_length key payload), unmaskPayload_unmaskPayload]
  · rw [encodeFrame_eq, buildWsFrame_eq]

theorem frame_round_trip_text :
    [0x68, 0x69].length < 2 ^ 63 ∧
      ∃ hdr, parseWsFrameHeader (buildMaskedWsFrame .hText [0x68, 0x69] ⟨1, 2, 3, 4⟩ true false ++
        [0x81]) = some hdr ∧ hdr.payloadLength = 2 ∧ hdr.opcode.toByte = WsOpcode.hText.toByte :=
  ⟨by decide,
    let ⟨hdr, h, _, _, _, _, _, ho, _, _, hp, _⟩ :=
      frame_round_trip .hText [0x68, 0x69] ⟨1, 2, 3, 4⟩ true false (by decide) [0x81] []
    ⟨hdr, h, hp, ho (by decide)⟩⟩

end WsFrame

end Hical
