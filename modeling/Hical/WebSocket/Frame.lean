import Hical.Bytes

namespace Hical

inductive WsOpcode where
  | hContinuation
  | hText
  | hBinary
  | hClose
  | hPing
  | hPong
  | unknown (value : UInt8)
  deriving DecidableEq, Repr

namespace WsOpcode

def ofNibble (n : UInt8) : WsOpcode :=
  if n = 0x0 then .hContinuation
  else if n = 0x1 then .hText
  else if n = 0x2 then .hBinary
  else if n = 0x8 then .hClose
  else if n = 0x9 then .hPing
  else if n = 0xA then .hPong
  else .unknown n

def toByte : WsOpcode → UInt8
  | hContinuation => 0x0
  | hText => 0x1
  | hBinary => 0x2
  | hClose => 0x8
  | hPing => 0x9
  | hPong => 0xA
  | unknown value => value

def isControl (op : WsOpcode) : Bool := 0x08 ≤ op.toByte

end WsOpcode

inductive WsCloseCode where
  | hNormal
  | hProtocolError
  | hMessageTooBig
  deriving DecidableEq, Repr

def WsCloseCode.toNat : WsCloseCode → Nat
  | hNormal => 1000
  | hProtocolError => 1002
  | hMessageTooBig => 1009

structure MaskKey where
  k₀ : UInt8
  k₁ : UInt8
  k₂ : UInt8
  k₃ : UInt8
  deriving DecidableEq, Repr

def MaskKey.zero : MaskKey := ⟨0, 0, 0, 0⟩

def MaskKey.toBytes (key : MaskKey) : Bytes := [key.k₀, key.k₁, key.k₂, key.k₃]

def MaskKey.ofBytes : Bytes → MaskKey
  | k₀ :: k₁ :: k₂ :: k₃ :: _ => ⟨k₀, k₁, k₂, k₃⟩
  | _ => .zero

structure WsFrameHeader where
  fin : Bool
  rsv1 : Bool
  rsv2 : Bool
  rsv3 : Bool
  opcode : WsOpcode
  masked : Bool
  payloadLength : Nat
  maskKey : MaskKey
  headerSize : Nat
  deriving DecidableEq, Repr

def WsFrameHeader.frameSize (hdr : WsFrameHeader) : Nat := hdr.headerSize + hdr.payloadLength

/-- The value of a big-endian byte string. -/
def beNat (bs : Bytes) : Nat := bs.foldl (fun n b => n * 256 + b.toNat) 0

/-- The last `k` bytes of a number, big-endian. -/
def beBytes : Nat → Nat → Bytes
  | 0, _ => []
  | k + 1, n => UInt8.ofNat (n / 256 ^ k) :: beBytes k n

def extLenBytes (rawLen : UInt8) : Nat :=
  if rawLen = 126 then 2 else if rawLen = 127 then 8 else 0

def maskBytes (byte1 : UInt8) : Nat := if byte1 &&& 0x80 ≠ 0 then 4 else 0

/-- The header whose first two bytes are given, read from enough bytes behind them. -/
def wsFrameHeader (byte0 byte1 : UInt8) (rest : Bytes) : WsFrameHeader where
  fin := byte0 &&& 0x80 ≠ 0
  rsv1 := byte0 &&& 0x40 ≠ 0
  rsv2 := byte0 &&& 0x20 ≠ 0
  rsv3 := byte0 &&& 0x10 ≠ 0
  opcode := .ofNibble (byte0 &&& 0x0F)
  masked := byte1 &&& 0x80 ≠ 0
  payloadLength :=
    if extLenBytes (byte1 &&& 0x7F) = 0 then (byte1 &&& 0x7F).toNat
    else beNat (rest.take (extLenBytes (byte1 &&& 0x7F)))
  maskKey :=
    if byte1 &&& 0x80 ≠ 0 then .ofBytes (rest.drop (extLenBytes (byte1 &&& 0x7F))) else .zero
  headerSize := 2 + extLenBytes (byte1 &&& 0x7F) + maskBytes byte1

def parseWsFrameHeader : Bytes → Option WsFrameHeader
  | byte0 :: byte1 :: rest =>
    if (byte0 :: byte1 :: rest).length < (wsFrameHeader byte0 byte1 rest).headerSize then none
    else some (wsFrameHeader byte0 byte1 rest)
  | _ => none

/-- XOR with the key: four bytes at a time, then the tail byte by byte. -/
def unmaskPayload (key : MaskKey) : Bytes → Bytes
  | a :: b :: c :: d :: rest =>
    (a ^^^ key.k₀) :: (b ^^^ key.k₁) :: (c ^^^ key.k₂) :: (d ^^^ key.k₃) :: unmaskPayload key rest
  | [a, b, c] => [a ^^^ key.k₀, b ^^^ key.k₁, c ^^^ key.k₂]
  | [a, b] => [a ^^^ key.k₀, b ^^^ key.k₁]
  | [a] => [a ^^^ key.k₀]
  | [] => []

def frameByte0 (opcode : WsOpcode) (fin rsv1 : Bool) : UInt8 :=
  (if fin then 0x80 else 0) ||| (if rsv1 then 0x40 else 0) ||| (opcode.toByte &&& 0x0F)

/-- The length field: the low bits of the second byte under the mask flag, and the extension. -/
def frameLength (mask : UInt8) (payloadLen : Nat) : Bytes :=
  if payloadLen ≤ 125 then [mask ||| UInt8.ofNat payloadLen]
  else if payloadLen ≤ 65535 then (mask ||| 126) :: beBytes 2 payloadLen
  else (mask ||| 127) :: beBytes 8 payloadLen

/-- A frame of the server, which is never masked. -/
def encodeFrame (opcode : WsOpcode) (payload : Bytes) (fin rsv1 : Bool) : Bytes :=
  frameByte0 opcode fin rsv1 :: frameLength 0 payload.length ++ payload

def buildMaskedWsFrame (opcode : WsOpcode) (payload : Bytes) (key : MaskKey) (fin rsv1 : Bool) :
    Bytes :=
  frameByte0 opcode fin rsv1 :: frameLength 0x80 payload.length ++ key.toBytes ++
    unmaskPayload key payload

def buildClosePayload (code : WsCloseCode) (reason : Bytes) : Bytes :=
  beBytes 2 code.toNat ++ reason.take 123

theorem unmaskPayload_length (key : MaskKey) (data : Bytes) :
    (unmaskPayload key data).length = data.length := by
  induction data using unmaskPayload.induct with
  | case1 a b c d rest ih => simp [unmaskPayload, ih]
  | case2 a b c => rfl
  | case3 a b => rfl
  | case4 a => rfl
  | case5 => rfl

theorem unmaskPayload_unmaskPayload (key : MaskKey) (data : Bytes) :
    unmaskPayload key (unmaskPayload key data) = data := by
  have hx (x k : UInt8) : x ^^^ k ^^^ k = x := by
    rw [UInt8.xor_assoc, UInt8.xor_self, UInt8.xor_zero]
  induction data using unmaskPayload.induct with
  | case1 a b c d rest ih => simp [unmaskPayload, ih, hx]
  | case2 a b c | case3 a b | case4 a => simp [unmaskPayload, hx]
  | case5 => rfl

theorem beBytes_length (k n : Nat) : (beBytes k n).length = k := by
  induction k with
  | zero => rfl
  | succ k ih => simp [beBytes, ih]

theorem MaskKey.ofBytes_append {bs : Bytes} (h : 4 ≤ bs.length) (more : Bytes) :
    MaskKey.ofBytes (bs ++ more) = MaskKey.ofBytes bs := by
  match bs, h with
  | _ :: _ :: _ :: _ :: _, _ => rfl

theorem MaskKey.ofBytes_toBytes (key : MaskKey) (more : Bytes) :
    MaskKey.ofBytes (key.toBytes ++ more) = key := rfl

theorem wsFrameHeader_append (byte0 byte1 : UInt8) {rest : Bytes}
    (h : (wsFrameHeader byte0 byte1 rest).headerSize ≤ rest.length + 2) (more : Bytes) :
    wsFrameHeader byte0 byte1 (rest ++ more) = wsFrameHeader byte0 byte1 rest := by
  simp only [wsFrameHeader] at h
  simp only [wsFrameHeader, WsFrameHeader.mk.injEq, true_and, and_true]
  constructor
  · rw [List.take_append_of_le_length (by omega)]
  · by_cases hm : byte1 &&& 0x80 ≠ 0
    · rw [maskBytes, if_pos hm] at h
      rw [List.drop_append_of_le_length (by omega),
        MaskKey.ofBytes_append (by rw [List.length_drop]; omega)]
    · rw [if_neg hm, if_neg hm]

theorem parseWsFrameHeader_size (h : parseWsFrameHeader data = some hdr) :
    2 ≤ hdr.headerSize ∧ hdr.headerSize ≤ data.length := by
  match data with
  | [] => cases h
  | [_] => cases h
  | byte0 :: byte1 :: rest =>
    rw [parseWsFrameHeader] at h
    split at h
    · cases h
    · next hl =>
      obtain rfl := Option.some.inj h
      exact ⟨by simp only [wsFrameHeader]; omega, Nat.le_of_not_lt hl⟩

theorem parseWsFrameHeader_append (h : parseWsFrameHeader data = some hdr) (more : Bytes) :
    parseWsFrameHeader (data ++ more) = some hdr := by
  match data with
  | [] => cases h
  | [_] => cases h
  | byte0 :: byte1 :: rest =>
    have hs := (parseWsFrameHeader_size h).2
    rw [parseWsFrameHeader] at h
    split at h
    · cases h
    · obtain rfl := Option.some.inj h
      have ha := wsFrameHeader_append byte0 byte1 hs more
      rw [List.cons_append, List.cons_append, parseWsFrameHeader, ha, if_neg]
      simp only [List.length_cons, List.length_append] at hs ⊢
      omega

section RoundTrip

theorem beNat_foldl (bs : Bytes) (n : Nat) :
    bs.foldl (fun n b => n * 256 + b.toNat) n = n * 256 ^ bs.length + beNat bs := by
  induction bs generalizing n with
  | nil => simp [beNat]
  | cons b bs ih =>
    have hb : beNat (b :: bs) = b.toNat * 256 ^ bs.length + beNat bs := by
      rw [beNat, List.foldl_cons, ih]
      simp
    rw [List.foldl_cons, ih, hb, List.length_cons, Nat.pow_succ]
    rw [Nat.add_mul, Nat.mul_assoc, Nat.mul_comm 256, Nat.add_assoc]

theorem beNat_beBytes (k n : Nat) : beNat (beBytes k n) = n % 256 ^ k := by
  induction k with
  | zero => simp [beBytes, beNat, Nat.mod_one]
  | succ k ih =>
    rw [beBytes, beNat, List.foldl_cons, beNat_foldl, ih, beBytes_length]
    have hb : (UInt8.ofNat (n / 256 ^ k)).toNat = n / 256 ^ k % 256 := by simp
    rw [hb, Nat.zero_mul, Nat.zero_add, Nat.pow_succ, Nat.mod_mul, Nat.mul_comm, Nat.add_comm]

theorem byte1_length (n : Nat) (h : n < 128) : (0x80 ||| UInt8.ofNat n) &&& 0x7F = UInt8.ofNat n := by
  have hf : ∀ m : Fin 128, (0x80 ||| UInt8.ofNat m) &&& 0x7F = UInt8.ofNat m := by decide
  exact hf ⟨n, h⟩

theorem byte1_masked (n : Nat) (h : n < 128) : (0x80 ||| UInt8.ofNat n) &&& 0x80 ≠ 0 := by
  have hf : ∀ m : Fin 128, (0x80 ||| UInt8.ofNat m) &&& 0x80 ≠ 0 := by decide
  exact hf ⟨n, h⟩

theorem byte0_fields (fin rsv1 : Bool) (n : Fin 16) :
    let b := (if fin then 0x80 else 0) ||| (if rsv1 then 0x40 else 0) ||| UInt8.ofNat n
    decide (b &&& 0x80 ≠ 0) = fin ∧ decide (b &&& 0x40 ≠ 0) = rsv1 ∧
      decide (b &&& 0x20 ≠ 0) = false ∧ decide (b &&& 0x10 ≠ 0) = false ∧
      b &&& 0x0F = UInt8.ofNat n := by
  revert n
  cases fin <;> cases rsv1 <;> decide

theorem frameByte0_fields (opcode : WsOpcode) (fin rsv1 : Bool) :
    decide (frameByte0 opcode fin rsv1 &&& 0x80 ≠ 0) = fin ∧
    decide (frameByte0 opcode fin rsv1 &&& 0x40 ≠ 0) = rsv1 ∧
    decide (frameByte0 opcode fin rsv1 &&& 0x20 ≠ 0) = false ∧
    decide (frameByte0 opcode fin rsv1 &&& 0x10 ≠ 0) = false ∧
    frameByte0 opcode fin rsv1 &&& 0x0F = opcode.toByte &&& 0x0F := by
  have hn : (opcode.toByte &&& 0x0F).toNat < 16 := by
    rw [UInt8.toNat_and]
    exact Nat.lt_of_le_of_lt Nat.and_le_right (by decide)
  have h := byte0_fields fin rsv1 ⟨_, hn⟩
  rw [UInt8.ofNat_toNat] at h
  exact h

theorem parseWsFrameHeader_masked {byte0 byte1 : UInt8} {ext : Bytes}
    (hm : byte1 &&& 0x80 ≠ 0) (he : extLenBytes (byte1 &&& 0x7F) = ext.length) (key : MaskKey)
    (more : Bytes) :
    parseWsFrameHeader (byte0 :: byte1 :: (ext ++ (key.toBytes ++ more))) = some {
      fin := byte0 &&& 0x80 ≠ 0
      rsv1 := byte0 &&& 0x40 ≠ 0
      rsv2 := byte0 &&& 0x20 ≠ 0
      rsv3 := byte0 &&& 0x10 ≠ 0
      opcode := .ofNibble (byte0 &&& 0x0F)
      masked := true
      payloadLength := if ext.length = 0 then (byte1 &&& 0x7F).toNat else beNat ext
      maskKey := key
      headerSize := 2 + ext.length + 4 } := by
  have hs : wsFrameHeader byte0 byte1 (ext ++ (key.toBytes ++ more)) = {
      fin := byte0 &&& 0x80 ≠ 0
      rsv1 := byte0 &&& 0x40 ≠ 0
      rsv2 := byte0 &&& 0x20 ≠ 0
      rsv3 := byte0 &&& 0x10 ≠ 0
      opcode := .ofNibble (byte0 &&& 0x0F)
      masked := true
      payloadLength := if ext.length = 0 then (byte1 &&& 0x7F).toNat else beNat ext
      maskKey := key
      headerSize := 2 + ext.length + 4 } := by
    simp only [wsFrameHeader, he, maskBytes, if_pos hm, decide_eq_true hm, List.take_left,
      List.drop_left, MaskKey.ofBytes_toBytes]
  rw [parseWsFrameHeader, hs, if_neg]
  simp only [List.length_cons, List.length_append, MaskKey.toBytes, List.length_nil]
  omega

theorem frameLength_masked {n : Nat} (h : n < 2 ^ 64) :
    ∃ byte1 ext, frameLength 0x80 n = byte1 :: ext ∧ byte1 &&& 0x80 ≠ 0 ∧
      extLenBytes (byte1 &&& 0x7F) = ext.length ∧
      (if ext.length = 0 then (byte1 &&& 0x7F).toNat else beNat ext) = n := by
  rw [frameLength]
  split
  · next hn =>
    refine ⟨_, [], rfl, byte1_masked n (by omega), ?_, ?_⟩
    · rw [byte1_length n (by omega), extLenBytes, if_neg, if_neg]
      · rfl
      · intro hc
        have := congrArg UInt8.toNat hc
        simp at this
        omega
      · intro hc
        have := congrArg UInt8.toNat hc
        simp at this
        omega
    · rw [byte1_length n (by omega)]
      simp
      omega
  · split
    · next hn =>
      refine ⟨_, _, rfl, by decide, rfl, ?_⟩
      rw [beBytes_length, beNat_beBytes, if_neg (by decide)]
      exact Nat.mod_eq_of_lt (by omega)
    · refine ⟨_, _, rfl, by decide, rfl, ?_⟩
      rw [beBytes_length, beNat_beBytes, if_neg (by decide)]
      exact Nat.mod_eq_of_lt h

/-- A client frame reads back, whatever follows; the opcode keeps its low four bits. -/
theorem parseWsFrameHeader_nibble (opcode : WsOpcode) (payload : Bytes) (key : MaskKey)
    (fin rsv1 : Bool) (hl : payload.length < 2 ^ 64) (more : Bytes) :
    ∃ size, parseWsFrameHeader (buildMaskedWsFrame opcode payload key fin rsv1 ++ more) =
        some ⟨fin, rsv1, false, false, .ofNibble (opcode.toByte &&& 0x0F), true, payload.length, key,
          size⟩ ∧
      size + payload.length = (buildMaskedWsFrame opcode payload key fin rsv1).length ∧
      (buildMaskedWsFrame opcode payload key fin rsv1 ++ more).drop size =
        unmaskPayload key payload ++ more := by
  obtain ⟨byte1, ext, hf, hm, he, hn⟩ := frameLength_masked hl
  obtain ⟨h₁, h₂, h₃, h₄, h₅⟩ := frameByte0_fields opcode fin rsv1
  have hb : buildMaskedWsFrame opcode payload key fin rsv1 =
      frameByte0 opcode fin rsv1 :: byte1 :: (ext ++ (key.toBytes ++ unmaskPayload key payload)) := by
    simp only [buildMaskedWsFrame, hf, List.cons_append, List.append_assoc]
  refine ⟨2 + ext.length + 4, ?_, ?_, ?_⟩
  · simp only [hb, List.cons_append, List.append_assoc]
    rw [parseWsFrameHeader_masked hm he, h₁, h₂, h₃, h₄, h₅, hn]
  · rw [hb]
    simp only [List.length_cons, List.length_append, MaskKey.toBytes, List.length_nil,
      unmaskPayload_length]
    omega
  · have hd : 2 + ext.length + 4 = (ext ++ key.toBytes).length + 2 := by
      simp only [List.length_append, MaskKey.toBytes, List.length_cons, List.length_nil]
      omega
    rw [hb, hd, List.cons_append, List.cons_append, List.drop_succ_cons, List.drop_succ_cons,
      ← List.append_assoc, List.append_assoc (ext ++ key.toBytes), List.drop_left]

theorem parseWsFrameHeader_buildMasked (opcode : WsOpcode) (payload : Bytes) (key : MaskKey)
    (fin rsv1 : Bool) (hl : payload.length < 2 ^ 64)
    (ho : .ofNibble (opcode.toByte &&& 0x0F) = opcode) (more : Bytes) :
    ∃ size, parseWsFrameHeader (buildMaskedWsFrame opcode payload key fin rsv1 ++ more) =
        some ⟨fin, rsv1, false, false, opcode, true, payload.length, key, size⟩ ∧
      size + payload.length = (buildMaskedWsFrame opcode payload key fin rsv1).length ∧
      (buildMaskedWsFrame opcode payload key fin rsv1 ++ more).drop size =
        unmaskPayload key payload ++ more := by
  have h := parseWsFrameHeader_nibble opcode payload key fin rsv1 hl more
  rw [ho] at h
  exact h

theorem parseWsFrameHeader_take (h : parseWsFrameHeader data = some hdr) (n : Nat) :
    parseWsFrameHeader (data.take n) = if n < hdr.headerSize then none else some hdr := by
  have hs := parseWsFrameHeader_size h
  match data with
  | [] => cases h
  | [_] => cases h
  | byte0 :: byte1 :: rest =>
    rw [parseWsFrameHeader] at h
    split at h
    · cases h
    · obtain rfl := Option.some.inj h
      match n with
      | 0 => rw [if_pos (by omega)]; rfl
      | 1 => rw [if_pos (by omega)]; rfl
      | m + 2 =>
        rw [List.take_succ_cons, List.take_succ_cons, parseWsFrameHeader]
        have hsize : (wsFrameHeader byte0 byte1 (rest.take m)).headerSize =
            (wsFrameHeader byte0 byte1 rest).headerSize := rfl
        have hlen := hs.2
        simp only [List.length_cons, List.length_take, hsize] at hlen ⊢
        by_cases hm : m + 2 < (wsFrameHeader byte0 byte1 rest).headerSize
        · rw [if_pos hm, if_pos (by omega)]
        · rw [if_neg hm, if_neg (by omega)]
          have hmore : (wsFrameHeader byte0 byte1 (rest.take m)).headerSize ≤
              (rest.take m).length + 2 := by
            rw [hsize, List.length_take]
            omega
          have ha := wsFrameHeader_append byte0 byte1 hmore (rest.drop m)
          rw [List.take_append_drop] at ha
          rw [ha]

theorem WsOpcode.toByte_ofNibble (n : UInt8) : (WsOpcode.ofNibble n).toByte = n := by
  unfold WsOpcode.ofNibble
  split
  · next h => exact h.symm
  · split
    · next h => exact h.symm
    · split
      · next h => exact h.symm
      · split
        · next h => exact h.symm
        · split
          · next h => exact h.symm
          · split
            · next h => exact h.symm
            · rfl

end RoundTrip

end Hical
