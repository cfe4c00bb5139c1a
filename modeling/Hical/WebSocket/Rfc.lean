import Hical.WebSocket.Drain

namespace Hical

namespace WebSocketSession

/-- A masked frame without reserved bits, as a client builds it. -/
structure ClientFrame where
  fin : Bool
  opcode : WsOpcode
  key : MaskKey
  payload : Bytes
  opcode_ok : .ofNibble (opcode.toByte &&& 0x0F) = opcode
  length_ok : payload.length < 2 ^ 64

def ClientFrame.wire (f : ClientFrame) : Bytes :=
  buildMaskedWsFrame f.opcode f.payload f.key f.fin false

def wire (fs : List ClientFrame) : Bytes := fs.flatMap ClientFrame.wire

def closeStatus (payload : Bytes) : Option Nat :=
  if 2 ≤ payload.length then some (beNat (payload.take 2)) else none

/-- What the peer of a session sees: the messages it delivers and how it closes. -/
def outcome (r : List WsMessage × Option Bytes) : List WsMessage × Option (Option Nat) :=
  (r.1, r.2.map closeStatus)

/-- The message in progress, if there is one. -/
abbrev Pending := Option (WsOpcode × Bytes)

inductive RfcStep where
  | stop (status : Option Nat)
  | step (pending : Pending) (message : Option WsMessage)
  deriving DecidableEq, Repr

/-- The frame breaks the fragmentation grammar: a continuation of nothing, a new message inside a
message, or a control frame in fragments. -/
def violates (pending : Pending) (f : ClientFrame) : Bool :=
  match f.opcode with
  | .hContinuation => pending.isNone
  | .hText => pending.isSome
  | .hBinary => pending.isSome
  | .hClose => !f.fin
  | .hPing => !f.fin
  | .hPong => !f.fin
  | .unknown _ => false

def sizeStatus (limit : Nat) (f : ClientFrame) : Option Nat :=
  if f.opcode.isControl && 125 < f.payload.length then some 1002
  else if limit < f.payload.length then some 1009
  else none

def rfcAppend (limit : Nat) (f : ClientFrame) (opcode : WsOpcode) (buf : Bytes) : RfcStep :=
  if limit < (buf ++ f.payload).length then .stop (some 1009)
  else if f.fin then .step none (some ⟨opcode, buf ++ f.payload⟩)
  else .step (some (opcode, buf ++ f.payload)) none

/-- A frame that fits what is in progress. -/
def rfcFrame (limit : Nat) (pending : Pending) (f : ClientFrame) : RfcStep :=
  match f.opcode, pending with
  | .hClose, _ => .stop (closeStatus f.payload)
  | .hPing, pending => .step pending none
  | .hPong, pending => .step pending none
  | .hText, _ => rfcAppend limit f .hText []
  | .hBinary, _ => rfcAppend limit f .hBinary []
  | .hContinuation, some (opcode, buf) => rfcAppend limit f opcode buf
  | .hContinuation, none => .stop (some 1002)
  | .unknown _, _ => .stop (some 1002)

/-- The fragmentation rules of RFC 6455, under the session's own size limits. -/
def rfcStep (limit : Nat) (pending : Pending) (f : ClientFrame) : RfcStep :=
  match sizeStatus limit f with
  | some status => .stop (some status)
  | none => if violates pending f then .stop (some 1002) else rfcFrame limit pending f

def rfc (limit : Nat) : Pending → List ClientFrame → List WsMessage × Option (Option Nat)
  | _, [] => ([], none)
  | pending, f :: fs =>
    match rfcStep limit pending f with
    | .stop status => ([], some status)
    | .step pending message =>
      (message.toList ++ (rfc limit pending fs).1, (rfc limit pending fs).2)

/-- No frame that is reached breaks the grammar. A fragmented close frame that itself carries the
protocol-error status is the exception: its echo is the close that is asked for. -/
def conforming (limit : Nat) : Pending → List ClientFrame → Bool
  | _, [] => true
  | pending, f :: fs =>
    if sizeStatus limit f = none && violates pending f then
      f.opcode = .hClose && closeStatus f.payload = some 1002
    else
      match rfcStep limit pending f with
      | .stop _ => true
      | .step pending _ => conforming limit pending fs

section Frames
variable {limit : Nat} {f : ClientFrame} {fs : List ClientFrame} {pending : Pending}

def ClientFrame.header (f : ClientFrame) (size : Nat) : WsFrameHeader :=
  ⟨f.fin, false, false, false, f.opcode, true, f.payload.length, f.key, size⟩

theorem frameAction_header (limit : Nat) (buf : Bytes) (op : WsOpcode) (f : ClientFrame)
    (size : Nat) (payload : Bytes) : frameAction limit buf op (f.header size) payload =
      frameAction limit buf op (f.header 0) payload := rfl

theorem closeStatus_build (code : WsCloseCode) (reason : Bytes) :
    closeStatus (buildClosePayload code reason) = some code.toNat := by
  have hl := beBytes_length 2 code.toNat
  have ht : (buildClosePayload code reason).take 2 = beBytes 2 code.toNat := by
    rw [buildClosePayload, List.take_append_of_le_length (by omega),
      List.take_of_length_le (by omega)]
  rw [closeStatus, ht, if_pos, beNat_beBytes]
  · cases code <;> rfl
  · rw [buildClosePayload, List.length_append]
    omega

theorem headerError_size (limit : Nat) (f : ClientFrame) (size : Nat) :
    (headerError limit (f.header size)).map closeStatus = (sizeStatus limit f).map some := by
  have hh : headerError limit (f.header size) =
      if f.opcode.isControl && 125 < f.payload.length then
        some (buildClosePayload .hProtocolError (bytes "Control frame payload too large"))
      else if limit < f.payload.length then some (buildClosePayload .hMessageTooBig [])
      else none := rfl
  rw [hh, sizeStatus]
  split
  · exact congrArg some (closeStatus_build _ _)
  · split
    · exact congrArg some (closeStatus_build _ _)
    · rfl

theorem outcome_wire (buf : Bytes) (op : WsOpcode) (f : ClientFrame) (fs : List ClientFrame) :
    outcome (decoded limit buf op (wire (f :: fs))) =
      match sizeStatus limit f with
      | some status => ([], some (some status))
      | none =>
        match frameAction limit buf op (f.header 0) f.payload with
        | .close reply => ([], some (closeStatus reply))
        | .pong _ => outcome (decoded limit buf op (wire fs))
        | .skip => outcome (decoded limit buf op (wire fs))
        | .data buf op message =>
          (message.toList ++ (outcome (decoded limit buf op (wire fs))).1,
            (outcome (decoded limit buf op (wire fs))).2) := by
  obtain ⟨size, hp, hs, hd⟩ := parseWsFrameHeader_buildMasked f.opcode f.payload f.key f.fin false
    f.length_ok f.opcode_ok (wire fs)
  have hp : parseWsFrameHeader (wire (f :: fs)) = some (f.header size) := hp
  have hh := headerError_size limit f size
  cases he : headerError limit (f.header size) with
  | some reply =>
    rw [he] at hh
    rw [decoded_header_error hp he]
    cases hz : sizeStatus limit f with
    | none => rw [hz] at hh; cases hh
    | some status =>
      rw [hz] at hh
      simpa [outcome] using hh
  | none =>
    rw [he] at hh
    have hz : sizeStatus limit f = none := by
      cases hz : sizeStatus limit f with
      | none => rfl
      | some status => rw [hz] at hh; cases hh
    have hw : wire (f :: fs) = f.wire ++ wire fs := rfl
    have hf : (f.header size).frameSize = f.wire.length := hs
    have hrest : (wire (f :: fs)).drop (f.header size).frameSize = wire fs := by
      rw [hf, hw, List.drop_left]
    have hpay : framePayload (f.header size) (wire (f :: fs)) = f.payload := by
      have hl := unmaskPayload_length f.key f.payload
      rw [framePayload, hw]
      change unmaskPayload f.key (((f.wire ++ wire fs).drop size).take f.payload.length) = f.payload
      rw [ClientFrame.wire, hd, ← hl, List.take_left, unmaskPayload_unmaskPayload]
    rw [decoded_frame limit buf op hp he (by rw [hf, hw, List.length_append]; omega), hrest, hpay, hz,
      frameAction_header]
    cases frameAction limit buf op (f.header 0) f.payload <;> rfl

/-- The session's fragment state stands for the message in progress. -/
def Stands (buf : Bytes) (op : WsOpcode) : Pending → Prop
  | none => buf = []
  | some (opcode, pre) => buf = pre ∧ op = opcode

/-- The session does with a frame what the RFC does. -/
def Follows (pending : Pending) : FrameAction → RfcStep → Prop
  | .close reply, .stop status => closeStatus reply = status
  | .pong _, .step pending' message => pending' = pending ∧ message = none
  | .skip, .step pending' message => pending' = pending ∧ message = none
  | .data buf op message, .step pending' message' => message = message' ∧ Stands buf op pending'
  | _, _ => False

theorem appendFragment_follows (f : ClientFrame) (opcode : WsOpcode) (buf : Bytes) :
    Follows pending (appendFragment limit f.fin buf opcode f.payload)
      (rfcAppend limit f opcode buf) := by
  rw [appendFragment, rfcAppend]
  split
  · exact closeStatus_build _ _
  · cases f.fin with
    | true => exact ⟨rfl, rfl⟩
    | false => exact ⟨rfl, rfl, rfl⟩

theorem closeStatus_echo (payload : Bytes) :
    closeStatus (if 2 ≤ payload.length then payload else []) = closeStatus payload := by
  by_cases h : 2 ≤ payload.length
  · rw [if_pos h]
  · rw [if_neg h, closeStatus, closeStatus, if_neg h]
    rfl

theorem frameAction_follows (hz : sizeStatus limit f = none) (hv : violates pending f = false)
    (h : Stands buf op pending) :
    Follows pending (frameAction limit buf op (f.header 0) f.payload)
      (rfcStep limit pending f) := by
  have hr : rfcStep limit pending f = rfcFrame limit pending f := by
    simp only [rfcStep, hz, hv, Bool.false_eq_true, ↓reduceIte]
  have hh : (f.header 0).opcode = f.opcode := rfl
  have hfin : (f.header 0).fin = f.fin := rfl
  rw [hr, rfcFrame.eq_def, frameAction, hh, hfin]
  rw [violates] at hv
  cases ho : f.opcode with
  | hClose => exact closeStatus_echo f.payload
  | hPing => exact ⟨rfl, rfl⟩
  | hPong => exact ⟨rfl, rfl⟩
  | hText | hBinary => exact appendFragment_follows f _ _
  | hContinuation =>
    rw [ho] at hv
    cases pending with
    | none => cases hv
    | some p =>
      obtain ⟨rfl, rfl⟩ := h
      exact appendFragment_follows f _ _
  | unknown value => exact closeStatus_build _ _

theorem appendFragment_open (hz : sizeStatus limit f = none) (opcode : WsOpcode) :
    ∃ buf message, appendFragment limit f.fin [] opcode f.payload = .data buf opcode message := by
  have hl : ¬ limit < f.payload.length := by
    intro hl
    rw [sizeStatus] at hz
    split at hz
    · cases hz
    · cases hz
  rw [appendFragment, List.nil_append, if_neg hl]
  cases f.fin with
  | true => exact ⟨_, _, rfl⟩
  | false => exact ⟨_, _, rfl⟩

/-- Outside the grammar the session goes on as if nothing was wrong. -/
theorem outcome_violation (hz : sizeStatus limit f = none) (hv : violates pending f = true)
    (h : Stands buf op pending) (hc : ¬ (f.opcode = .hClose ∧ closeStatus f.payload = some 1002)) :
    (outcome (decoded limit buf op (wire [f]))).2 ≠ some (some 1002) := by
  have hh : (f.header 0).opcode = f.opcode := rfl
  have hfin : (f.header 0).fin = f.fin := rfl
  have hnil (buf : Bytes) (op : WsOpcode) :
      (outcome (decoded limit buf op (wire []))).2 = none := rfl
  rw [outcome_wire, hz]
  rw [frameAction, hh, hfin]
  rw [violates] at hv
  cases ho : f.opcode with
  | hClose =>
    dsimp only
    rw [closeStatus_echo]
    intro he
    exact hc ⟨ho, Option.some.inj he⟩
  | hPing => simp [hnil]
  | hPong => simp [hnil]
  | hText =>
    obtain ⟨buf', message, ha⟩ := appendFragment_open hz .hText
    simp [ha, hnil]
  | hBinary =>
    obtain ⟨buf', message, ha⟩ := appendFragment_open hz .hBinary
    simp [ha, hnil]
  | hContinuation =>
    rw [ho] at hv
    cases pending with
    | some p => cases hv
    | none =>
      obtain rfl : buf = [] := h
      obtain ⟨buf', message, ha⟩ := appendFragment_open hz op
      simp [ha, hnil]
  | unknown value =>
    rw [ho] at hv
    cases hv

theorem outcome_cons (hv : sizeStatus limit f = none → violates pending f = false)
    (h : Stands buf op pending) :
    (∃ status, rfcStep limit pending f = .stop status ∧
      ∀ fs, outcome (decoded limit buf op (wire (f :: fs))) = ([], some status)) ∨
    ∃ buf' op' pending' message, rfcStep limit pending f = .step pending' message ∧
      Stands buf' op' pending' ∧ ∀ fs, outcome (decoded limit buf op (wire (f :: fs))) =
        (message.toList ++ (outcome (decoded limit buf' op' (wire fs))).1,
          (outcome (decoded limit buf' op' (wire fs))).2) := by
  cases hz : sizeStatus limit f with
  | some status =>
    refine .inl ⟨some status, by rw [rfcStep, hz], fun fs => ?_⟩
    rw [outcome_wire, hz]
  | none =>
    have hf := frameAction_follows hz (hv hz) h
    cases ha : frameAction limit buf op (f.header 0) f.payload <;>
      cases hs : rfcStep limit pending f <;> rw [ha, hs] at hf
    case close.stop reply status =>
      refine .inl ⟨status, rfl, fun fs => ?_⟩
      rw [outcome_wire, hz, ha]
      exact congrArg (fun x => ([], some x)) hf
    case pong.step payload pending' message =>
      obtain ⟨rfl, rfl⟩ := hf
      refine .inr ⟨buf, op, _, _, rfl, h, fun fs => ?_⟩
      rw [outcome_wire, hz, ha]
      rfl
    case skip.step pending' message =>
      obtain ⟨rfl, rfl⟩ := hf
      refine .inr ⟨buf, op, _, _, rfl, h, fun fs => ?_⟩
      rw [outcome_wire, hz, ha]
      rfl
    case data.step buf' op' message pending' message' =>
      obtain ⟨rfl, hst⟩ := hf
      refine .inr ⟨buf', op', _, _, rfl, hst, fun fs => ?_⟩
      rw [outcome_wire, hz, ha]
    all_goals exact hf.elim

theorem rfc_stop (h : rfcStep limit pending f = .stop status) (fs : List ClientFrame) :
    rfc limit pending (f :: fs) = ([], some status) := by
  rw [rfc, h]

theorem rfc_step (h : rfcStep limit pending f = .step pending' message) (fs : List ClientFrame) :
    rfc limit pending (f :: fs) =
      (message.toList ++ (rfc limit pending' fs).1, (rfc limit pending' fs).2) := by
  rw [rfc, h]

/-- A fragmented close frame with the protocol-error status is answered with that status. -/
theorem outcome_echo (hz : sizeStatus limit f = none) (ho : f.opcode = .hClose)
    (hs : closeStatus f.payload = some 1002) (buf : Bytes) (op : WsOpcode)
    (fs : List ClientFrame) :
    outcome (decoded limit buf op (wire (f :: fs))) = ([], some (some 1002)) := by
  have hh : (f.header 0).opcode = .hClose := ho
  rw [outcome_wire, hz, frameAction, hh]
  dsimp only
  rw [closeStatus_echo, hs]

theorem outcome_of_conforming (hc : conforming limit pending fs = true)
    (h : Stands buf op pending) (hp : pre <+: fs) :
    outcome (decoded limit buf op (wire pre)) = rfc limit pending pre := by
  induction fs generalizing pending buf op pre with
  | nil =>
    obtain rfl := List.prefix_nil.1 hp
    rfl
  | cons f fs ih =>
    cases pre with
    | nil => rfl
    | cons g pre =>
      obtain ⟨rfl, hpre⟩ := List.cons_prefix_cons.1 hp
      rw [conforming] at hc
      split at hc
      · next hv =>
        simp only [Bool.and_eq_true, decide_eq_true_eq] at hv hc
        rw [outcome_echo hv.1 hc.1 hc.2]
        have hs : rfcStep limit pending g = .stop (some 1002) := by
          rw [rfcStep, hv.1]
          exact if_pos hv.2
        rw [rfc_stop hs]
      · next hv =>
        have hv : sizeStatus limit g = none → violates pending g = false := by
          intro hz
          simpa [hz] using hv
        rcases outcome_cons hv h with ⟨status, hs, ho⟩ | ⟨buf', op', pending', message, hs, hst, ho⟩
        · rw [ho, rfc_stop hs]
        · rw [hs] at hc
          rw [ho, rfc_step hs, ih hc hst hpre]

theorem exists_outcome_ne (hc : conforming limit pending fs = false) (h : Stands buf op pending) :
    ∃ pre, pre <+: fs ∧ outcome (decoded limit buf op (wire pre)) ≠ rfc limit pending pre := by
  induction fs generalizing pending buf op with
  | nil => cases hc
  | cons f fs ih =>
    rw [conforming] at hc
    split at hc
    · next hv =>
      simp only [Bool.and_eq_true, decide_eq_true_eq] at hv
      refine ⟨[f], List.cons_prefix_cons.2 ⟨rfl, List.nil_prefix⟩, fun he => ?_⟩
      have hs : rfcStep limit pending f = .stop (some 1002) := by
        rw [rfcStep, hv.1]
        exact if_pos hv.2
      rw [rfc_stop hs] at he
      refine outcome_violation hv.1 hv.2 h ?_ (congrArg Prod.snd he)
      rintro ⟨ho, hstatus⟩
      simp [ho, hstatus] at hc
    · next hv =>
      have hv : sizeStatus limit f = none → violates pending f = false := by
        intro hz
        simpa [hz] using hv
      rcases outcome_cons hv h with ⟨status, hs, ho⟩ | ⟨buf', op', pending', message, hs, hst, ho⟩
      · rw [hs] at hc
        cases hc
      · rw [hs] at hc
        obtain ⟨pre, hp, hne⟩ := ih hc hst
        refine ⟨f :: pre, List.cons_prefix_cons.2 ⟨rfl, hp⟩, fun he => hne ?_⟩
        rw [ho, rfc_step hs] at he
        obtain ⟨h₁, h₂⟩ := Prod.mk.inj he
        exact Prod.ext (List.append_cancel_left h₁) h₂

end Frames

/-- What a session shows its peer when these bytes arrive in these pieces. -/
def shown {υ : Type} (onMessage : υ → WsMessage → Reaction υ) (u : υ) (limit : Nat)
    (inbox : List Bytes) (writable : Nat → Bool) :
    Option (List WsMessage × Option (Option Nat)) :=
  (handleWebSocket onMessage u (create limit inbox writable)).map outcome

/-- Where all writes succeed and no callback throws or closes: at every point of a sequence of frames,
however its bytes are cut, the session has delivered the messages of the fragmentation grammar and
closed when the grammar was broken, exactly when no frame breaks it. -/
theorem receiveBatch_rfc_iff {υ : Type} {onMessage : υ → WsMessage → Reaction υ}
    (hr : Returns onMessage) (u : υ) (limit : Nat) (writable : Nat → Bool)
    (hw : ∀ n, writable n = true) (fs : List ClientFrame) :
    (∀ pre, pre <+: fs → ∀ inbox : List Bytes, inbox.flatten = wire pre →
        shown onMessage u limit inbox writable = some (rfc limit none pre)) ↔
      conforming limit none fs = true := by
  have hshown (inbox : List Bytes) : shown onMessage u limit inbox writable =
      some (outcome (decoded limit [] .hText inbox.flatten)) := by
    rw [shown, handleWebSocket_stream hr limit inbox writable hw u]
    rfl
  constructor
  · intro h
    by_contra hc
    have hst : Stands [] .hText none := rfl
    obtain ⟨pre, hp, hne⟩ := exists_outcome_ne (by simpa using hc) hst
    have hi := h pre hp [wire pre] (by simp)
    rw [hshown] at hi
    exact hne (by simpa using hi)
  · intro hc pre hp inbox hi
    rw [hshown, hi, outcome_of_conforming hc (rfl : Stands [] .hText none) hp]

def fragmentsAroundPing : List ClientFrame :=
  [⟨false, .hText, .zero, [72], rfl, by decide⟩, ⟨true, .hPing, .zero, [], rfl, by decide⟩,
    ⟨true, .hContinuation, .zero, [105], rfl, by decide⟩]

theorem receiveBatch_rfc_iff_fragments :
    shown (fun (_ : Unit) _ => ⟨(), [], false, false⟩) () 1024
        [(wire fragmentsAroundPing).take 3, (wire fragmentsAroundPing).drop 3] (fun _ => true) =
      some (rfc 1024 none fragmentsAroundPing) :=
  (receiveBatch_rfc_iff (fun _ _ => ⟨rfl, rfl⟩) () 1024 (fun _ => true) (fun _ => rfl)
    fragmentsAroundPing).2 rfl fragmentsAroundPing (List.prefix_refl _) _ rfl

/-- A continuation frame where no message is in progress is delivered as a message. -/
theorem receiveBatch_delivers_stray_continuation :
    shown (fun (_ : Unit) _ => ⟨(), [], false, false⟩) () 1024
        [wire [⟨true, .hContinuation, .zero, [65], rfl, by decide⟩]] (fun _ => true) =
      some ([⟨.hText, [65]⟩], none) ∧
    rfc 1024 none [⟨true, .hContinuation, .zero, [65], rfl, by decide⟩] =
      ([], some (some 1002)) := by
  decide

end WebSocketSession

end Hical
