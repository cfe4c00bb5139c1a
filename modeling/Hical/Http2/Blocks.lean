import Hical.Bytes
import Hical.Http2.Codec
import Hical.Http2.Options

/-! `Http2Codec::memSend` and the part of the codec that it works on. -/

namespace Hical.Http2

/-- The answer of `nghttp2_session_mem_send2`. A block without octets stands for zero. -/
inductive MemSend2 where
  | failed (result : Int) (negative : result < 0)
  | block (bytes : Bytes)

/-- nghttp2 with all that hangs on it. While it produces a block, its callbacks may set
`terminalError_`. -/
structure BlockSource (L : Type) where
  memSend2 : L → MemSend2 × L
  raised : L → NetworkError

/-- The arguments of `memSend` and the circumstances of the call. -/
structure SendCall where
  maxBytes : Nat
  storageBudget : Nat
  /-- The call comes out of a callback of `memRecv` or `memSend`. -/
  pumpActive : Bool := false
  /-- Copying octets throws `bad_alloc`. -/
  badAlloc : Bool := false

structure SendResult where
  bytes : Bytes := []
  error : NetworkError := {}

structure BlockOutput (L : Type) where
  session : L
  pendingOutput : Bytes := []
  terminalError : NetworkError := {}
  /-- Not in the code: what nghttp2 has produced so far. -/
  produced : Bytes := []
  /-- Not in the code: the storage limit when `pendingOutput` was filled last. -/
  filledUnder : Nat := 0

inductive CodecCall (L : Type) where
  | memSend (call : SendCall)
  | abortOutput
  /-- Any other function of the codec; none of them touches `pendingOutput_`. -/
  | other (session : L → L) (error : NetworkError)

namespace BlockOutput
variable {L : Type} (o : Http2Options) (source : BlockSource L)

def checkPump (s : BlockOutput L) (call : SendCall) : NetworkError :=
  if call.pumpActive then ⟨.hOperationInProgress, "HTTP/2 收发泵不能从回调重入", none⟩
  else s.terminalError

def stop (s : BlockOutput L) (error : NetworkError) : BlockOutput L × SendResult :=
  ({ s with terminalError := error }, ⟨[], error⟩)

def badAlloc : NetworkError := ⟨.hResourceLimitExceeded, "", some ⟨.hInternalError, 0⟩⟩

/-- The branch that gives out of what is left of the last block. -/
def sendPending (s : BlockOutput L) (call : SendCall) (limit : Nat) : BlockOutput L × SendResult :=
  if s.pendingOutput.length ≤ limit then ({ s with pendingOutput := [] }, ⟨s.pendingOutput, {}⟩)
  else if call.badAlloc then s.stop badAlloc
  else ({ s with pendingOutput := s.pendingOutput.drop limit }, ⟨s.pendingOutput.take limit, {}⟩)

/-- The session behind `nghttp2_session_mem_send2`. -/
def advanced (s : BlockOutput L) (bytes : Bytes) : BlockOutput L :=
  { s with
    session := (source.memSend2 s.session).2
    terminalError := if (source.raised s.session).isError then source.raised s.session
      else s.terminalError
    produced := s.produced ++ bytes }

/-- The branch that has nghttp2 produce a block. -/
def sendBlock (s : BlockOutput L) (call : SendCall) (limit storageLimit : Nat) :
    BlockOutput L × SendResult :=
  match (source.memSend2 s.session).1 with
  | .failed result _ => (s.advanced source []).stop (operationError result 0)
  | .block bytes =>
    let s := s.advanced source bytes
    if bytes.length = 0 then (s, {})
    else if storageLimit < bytes.length then
      s.stop ⟨.hResourceLimitExceeded, "HTTP/2 协议输出超过连接待发预算", none⟩
    else if call.badAlloc then s.stop badAlloc
    else
      ({ s with pendingOutput := bytes.drop (min bytes.length limit), filledUnder := storageLimit },
        ⟨bytes.take (min bytes.length limit), {}⟩)

def memSend (s : BlockOutput L) (call : SendCall) : BlockOutput L × SendResult :=
  if (s.checkPump call).isError then (s, ⟨[], s.checkPump call⟩)
  else
    let limit := min call.maxBytes o.maxOutputBatchBytes.toNat
    let storageLimit := min call.storageBudget o.maxConnectionSendBytes.toNat
    if limit = 0 then (s, {})
    else if storageLimit < s.pendingOutput.length then
      s.stop ⟨.hResourceLimitExceeded, "HTTP/2 余留输出超过连接待发预算", none⟩
    else if s.pendingOutput ≠ [] then s.sendPending call limit
    else s.sendBlock source call limit storageLimit

def bufferedOutputBytes (s : BlockOutput L) : Nat := s.pendingOutput.length

def abortOutput (s : BlockOutput L) : BlockOutput L :=
  { s with
    terminalError := if s.terminalError.isError then s.terminalError
      else ⟨.hOperationAborted, "HTTP/2 输出已停止", none⟩
    pendingOutput := [] }

/-- A call with the result that `memSend` has. -/
def step (s : BlockOutput L) : CodecCall L → BlockOutput L × List SendResult
  | .memSend call => ((s.memSend o source call).1, [(s.memSend o source call).2])
  | .abortOutput => (s.abortOutput, [])
  | .other session error =>
    ({ s with
        session := session s.session
        terminalError := if error.isError then error else s.terminalError }, [])

def run (s : BlockOutput L) : List (CodecCall L) → BlockOutput L × List SendResult
  | [] => (s, [])
  | c :: cs =>
    ((run (s.step o source c).1 cs).1,
      (s.step o source c).2 ++ (run (s.step o source c).1 cs).2)

variable {o source}

theorem checkPump_isError (s : BlockOutput L) (h : s.terminalError.isError = true) (call : SendCall) :
    (s.checkPump call).isError = true := by
  rw [checkPump]
  split
  · rfl
  · exact h

/-- What one call may do. -/
inductive Sends (o : Http2Options) (source : BlockSource L) (s : BlockOutput L) (call : SendCall) :
    BlockOutput L × SendResult → Prop where
  /-- It fails. What nghttp2 has produced in it is never sent, and so is all that comes later. -/
  | failed (s' : BlockOutput L) (error : NetworkError) (herror : error.isError = true)
      (hpending : s'.pendingOutput = s.pendingOutput) (hunder : s'.filledUnder = s.filledUnder)
      (hproduced : s.produced <+: s'.produced)
      (hwaits : s.pendingOutput ≠ [] → s'.session = s.session ∧ s'.produced = s.produced)
      (hdead : s'.terminalError.isError = true ∨ s' = s) : Sends o source s call (s', ⟨[], error⟩)
  | nothing (hlimit : min call.maxBytes o.maxOutputBatchBytes.toNat = 0) :
      Sends o source s call (s, {})
  /-- It takes from the rest of the last block. -/
  | rest (n : Nat) (hlive : s.terminalError.isError = false) (hrest : s.pendingOutput ≠ [])
      (hn : (s.pendingOutput.take n).length ≤ min call.maxBytes o.maxOutputBatchBytes.toNat) :
      Sends o source s call
        ({ s with pendingOutput := s.pendingOutput.drop n }, ⟨s.pendingOutput.take n, {}⟩)
  /-- It takes from a new block and keeps the rest. -/
  | block (bytes : Bytes) (n under : Nat) (hlive : s.terminalError.isError = false)
      (hrest : s.pendingOutput = [])
      (hblock : (source.memSend2 s.session).1 = .block bytes)
      (hn : (bytes.take n).length ≤ min call.maxBytes o.maxOutputBatchBytes.toNat)
      (hunder : bytes = [] ∧ under = s.filledUnder ∨
        bytes.length ≤ under ∧ under = min call.storageBudget o.maxConnectionSendBytes.toNat) :
      Sends o source s call
        ({ s.advanced source bytes with pendingOutput := bytes.drop n, filledUnder := under },
          ⟨bytes.take n, {}⟩)

theorem sends_stop (s s' : BlockOutput L) (call : SendCall) (herror : error.isError = true)
    (hrest : s.pendingOutput = []) (hpending : s'.pendingOutput = s.pendingOutput)
    (hunder : s'.filledUnder = s.filledUnder) (hproduced : s.produced <+: s'.produced) :
    Sends o source s call (s'.stop error) :=
  .failed _ _ herror hpending hunder hproduced (fun h => absurd hrest h) (.inl herror)

theorem sends_sendPending (s : BlockOutput L) (call : SendCall)
    (hlive : s.terminalError.isError = false) (hrest : s.pendingOutput ≠ []) :
    Sends o source s call
      (s.sendPending call (min call.maxBytes o.maxOutputBatchBytes.toNat)) := by
  rw [sendPending]
  split
  · next hle =>
    have h : Sends o source s call _ := .rest s.pendingOutput.length hlive hrest
      (by rw [List.take_length]; exact hle)
    rw [List.take_length, List.drop_length] at h
    exact h
  · split
    · exact .failed _ _ rfl rfl rfl List.prefix_rfl (fun _ => ⟨rfl, rfl⟩) (.inl rfl)
    · apply Sends.rest _ hlive hrest
      rw [List.length_take]
      exact Nat.min_le_left _ _

theorem sends_sendBlock (s : BlockOutput L) (call : SendCall)
    (hlive : s.terminalError.isError = false) (hrest : s.pendingOutput = []) :
    Sends o source s call
      (s.sendBlock source call (min call.maxBytes o.maxOutputBatchBytes.toNat)
        (min call.storageBudget o.maxConnectionSendBytes.toNat)) := by
  rw [sendBlock]
  cases hblock : (source.memSend2 s.session).1 with
  | failed result hneg =>
    exact sends_stop s _ call (operationError_isError hneg 0) hrest rfl rfl (List.prefix_append _ _)
  | block bytes =>
    dsimp only
    split
    · next hempty =>
      have hempty := List.eq_nil_of_length_eq_zero hempty
      subst hempty
      have h : Sends o source s call _ :=
        .block [] 0 s.filledUnder hlive hrest hblock (Nat.zero_le _) (.inl ⟨rfl, rfl⟩)
      rw [show List.drop 0 ([] : Bytes) = s.pendingOutput from hrest.symm] at h
      exact h
    · split
      · exact sends_stop s _ call rfl hrest rfl rfl (List.prefix_append _ _)
      · next hfits =>
        split
        · exact sends_stop s _ call rfl hrest rfl rfl (List.prefix_append _ _)
        · apply Sends.block bytes _ _ hlive hrest hblock
          · rw [List.length_take]
            exact Nat.le_trans (Nat.min_le_left _ _) (Nat.min_le_right _ _)
          · exact .inr ⟨Nat.le_of_not_lt hfits, rfl⟩

theorem sends_memSend (s : BlockOutput L) (call : SendCall) :
    Sends o source s call (s.memSend o source call) := by
  rw [memSend]
  split
  · next hpump =>
    exact .failed _ _ hpump rfl rfl List.prefix_rfl (fun _ => ⟨rfl, rfl⟩) (.inr rfl)
  · next hpump =>
    have hlive := Bool.eq_false_iff.2 fun h => hpump (s.checkPump_isError h call)
    dsimp only
    split
    · next hlimit => exact .nothing hlimit
    · split
      · exact .failed _ _ rfl rfl rfl List.prefix_rfl (fun _ => ⟨rfl, rfl⟩) (.inl rfl)
      · split
        · next hrest => exact sends_sendPending s call hlive hrest
        · next hrest => exact sends_sendBlock s call hlive (not_not.1 hrest)

/-- What the calls returned, one after the other. -/
def sent (results : List SendResult) : Bytes := results.flatMap (·.bytes)

@[simp] theorem sent_append (rs rs' : List SendResult) : sent (rs ++ rs') = sent rs ++ sent rs' :=
  List.flatMap_append

@[simp] theorem sent_one (r : SendResult) : sent [r] = r.bytes := List.append_nil _

theorem Sends.kept (h : Sends o source s call (s', r)) (hr : r.error.isError = false)
    (hs : out ++ s.pendingOutput = s.produced) : (out ++ r.bytes) ++ s'.pendingOutput = s'.produced := by
  cases h with
  | failed _ _ herror =>
    rw [herror] at hr
    cases hr
  | nothing => simpa using hs
  | rest n =>
    rw [List.append_assoc, List.take_append_drop]
    exact hs
  | block bytes n _ _ hrest =>
    rw [hrest, List.append_nil] at hs
    rw [List.append_assoc, List.take_append_drop, hs]
    rfl

theorem Sends.under (h : Sends o source s call (s', r))
    (hs : s.pendingOutput.length ≤ s.filledUnder) : s'.pendingOutput.length ≤ s'.filledUnder := by
  cases h with
  | failed s' _ _ hpending hunder =>
    rw [hpending, hunder]
    exact hs
  | nothing => exact hs
  | rest n =>
    rw [List.length_drop]
    exact Nat.le_trans (Nat.sub_le _ _) hs
  | block bytes n under _ _ _ _ hunder =>
    rw [List.length_drop]
    cases hunder with
    | inl h =>
      rw [h.1, List.length_nil, Nat.zero_sub]
      exact Nat.zero_le _
    | inr h => exact Nat.le_trans (Nat.sub_le _ _) h.1

theorem Sends.length_le (h : Sends o source s call (s', r)) :
    r.bytes.length ≤ min call.maxBytes o.maxOutputBatchBytes.toNat := by
  cases h with
  | failed => exact Nat.zero_le _
  | nothing => exact Nat.zero_le _
  | rest n _ _ hn => exact hn
  | block bytes n _ _ _ _ hn => exact hn

theorem Sends.waits (h : Sends o source s call (s', r)) (hrest : s.pendingOutput ≠ []) :
    s'.session = s.session ∧ s'.produced = s.produced := by
  cases h with
  | failed _ _ _ _ _ _ hwaits => exact hwaits hrest
  | nothing => exact ⟨rfl, rfl⟩
  | rest => exact ⟨rfl, rfl⟩
  | block _ _ _ _ h => exact absurd h hrest

theorem run_kept (s : BlockOutput L) (cs : List (CodecCall L))
    (habort : CodecCall.abortOutput ∉ cs)
    (hok : ∀ r ∈ (s.run o source cs).2, r.error.isError = false)
    (hs : out ++ s.pendingOutput = s.produced) :
    (out ++ sent (s.run o source cs).2) ++ (s.run o source cs).1.pendingOutput =
      (s.run o source cs).1.produced := by
  induction cs generalizing s out with
  | nil => simpa [run, sent] using hs
  | cons c cs ih =>
    rw [List.mem_cons, not_or] at habort
    rw [run, sent_append, ← List.append_assoc]
    rw [run] at hok
    apply ih _ habort.2 fun r hr => hok r (List.mem_append_right _ hr)
    cases c with
    | memSend call =>
      have hr := hok _ (List.mem_append_left _ (List.mem_cons_self))
      rw [step, sent_one]
      exact (sends_memSend s call).kept hr hs
    | abortOutput => exact absurd rfl habort.1
    | other session error => simpa [step, sent] using hs

theorem run_under (s : BlockOutput L) (cs : List (CodecCall L))
    (hs : s.pendingOutput.length ≤ s.filledUnder) :
    (s.run o source cs).1.pendingOutput.length ≤ (s.run o source cs).1.filledUnder := by
  induction cs generalizing s with
  | nil => exact hs
  | cons c cs ih =>
    rw [run]
    apply ih
    cases c with
    | memSend call => exact (sends_memSend s call).under hs
    | abortOutput => exact Nat.zero_le _
    | other session error => exact hs

/-- Nothing is skipped, and unless the codec is dead, nothing is lost. -/
theorem Sends.prefixed (h : Sends o source s call (s', r)) (hp : out <+: s.produced)
    (hs : s.terminalError.isError = false → out ++ s.pendingOutput = s.produced) :
    (out ++ r.bytes) <+: s'.produced ∧
      (s'.terminalError.isError = false → (out ++ r.bytes) ++ s'.pendingOutput = s'.produced) := by
  have hkept : r.error.isError = false → _ → (out ++ r.bytes) ++ s'.pendingOutput = s'.produced := h.kept
  cases h with
  | failed _ _ _ _ _ hproduced _ hdead =>
    rw [List.append_nil]
    refine ⟨hp.trans hproduced, fun hlive => ?_⟩
    rcases hdead with hdead | rfl
    · rw [hdead] at hlive
      cases hlive
    · exact hs hlive
  | nothing =>
    rw [List.append_nil]
    exact ⟨hp, hs⟩
  | rest n hlive | block bytes n under hlive => exact ⟨⟨_, hkept rfl (hs hlive)⟩, fun _ => hkept rfl (hs hlive)⟩

theorem run_ordered (s : BlockOutput L) (cs : List (CodecCall L)) (hp : out <+: s.produced)
    (hs : s.terminalError.isError = false → out ++ s.pendingOutput = s.produced) :
    (out ++ sent (s.run o source cs).2) <+: (s.run o source cs).1.produced := by
  induction cs generalizing s out with
  | nil => simpa [run, sent] using hp
  | cons c cs ih =>
    rw [run, sent_append, ← List.append_assoc]
    cases c with
    | memSend call =>
      obtain ⟨hp, hs⟩ := (sends_memSend s call).prefixed hp hs
      apply ih
      · rwa [step, sent_one]
      · rwa [step, sent_one]
    | abortOutput | other =>
      apply ih
      · simpa [step, sent, abortOutput] using hp
      · clear ih
        grind [step, sent, abortOutput, NetworkError.isError]

/-- Whichever calls fail, and also behind an aborted output, what was sent is a prefix of what nghttp2 produced. -/
theorem sent_ordered (session : L) (cs : List (CodecCall L)) :
    sent (run o source { session } cs).2 <+: (run o source { session } cs).1.produced :=
  @run_ordered L o source [] { session } cs List.prefix_rfl fun _ => rfl

/-- The output of the codec in pieces of any size: nothing is lost or doubled, no piece is larger
than asked for, nghttp2 waits for the rest of its last block, and that rest stays in budget. -/
theorem output_in_pieces (o : Http2Options) (source : BlockSource L) (session : L)
    (cs : List (CodecCall L)) (habort : CodecCall.abortOutput ∉ cs)
    (hok : ∀ r ∈ (run o source { session } cs).2, r.error.isError = false) :
    let s := (run o source { session } cs).1
    sent (run o source { session } cs).2 ++ s.pendingOutput = s.produced ∧
      s.bufferedOutputBytes ≤ s.filledUnder ∧
      ∀ call,
        (s.memSend o source call).2.bytes.length ≤ min call.maxBytes o.maxOutputBatchBytes.toNat ∧
        (s.pendingOutput ≠ [] → (s.memSend o source call).1.session = s.session ∧
          (s.memSend o source call).1.produced = s.produced) := by
  dsimp only
  refine ⟨?_, run_under _ cs (Nat.zero_le _), fun call => ⟨?_, ?_⟩⟩
  · have h : ([] ++ sent _) ++ _ = _ := run_kept (o := o) _ cs habort hok rfl
    exact h
  · exact (sends_memSend _ call).length_le
  · exact (sends_memSend _ call).waits

/-- A session whose blocks wait in a list. -/
def queued : BlockSource (List Bytes) where
  memSend2 blocks := (.block (blocks.headD []), blocks.tail)
  raised _ := {}

theorem output_in_pieces_queued :
    sent (run {} queued { session := [[1, 2, 3], [4]] }
        [.memSend ⟨2, 9, false, false⟩, .memSend ⟨2, 9, false, false⟩]).2 ++ [] = [1, 2, 3] :=
  (output_in_pieces {} queued [[1, 2, 3], [4]]
    [.memSend ⟨2, 9, false, false⟩, .memSend ⟨2, 9, false, false⟩] (by simp)
    (by decide)).1

end BlockOutput

end Hical.Http2
