import Hical.Http2.Wakes

namespace Hical.Http2

def PumpCall.Spares (id : Int) : PumpCall → Prop
  | .finish streamId _ _ => streamId ≠ id
  | .submit streamId _ => streamId ≠ id
  | _ => True

def SendAnswer.Spares (id : Int) (answer : SendAnswer) : Prop :=
  ∀ call, .call call ∈ answer.callbacks → call.Spares id

def PumpStep.Spares (id : Int) : PumpStep → Prop
  | .writer answer => answer.Spares id
  | .written _ onWritten answer => (∀ call ∈ onWritten, call.Spares id) ∧ answer.Spares id
  | .received during _ _ => ∀ call ∈ during, call.Spares id
  | .reader _ _ => True
  | .call c => c.Spares id

namespace Http2Connection
variable {c c' c'' : Http2Connection} {id id' : Int} {p p' changed : DataProducer}

/-- The producer is neither finished nor taken up again once it is cancelled. -/
structure Tamed (p p' : DataProducer) : Prop where
  finished : p'.finished = p.finished
  cancelled : p.cancelled = true → p'.cancelled = true

/-- What happens on the connection does no more to the producer of the stream, if it leaves it there. -/
def Leaves (id : Int) (c c' : Http2Connection) : Prop :=
  ∀ p', c'.source id = some p' → ∃ p, c.source id = some p ∧ Tamed p p'

theorem Leaves.of_source (h : c'.source = c.source) : Leaves id c c' := by
  intro p hp
  rw [h] at hp
  exact ⟨p, hp, rfl, fun h => h⟩

theorem Leaves.refl (c : Http2Connection) : Leaves id c c := .of_source rfl

theorem Leaves.trans (h : Leaves id c c') (h' : Leaves id c' c'') : Leaves id c c'' := by
  intro p'' hp''
  obtain ⟨p', hp', ht'⟩ := h' p'' hp''
  obtain ⟨p, hp, ht⟩ := h p' hp'
  exact ⟨p, hp, ht'.finished.trans ht.finished, fun hc => ht'.cancelled (ht.cancelled hc)⟩

theorem Leaves.fold {α : Type} {f : Http2Connection → α → Http2Connection} {l : List α}
    (h : ∀ c, ∀ a ∈ l, Leaves id c (f c a)) (c : Http2Connection) : Leaves id c (l.foldl f c) := by
  induction l generalizing c with
  | nil => exact .refl c
  | cons a l ih =>
    apply (h c a (List.mem_cons_self ..)).trans
    exact ih (fun c b hb => h c b (List.mem_cons_of_mem a hb)) _

theorem source_wake (c : Http2Connection) : c.wake.source = c.source := by
  unfold Http2Connection.wake
  split
  · rfl
  · rfl

theorem Leaves.wake (h : Leaves id c c') : Leaves id c c'.wake := h.trans (.of_source (source_wake c'))

theorem leaves_setSource (hp : c.source id' = some p) (ht : id' = id → Tamed p changed) :
    Leaves id c (c.setSource id' changed) := by
  intro q hq
  rw [source_setSource] at hq
  split at hq
  · next h =>
    cases hq
    exact ⟨p, h ▸ hp, ht h.symm⟩
  · exact ⟨q, hq, rfl, fun h => h⟩

theorem leaves_eraseSource (c : Http2Connection) (id' : Int) : Leaves id c (c.eraseSource id') := by
  intro q hq
  rw [source_eraseSource] at hq
  split at hq
  · cases hq
  · exact ⟨q, hq, rfl, fun h => h⟩

theorem leaves_replace (hp : c.source id' = some p) (ht : id' = id → Tamed p changed) :
    Leaves id c (c.replace id' p changed) :=
  (leaves_setSource hp ht).trans (.of_source rfl)

theorem leaves_ready (hp : c.source id' = some p) (ht : id' = id → Tamed p changed)
    (resumed : Option NetworkError) : Leaves id c (c.ready id' p changed resumed).1 := by
  unfold ready
  split
  · exact .refl c
  · apply Leaves.wake
    exact leaves_replace hp fun h => ⟨(ht h).finished, (ht h).cancelled⟩

theorem leaves_push (c : Http2Connection) (id' : Int) (bytes : Bytes) (resumed : Option NetworkError) :
    Leaves id c (c.push id' bytes resumed).1 := by
  unfold push
  split
  · exact .refl c
  · next p hp =>
    split
    · exact .refl c
    · split
      · exact .refl c
      · split
        · exact .refl c
        · apply leaves_ready hp
          intro _
          exact ⟨rfl, fun h => h⟩

theorem leaves_append (c : Http2Connection) (id' : Int) (bytes : Bytes) (resumed : Option NetworkError) :
    Leaves id c (c.append id' bytes resumed).1 := by
  unfold append
  split
  · exact .refl c
  · exact leaves_push c id' bytes resumed

theorem leaves_appendChunks (c : Http2Connection) (id' : Int) (chunks : List Bytes)
    (resumed : Option NetworkError) : Leaves id c (c.appendChunks id' chunks resumed).1 := by
  unfold appendChunks
  split
  · exact .refl c
  · split
    · exact .refl c
    · exact leaves_push c id' _ resumed

theorem leaves_finish (h : id' ≠ id) (trailers : Fields) (resumed : Option NetworkError) :
    Leaves id c (c.finish id' trailers resumed).1 := by
  unfold finish
  split
  · exact .refl c
  · exact .refl c
  · next p _ hp =>
    dsimp only
    split
    · exact .refl c
    · split
      · exact .refl c
      · exact leaves_ready hp (fun heq => absurd heq h) resumed

theorem ready_refused (h : (c.ready id' p changed resumed).2 = some error) :
    (c.ready id' p changed resumed).1 = c := by
  unfold ready at h ⊢
  split at h
  · rfl
  · cases h

theorem finish_refused (h : (c.finish id' trailers resumed).2 = some error) :
    (c.finish id' trailers resumed).1 = c := by
  unfold finish at h ⊢
  split
  · rfl
  · rfl
  · next p hcan hp =>
    rw [hcan, hp] at h
    dsimp only at h ⊢
    split
    · rfl
    · next hfits =>
      rw [if_neg hfits] at h
      split
      · rfl
      · next block hblock =>
        rw [hblock] at h
        exact ready_refused h

theorem leaves_stop (c : Http2Connection) (id' : Int) (cancelPending : Bool) :
    Leaves id c (c.stop id' cancelPending) := by
  unfold stop
  have hfirst : Leaves id c (if cancelPending then c.erasePending id' else c) := by
    split
    · exact .of_source rfl
    · exact .refl c
  apply hfirst.trans
  generalize (if cancelPending then c.erasePending id' else c) = c
  dsimp only
  split
  · exact .refl c
  · next p hp =>
    split
    · exact .refl c
    · apply Leaves.wake
      have hreplaced : Leaves id (c.deselect id') ((c.deselect id').replace id' p (stoppedProducer p)) :=
        leaves_replace (by rw [deselect_source, hp]) fun _ => ⟨rfl, fun _ => rfl⟩
      exact ((Leaves.of_source (deselect_source c id')).trans hreplaced).trans (.of_source rfl)

theorem leaves_cancelStream (c : Http2Connection) (id' : Int) : Leaves id c (c.cancelStream id') := by
  apply Leaves.wake
  exact (leaves_stop c id' true).trans (leaves_eraseSource _ id')

theorem leaves_onClose (c : Http2Connection) (id' : Int) (code : Http2Code) : Leaves id c (c.onClose id' code) :=
  (leaves_stop c id' _).trans (leaves_eraseSource _ id')

theorem leaves_streamClose (c : Http2Connection) (id' : Int) (code : Http2Code) :
    Leaves id c (c.streamClose id' code) := by
  apply (leaves_onClose c id' code).trans
  rw [streamClose, onStreamClose]
  split
  · exact leaves_cancelStream _ id'
  · split
    · exact .refl _
    · exact leaves_onClose _ id' code

theorem source_reserve (c : Http2Connection) (id' : Int) (maximum : Nat) (late : Bool) :
    (c.reserve id' maximum late).source = c.source := by
  unfold reserve
  split
  · rfl
  · split
    · rfl
    · rfl

theorem source_reserveRead (c : Http2Connection) (id' : Int) (maximum : Nat) (late : Bool) :
    (c.reserveRead id' maximum late).source = c.source := by
  unfold reserveRead
  split
  · rfl
  · exact source_reserve c id' maximum late

theorem source_release (c : Http2Connection) (permit : Nat) : (c.release permit).source = c.source := by
  unfold release
  split
  · rfl
  · rfl

theorem leaves_appendReserved (c : Http2Connection) (id' : Int) (bytes : Bytes) (permit : Nat)
    (resumed : Option NetworkError) : Leaves id c (c.appendReserved id' bytes permit resumed).1 := by
  have hreleased : Leaves id c (c.release permit) := .of_source (source_release c permit)
  unfold appendReserved
  split
  · exact hreleased
  · exact hreleased.trans (leaves_append _ id' bytes resumed)

theorem leaves_submit (h : id' ≠ id) (sendable : Nat) : Leaves id c (c.submit id' sendable) := by
  rw [Http2Connection.submit]
  split
  · exact .refl c
  · apply Leaves.wake
    have hregister : Leaves id c (c.register id') := by
      unfold register
      split
      · exact .refl c
      · intro q hq
        rw [source_setSource, if_neg (Ne.symm h)] at hq
        exact ⟨q, hq, rfl, fun h => h⟩
    exact hregister.trans (.of_source rfl)

theorem leaves_submitResponseHeaders (c : Http2Connection) (id' : Int) (sendable : Nat) :
    Leaves id c (c.submitResponseHeaders id' sendable) := by
  unfold submitResponseHeaders
  split
  · exact .refl c
  · apply Leaves.wake
    exact .of_source rfl

theorem leaves_closeOutput (c : Http2Connection) : Leaves id c c.closeOutput := by
  unfold closeOutput
  split
  · exact .refl c
  · intro q hq
    cases hq

theorem leaves_close (c : Http2Connection) : Leaves id c c.close := by
  unfold close
  split
  · exact .refl c
  · exact (Leaves.of_source rfl).trans (leaves_closeOutput _)

theorem leaves_call (c : Http2Connection) (call : PumpCall) (h : call.Spares id) : Leaves id c (c.call call) := by
  cases call with
  | append id' bytes resumed => exact leaves_append c id' bytes resumed
  | appendChunks id' chunks resumed => exact leaves_appendChunks c id' chunks resumed
  | reserveRead id' maximum late => exact .of_source (source_reserveRead c id' maximum late)
  | appendReserved id' bytes permit resumed => exact leaves_appendReserved c id' bytes permit resumed
  | release permit => exact .of_source (source_release c permit)
  | finish id' trailers resumed => exact leaves_finish h trailers resumed
  | cancel id' => exact leaves_stop c id' true
  | cancelStream id' => exact leaves_cancelStream c id'
  | streamClose id' code => exact leaves_streamClose c id' code
  | submit id' sendable => exact leaves_submit h sendable
  | submitResponseHeaders id' sendable => exact leaves_submitResponseHeaders c id' sendable
  | control sendable | finishConnection => exact Leaves.wake (.of_source rfl)
  | close => exact leaves_close c

theorem leaves_calls (calls : List PumpCall) (h : ∀ call ∈ calls, call.Spares id) (c : Http2Connection) :
    Leaves id c (calls.foldl call c) :=
  Leaves.fold (fun c call hcall => leaves_call c call (h call hcall)) c

theorem leaves_read (c : Http2Connection) (id' : Int) (n : Nat) : Leaves id c (c.read id' n).1 := by
  unfold read
  split
  · exact .refl c
  · next p hp =>
    split
    · exact .refl c
    · split
      · exact leaves_setSource hp fun _ => ⟨rfl, fun h => h⟩
      · unfold readCredited
        have hcredit : Leaves id c { c with readCredit := false, lastReadStream := id' } := .of_source rfl
        apply hcredit.trans
        dsimp only
        split
        · split
          · exact leaves_setSource hp fun _ => ⟨rfl, fun h => h⟩
          · exact .refl _
        · split
          · exact leaves_setSource hp fun _ => ⟨rfl, fun h => h⟩
          · split
            · apply Leaves.trans _ (.of_source rfl)
              exact leaves_setSource hp fun _ => ⟨rfl, fun h => h⟩
            · exact leaves_setSource hp fun _ => ⟨rfl, fun h => h⟩

theorem leaves_callbacks (callbacks : List SendCallback) (h : ∀ call, .call call ∈ callbacks → call.Spares id)
    (c : Http2Connection) : Leaves id c (callbacks.foldl callback c) := by
  apply Leaves.fold
  intro c cb hcb
  cases cb with
  | read id' n => exact leaves_read c id' n
  | call call => exact leaves_call c call (h call hcb)

theorem leaves_prepareFinal (c : Http2Connection) (id' : Int) : Leaves id c (c.prepareFinal id') := by
  unfold prepareFinal
  split
  · exact .refl c
  · next p hp =>
    split
    · apply Leaves.trans _ (.of_source (deselect_source _ id'))
      apply Leaves.trans _ (.of_source rfl)
      exact leaves_setSource hp fun _ => ⟨rfl, fun h => h⟩
    · exact .refl c

theorem leaves_prepare (h : c.prepare answer = .ok c') : Leaves id c c' := by
  have hselect {c : Http2Connection} (h : c.selectProducer answer.resumed = .ok c') : Leaves id c c' := by
    unfold selectProducer at h
    split at h
    · cases h
      exact .refl c'
    · have hnone : Leaves id c { c with readCredit := false, selectedStream := 0 } := .of_source rfl
      apply hnone.trans
      dsimp only at h
      split at h
      · cases h
        exact .refl _
      · unfold grant at h
        split at h
        · cases h
          exact .refl _
        · next p hp =>
          split at h
          · cases h
          · cases h
            apply Leaves.trans _ (.of_source rfl)
            exact leaves_setSource hp fun _ => ⟨rfl, fun h => h⟩
  unfold prepare at h
  split at h
  · cases h
  · next prepared hprepared =>
    apply Leaves.trans _ (hselect h)
    unfold prepareFinalHeaders at hprepared
    split at hprepared
    · cases hprepared
      exact (Leaves.of_source rfl).trans (.fold (fun c id' _ => leaves_prepareFinal c id') _)
    · split at hprepared
      · cases hprepared
      · cases hprepared
        exact .of_source rfl

theorem leaves_memSend (c : Http2Connection) (h : answer.Spares id) : Leaves id c (c.memSend answer).1 := by
  have hcallbacks : Leaves id c { answer.callbacks.foldl callback c with library := answer.library } :=
    (leaves_callbacks answer.callbacks h c).trans (.of_source rfl)
  unfold memSend
  dsimp only
  split
  · exact .refl c
  · split
    · exact .refl c
    · split
      · exact .of_source rfl
      · split
        · exact hcallbacks
        · split
          · exact hcallbacks
          · exact hcallbacks.trans (.of_source rfl)

theorem leaves_nextBatch (c : Http2Connection) (h : answer.Spares id) : Leaves id c (c.nextBatch answer).1 := by
  unfold nextBatch
  split
  · exact .refl c
  · split
    · exact .refl c
    · split
      · exact leaves_closeOutput c
      · next prepared hprepared =>
        have hsent := (leaves_prepare hprepared).trans (leaves_memSend prepared h)
        split
        · next heq =>
          rw [heq] at hsent
          exact hsent.trans (leaves_closeOutput _)
        · next heq =>
          rw [heq] at hsent
          exact hsent.trans (.of_source rfl)

theorem leaves_writeLoop (c : Http2Connection) (h : answer.Spares id) : Leaves id c (c.writeLoop answer) := by
  unfold writeLoop
  split
  · exact .of_source rfl
  · have hbatch : Leaves id c ({ c with writer := .running }.nextBatch answer).1 :=
      (Leaves.of_source rfl).trans (leaves_nextBatch _ h)
    split
    · next heq =>
      rw [heq] at hbatch
      exact (hbatch.trans (leaves_close _)).trans (.of_source rfl)
    · next heq =>
      rw [heq] at hbatch
      split
      · split
        · exact (hbatch.trans (leaves_close _)).trans (.of_source rfl)
        · exact hbatch.trans (.of_source rfl)
      · split
        · exact hbatch.trans (.of_source rfl)
        · exact hbatch.trans (.of_source rfl)

theorem leaves_step (c : Http2Connection) (e : PumpStep) (h : e.Spares id) : Leaves id c (c.step e) := by
  have hnotified (c : Http2Connection) (count : Nat) :
      Leaves id c { c with output := (c.output.acknowledge count).1 }.notifyReaders := .of_source rfl
  cases e with
  | writer answer =>
    rw [step]
    split
    · exact leaves_writeLoop c h
    · exact .refl c
  | written count onWritten answer =>
    have hacknowledged : Leaves id c (c.acknowledge count onWritten) :=
      (hnotified c count).trans (leaves_calls onWritten h.1 _)
    rw [step]
    split
    · unfold written
      split
      · exact (leaves_close c).trans (.of_source rfl)
      · dsimp only
        split
        · exact hacknowledged.trans (leaves_writeLoop _ h.2)
        · exact hacknowledged
    · exact .refl c
  | received during library failed =>
    rw [step, received]
    split
    · exact .refl c
    · have hcalls : Leaves id c { during.foldl call c with library := library } :=
        (leaves_calls during h c).trans (.of_source rfl)
      dsimp only
      split
      · exact hcalls.trans (leaves_close _)
      · exact hcalls.wake
  | reader i late =>
    rw [step, resumeReader]
    split
    · exact .refl c
    · split
      · exact .of_source (source_reserve ..)
      · exact .refl c
  | call call => exact leaves_call c call h

section Producers
variable {c : Http2Connection} {P : Producer} {p changed : DataProducer} {id : Int}

/-- The producer of a stream of which nothing was read is that which a response fills. -/
structure Fills (P : Producer) (p : DataProducer) : Prop where
  chunks : p.chunks = P.chunks
  trailerBlock : p.trailerBlock = P.trailerBlock
  finished : p.finished = P.finished
  cancelled : p.cancelled = P.cancelled

/-- What the budget and nghttp2 answer when the lease of a producer has to hold so much more. -/
def answer (c : Http2Connection) (id : Int) (p : DataProducer) (more : Nat) (resumed : Option NetworkError) :
    Option NetworkError :=
  if kMaxSize - p.amount < more ∨ c.fits p (p.amount + more) = false then some (resourceError id)
  else if p.deferred then resumed else none

/-- The connection does to the producer of the stream what the response does to its own. -/
def Follows (c : Http2Connection) (id : Int) (done : Except NetworkError Producer)
    (out : Http2Connection × Option NetworkError) : Prop :=
  match done with
  | .error e => out = (c, some e)
  | .ok P => out.2 = none ∧ ∃ p, out.1.source id = some p ∧ Fills P p

theorem canProduce_fills (hopen : c.output.closed = false) (hp : c.source id = some p) (hf : Fills P p) :
    c.canProduce id = P.blocked id := by
  rw [canProduce, hp, Producer.blocked]
  dsimp only
  rw [hopen, hf.cancelled, hf.finished]
  simp

theorem ready_fills (hf : Fills P changed) (resumed : Option NetworkError) :
    Follows c id
      (match if p.deferred then resumed else none with
        | some e => .error e
        | none => .ok P) (c.ready id p changed resumed) := by
  have hready : ((c.replace id p { changed with deferred := false }).wake).source id =
      some { changed with deferred := false } := by
    rw [source_wake, source_replace, if_pos rfl]
  have hfills : Fills P { changed with deferred := false } := ⟨hf.chunks, hf.trailerBlock, hf.finished, hf.cancelled⟩
  unfold ready
  cases p.deferred with
  | false => exact ⟨rfl, _, hready, hfills⟩
  | true =>
    cases resumed with
    | none => exact ⟨rfl, _, hready, hfills⟩
    | some e => exact rfl

theorem push_fills (hp : c.source id = some p) (hf : Fills P p)
    (hfree : P.blocked id = none) (bytes : Bytes) (resumed : Option NetworkError) :
    Follows c id (P.push id bytes (c.answer id p bytes.length resumed)) (c.push id bytes resumed) := by
  have hgoing : ¬(p.cancelled = true ∨ p.finished = true) := by
    rw [hf.cancelled, hf.finished]
    rintro (hc | hdone)
    · rw [Producer.blocked, if_pos hc] at hfree
      cases hfree
    · rw [Producer.blocked, hdone] at hfree
      split at hfree
      · cases hfree
      · cases hfree
  rw [push, hp]
  dsimp only
  unfold Producer.push
  rw [dif_neg hgoing, answer, ← hf.chunks]
  by_cases hbytes : bytes = []
  · rw [if_pos hbytes, if_pos hbytes]
    exact ⟨rfl, p, hp, hf⟩
  rw [if_neg hbytes, if_neg hbytes]
  by_cases hmany : kMaxProducerChunks ≤ p.chunks.length
  · rw [if_pos hmany, if_pos (.inl hmany)]
    exact rfl
  rw [if_neg hmany]
  by_cases hbudget : kMaxSize - p.amount < bytes.length ∨ c.fits p (p.amount + bytes.length) = false
  · rw [if_pos hbudget, if_pos (.inr hbudget)]
    exact rfl
  rw [if_neg hbudget, if_neg (not_or.2 ⟨hmany, hbudget⟩)]
  apply ready_fills
  exact ⟨rfl, hf.trailerBlock, hf.finished, hf.cancelled⟩

theorem append_fills (hopen : c.output.closed = false) (hp : c.source id = some p) (hf : Fills P p)
    (bytes : Bytes) (resumed : Option NetworkError) :
    Follows c id (P.appendOwned id bytes (c.answer id p bytes.length resumed)) (c.append id bytes resumed) := by
  rw [append, Producer.appendOwned, canProduce_fills hopen hp hf]
  cases hfree : P.blocked id with
  | some e => exact rfl
  | none => exact push_fills hp hf hfree bytes resumed

theorem appendChunks_fills (hopen : c.output.closed = false) (hp : c.source id = some p) (hf : Fills P p)
    (chunks : List Bytes) (resumed : Option NetworkError) :
    Follows c id (P.appendChunks id chunks (c.answer id p chunks.flatten.length resumed)) (c.appendChunks id chunks resumed) := by
  rw [appendChunks, Producer.appendChunks, canProduce_fills hopen hp hf]
  cases hfree : P.blocked id with
  | some e => exact rfl
  | none =>
    dsimp only
    cases chunksLength 0 chunks with
    | none => exact rfl
    | some length => exact push_fills hp hf hfree chunks.flatten resumed

theorem finish_fills (hopen : c.output.closed = false) (hp : c.source id = some p) (hf : Fills P p)
    (hblock : Producer.keptBlock id c.options trailers = .ok block) (resumed : Option NetworkError) :
    Follows c id (P.finish id trailers c.options (c.answer id p (trailerBytes trailers) resumed))
      (c.finish id trailers resumed) := by
  unfold Producer.finish
  rw [finish, canProduce_fills hopen hp hf, hp]
  cases hfree : P.blocked id with
  | some e => exact rfl
  | none =>
    dsimp only
    by_cases hfit : Producer.trailersFit c.options.maxHeaderBytes.toNat 0 trailers = false
    · rw [if_pos hfit, if_pos (.inl hfit)]
      exact rfl
    rw [if_neg hfit, hblock, answer]
    by_cases hbudget : kMaxSize - p.amount < trailerBytes trailers ∨ c.fits p (p.amount + trailerBytes trailers) = false
    · rw [if_pos hbudget, if_pos (.inr hbudget)]
      exact rfl
    rw [if_neg hbudget, if_neg (not_or.2 ⟨hfit, hbudget⟩)]
    apply ready_fills (P := { P with trailerBlock := block, finished := true })
    exact ⟨hf.chunks, rfl, rfl, hf.cancelled⟩

theorem cancel_fills (hp : c.source id = some p) (hf : Fills P p) (hrunning : P.cancelled = false) :
    ∃ p', (c.cancel id).source id = some p' ∧ Fills P.cancel p' := by
  have hcancelled : ¬p.cancelled = true := by
    rw [hf.cancelled, hrunning]
    exact Bool.false_ne_true
  have hpending : (c.erasePending id).source id = some p := hp
  refine ⟨stoppedProducer p, ?_, ⟨rfl, rfl, hf.finished, rfl⟩⟩
  rw [cancel, stop, if_pos rfl, hpending]
  dsimp only
  rw [if_neg hcancelled, source_wake]
  exact (source_replace _ id p _ id).trans (if_pos rfl)

end Producers

end Http2Connection

end Hical.Http2
