import Hical.Http2.Writer
import Hical.Lib.Cyclic
import Hical.Lib.Runs
import Mathlib

/-! How `Http2Output` divides the reads of its producers. -/

namespace Hical.Http2.Rotation

open Http2Connection

/-- What is done to an `Http2Output`, and what nghttp2 learns besides. -/
inductive OutputEvent where
  | nextBatch (answer : SendAnswer)
  | acknowledge (count : Nat) (onWritten : List PumpCall)
  | call (c : PumpCall)
  | reader (i : Nat) (late : Bool)
  | received (library : Library)

def step (c : Http2Connection) : OutputEvent → Http2Connection
  | .nextBatch answer => (c.nextBatch answer).1
  | .acknowledge count onWritten => c.acknowledge count onWritten
  | .call call => c.call call
  | .reader i late => c.resumeReader i late
  | .received library => { c with library := library }

def takesCredit (c : Http2Connection) (streamId : Int) (length : Nat) : Bool :=
  c.readCredit && !(c.read streamId length).1.readCredit

def reads (c : Http2Connection) : List SendCallback → List Int
  | [] => []
  | .read streamId length :: callbacks =>
    (if takesCredit c streamId length then [streamId] else []) ++
      reads (c.callback (.read streamId length)) callbacks
  | .call call :: callbacks => reads (c.callback (.call call)) callbacks

/-- The connection in which `nextBatch` looks for a producer. -/
def selecting (c : Http2Connection) (answer : SendAnswer) : Option Http2Connection :=
  if c.output.closed ∨ c.output.offset < c.output.batch.length then none
  else (c.notifyReaders.prepareFinalHeaders answer.submitTrailers).toOption

/-- `memSend` asks nghttp2 for a block. -/
def asks (c : Http2Connection) : Bool :=
  decide (c.options.maxOutputBatchBytes.toNat ≠ 0) && c.pendingOutput.isEmpty

/-- The connection in which `nextBatch` asks nghttp2 for a block. -/
def asking (c : Http2Connection) (answer : SendAnswer) : Option Http2Connection :=
  (selecting c answer).bind fun selecting =>
    (selecting.selectProducer answer.resumed).toOption.filter asks

/-- The reads that are granted in `nextBatch`. -/
def granted (c : Http2Connection) (answer : SendAnswer) : List Int :=
  (asking c answer).elim [] fun prepared => reads prepared answer.callbacks

def grantedBy (c : Http2Connection) : OutputEvent → List Int
  | .nextBatch answer => granted c answer
  | _ => []

def grants (c : Http2Connection) : List OutputEvent → List Int
  | [] => []
  | e :: events => grantedBy c e ++ grants (step c e) events

/-- The ready producers are these whenever one is chosen. -/
def Ready (S : Finset Int) (c : Http2Connection) : OutputEvent → Prop
  | .nextBatch answer => ∀ s, selecting c answer = some s → s.readyStreams.toFinset = S
  | _ => True

/-- The turn does not move, and the credit stays where it is or is lost. -/
structure Keeps (c c' : Http2Connection) : Prop where
  last : c'.lastReadStream = c.lastReadStream
  credit : c'.readCredit = true → c.readCredit = true ∧ c'.selectedStream = c.selectedStream

theorem Keeps.refl (c : Http2Connection) : Keeps c c := ⟨rfl, fun h => ⟨h, rfl⟩⟩

theorem Keeps.trans (h : Keeps c c') (h' : Keeps c' c'') : Keeps c c'' where
  last := h'.last.trans h.last
  credit := by
    intro hc
    obtain ⟨hc', hs'⟩ := h'.credit hc
    obtain ⟨hc, hs⟩ := h.credit hc'
    exact ⟨hc, hs'.trans hs⟩

theorem Keeps.of_eq (hl : c'.lastReadStream = c.lastReadStream)
    (hc : c'.readCredit = c.readCredit) (hs : c'.selectedStream = c.selectedStream) : Keeps c c' :=
  ⟨hl, fun h => ⟨hc ▸ h, hs⟩⟩

theorem Keeps.fold {α : Type} {f : Http2Connection → α → Http2Connection} (h : ∀ c a, Keeps c (f c a))
    (c : Http2Connection) (l : List α) : Keeps c (l.foldl f c) := by
  induction l generalizing c with
  | nil => exact .refl c
  | cons a l ih => exact (h c a).trans (ih _)

theorem keeps_wake (c : Http2Connection) : Keeps c c.wake := by
  unfold wake
  split
  · exact .refl c
  · exact .of_eq rfl rfl rfl

theorem Keeps.wake (h : Keeps c c') : Keeps c c'.wake := h.trans (keeps_wake c')

theorem keeps_ready (c : Http2Connection) (id : Int) (p changed : DataProducer)
    (resumed : Option NetworkError) : Keeps c (c.ready id p changed resumed).1 := by
  unfold ready
  split
  · exact .refl c
  · apply Keeps.wake
    exact .of_eq rfl rfl rfl

theorem keeps_push (c : Http2Connection) (id : Int) (bytes : Bytes)
    (resumed : Option NetworkError) : Keeps c (c.push id bytes resumed).1 := by
  unfold push
  split
  · exact .refl c
  · split
    · exact .refl c
    · split
      · exact .refl c
      · split
        · exact .refl c
        · exact keeps_ready c id _ _ resumed

theorem keeps_append (c : Http2Connection) (id : Int) (bytes : Bytes)
    (resumed : Option NetworkError) : Keeps c (c.append id bytes resumed).1 := by
  unfold append
  split
  · exact .refl c
  · exact keeps_push c id bytes resumed

theorem keeps_appendChunks (c : Http2Connection) (id : Int) (chunks : List Bytes)
    (resumed : Option NetworkError) : Keeps c (c.appendChunks id chunks resumed).1 := by
  unfold appendChunks
  split
  · exact .refl c
  · split
    · exact .refl c
    · exact keeps_push c id _ resumed

theorem keeps_finish (c : Http2Connection) (id : Int) (trailers : Fields)
    (resumed : Option NetworkError) : Keeps c (c.finish id trailers resumed).1 := by
  unfold finish
  split
  · exact .refl c
  · exact .refl c
  · dsimp only
    split
    · exact .refl c
    · split
      · exact .refl c
      · exact keeps_ready c id _ _ resumed

theorem keeps_reserve (c : Http2Connection) (id : Int) (maximum : Nat) (late : Bool) :
    Keeps c (c.reserve id maximum late) := by
  unfold reserve
  split
  · exact .refl c
  · split <;> exact .of_eq rfl rfl rfl

theorem keeps_reserveRead (c : Http2Connection) (id : Int) (maximum : Nat) (late : Bool) :
    Keeps c (c.reserveRead id maximum late) := by
  unfold reserveRead
  split
  · exact .refl c
  · exact keeps_reserve c id maximum late

theorem keeps_release (c : Http2Connection) (permit : Nat) : Keeps c (c.release permit) := by
  unfold release
  split
  · exact .refl c
  · exact .of_eq rfl rfl rfl

theorem keeps_appendReserved (c : Http2Connection) (id : Int) (bytes : Bytes) (permit : Nat)
    (resumed : Option NetworkError) : Keeps c (c.appendReserved id bytes permit resumed).1 := by
  unfold appendReserved
  split
  · exact keeps_release c permit
  · exact (keeps_release c permit).trans (keeps_append _ id bytes resumed)

theorem keeps_deselect (c : Http2Connection) (id : Int) : Keeps c (c.deselect id) := by
  unfold deselect
  split
  · exact ⟨rfl, (nomatch ·)⟩
  · exact .refl c

theorem keeps_stop (c : Http2Connection) (id : Int) (cancelPending : Bool) :
    Keeps c (c.stop id cancelPending) := by
  unfold stop
  have hfirst : Keeps c (if cancelPending then c.erasePending id else c) := by
    split
    · exact .of_eq rfl rfl rfl
    · exact .refl c
  apply hfirst.trans
  generalize (if cancelPending then c.erasePending id else c) = c
  dsimp only
  split
  · exact .refl c
  · split
    · exact .refl c
    · apply Keeps.wake
      exact (keeps_deselect c id).trans (.of_eq rfl rfl rfl)

theorem keeps_cancelStream (c : Http2Connection) (id : Int) : Keeps c (c.cancelStream id) := by
  apply Keeps.wake
  exact (keeps_stop c id true).trans (.of_eq rfl rfl rfl)

theorem keeps_onClose (c : Http2Connection) (id : Int) (code : Http2Code) :
    Keeps c (c.onClose id code) := (keeps_stop c id _).trans (.of_eq rfl rfl rfl)

theorem keeps_streamClose (c : Http2Connection) (id : Int) (code : Http2Code) :
    Keeps c (c.streamClose id code) := by
  apply (keeps_onClose c id code).trans
  rw [streamClose, onStreamClose]
  split
  · exact keeps_cancelStream _ id
  · split
    · exact .refl _
    · exact keeps_onClose _ id code

theorem keeps_submit (c : Http2Connection) (id : Int) (sendable : Nat) :
    Keeps c (c.submit id sendable) := by
  have hregister : Keeps c (c.register id) := by
    unfold register
    split
    · exact .refl c
    · exact .of_eq rfl rfl rfl
  rw [Http2Connection.submit]
  split
  · exact .refl c
  · apply Keeps.wake
    exact hregister.trans (.of_eq rfl rfl rfl)

theorem keeps_submitResponseHeaders (c : Http2Connection) (id : Int) (sendable : Nat) :
    Keeps c (c.submitResponseHeaders id sendable) := by
  unfold submitResponseHeaders
  split
  · exact .refl c
  · apply Keeps.wake
    exact .of_eq rfl rfl rfl

theorem keeps_closeOutput (c : Http2Connection) : Keeps c c.closeOutput := by
  unfold closeOutput
  split
  · exact .refl c
  · have hclosed : Keeps c { c with output := c.output.change .close } := .of_eq rfl rfl rfl
    have hcancel := Keeps.fold (fun c id => keeps_stop c id true)
      { c with output := c.output.change .close } c.producers.keys
    exact (hclosed.trans hcancel).trans (.of_eq rfl rfl rfl)

theorem keeps_close (c : Http2Connection) : Keeps c c.close := by
  unfold close
  split
  · exact .refl c
  · have hwoken : Keeps c { c with writer := c.writer.woken } := .of_eq rfl rfl rfl
    exact hwoken.trans (keeps_closeOutput _)

theorem keeps_call (c : Http2Connection) (call : PumpCall) : Keeps c (c.call call) := by
  cases call with
  | append id bytes resumed => exact keeps_append c id bytes resumed
  | appendChunks id chunks resumed => exact keeps_appendChunks c id chunks resumed
  | reserveRead id maximum late => exact keeps_reserveRead c id maximum late
  | appendReserved id bytes permit resumed => exact keeps_appendReserved c id bytes permit resumed
  | release permit => exact keeps_release c permit
  | finish id trailers resumed => exact keeps_finish c id trailers resumed
  | cancel id => exact keeps_stop c id true
  | cancelStream id => exact keeps_cancelStream c id
  | streamClose id code => exact keeps_streamClose c id code
  | submit id sendable => exact keeps_submit c id sendable
  | submitResponseHeaders id sendable => exact keeps_submitResponseHeaders c id sendable
  | control sendable | finishConnection =>
    apply Keeps.wake
    exact .of_eq rfl rfl rfl
  | close => exact keeps_close c

theorem keeps_resumeReader (c : Http2Connection) (i : Nat) (late : Bool) :
    Keeps c (c.resumeReader i late) := by
  unfold resumeReader
  split
  · exact .refl c
  next r hr =>
    split
    · have herased : Keeps c { c with readers := c.readers.eraseIdx i } := .of_eq rfl rfl rfl
      exact herased.trans (keeps_reserve _ _ _ _)
    · exact .refl c

theorem keeps_acknowledge (c : Http2Connection) (count : Nat) (onWritten : List PumpCall) :
    Keeps c (c.acknowledge count onWritten) := by
  have hnoted : Keeps c { c with output := (c.output.acknowledge count).1 }.notifyReaders :=
    .of_eq rfl rfl rfl
  exact hnoted.trans (Keeps.fold keeps_call _ onWritten)

theorem keeps_prepareFinal (c : Http2Connection) (id : Int) : Keeps c (c.prepareFinal id) := by
  unfold prepareFinal
  split
  · exact .refl c
  next p hp =>
    split
    next h =>
      apply Keeps.trans _ (keeps_deselect _ id)
      exact .of_eq rfl rfl rfl
    · exact .refl c

theorem keeps_selecting (h : selecting c answer = some s) : Keeps c s := by
  unfold selecting at h
  split at h
  · cases h
  · cases hfinal : c.notifyReaders.prepareFinalHeaders answer.submitTrailers with
    | error error =>
      rw [hfinal] at h
      cases h
    | ok s' =>
      rw [hfinal] at h
      cases h
      have hnotified : Keeps c c.notifyReaders := .of_eq rfl rfl rfl
      apply hnotified.trans
      unfold prepareFinalHeaders at hfinal
      split at hfinal
      · cases hfinal
        exact Keeps.fold keeps_prepareFinal _ _
      · split at hfinal
        · cases hfinal
        · cases hfinal
          exact .refl _

theorem readCredited_credit (c : Http2Connection) (id : Int) (p : DataProducer) (n : Nat) :
    (c.readCredited id p n).1.readCredit = false ∧ (c.readCredited id p n).1.lastReadStream = id := by
  unfold readCredited
  dsimp only
  split
  · split <;> exact ⟨rfl, rfl⟩
  · split
    · exact ⟨rfl, rfl⟩
    · split <;> exact ⟨rfl, rfl⟩

theorem read_turn (c : Http2Connection) (id : Int) (n : Nat) :
    (takesCredit c id n = false ∧ Keeps c (c.callback (.read id n))) ∨
      (takesCredit c id n = true ∧ c.readCredit = true ∧ c.selectedStream = id ∧
        (c.callback (.read id n)).lastReadStream = id ∧
        (c.callback (.read id n)).readCredit = false) := by
  have hkept (hread : Keeps c (c.read id n).1) (hcredit : (c.read id n).1.readCredit = c.readCredit) :
      takesCredit c id n = false ∧ Keeps c (c.callback (.read id n)) := by
    refine ⟨?_, hread⟩
    rw [takesCredit, hcredit, Bool.and_not_self]
  rw [callback] at hkept ⊢
  rw [takesCredit] at hkept ⊢
  unfold Http2Connection.read at hkept ⊢
  split
  next hp =>
    rw [hp] at hkept
    exact .inl (hkept (.refl c) rfl)
  next p hp =>
    rw [hp] at hkept
    dsimp only at hkept
    split
    next hclosed =>
      rw [if_pos hclosed] at hkept
      exact .inl (hkept (.refl c) rfl)
    next hclosed =>
      rw [if_neg hclosed] at hkept
      split
      next hcond =>
        rw [if_pos hcond] at hkept
        exact .inl (hkept (.of_eq rfl rfl rfl) rfl)
      next hcond =>
        obtain ⟨hspent, hlast⟩ := readCredited_credit c id p n
        rw [not_or, not_or] at hcond
        have hcredit : c.readCredit = true := Bool.eq_true_of_not_eq_false hcond.2.2
        refine .inr ⟨?_, hcredit, not_not.1 hcond.2.1, hlast, hspent⟩
        rw [hcredit, hspent]
        rfl

theorem Keeps.spent (h : Keeps c c') (hc : c.readCredit = false) : c'.readCredit = false := by
  apply Bool.eq_false_iff.2
  intro hc'
  rw [(h.credit hc').1] at hc
  cases hc

theorem reads_spent (c : Http2Connection) (callbacks : List SendCallback)
    (hc : c.readCredit = false) :
    reads c callbacks = [] ∧ Keeps c (callbacks.foldl callback c) := by
  induction callbacks generalizing c with
  | nil => exact ⟨rfl, .refl c⟩
  | cons b callbacks ih =>
    rw [List.foldl_cons]
    cases b with
    | read id n =>
      obtain ⟨htakes, hkeeps⟩ | ⟨-, hcredit, -⟩ := read_turn c id n
      · obtain ⟨hreads, hrest⟩ := ih _ (hkeeps.spent hc)
        rw [reads, htakes, if_neg Bool.false_ne_true, hreads]
        exact ⟨rfl, hkeeps.trans hrest⟩
      · rw [hc] at hcredit
        cases hcredit
    | call call =>
      have hkeeps : Keeps c (c.callback (.call call)) := keeps_call c call
      obtain ⟨hreads, hrest⟩ := ih _ (hkeeps.spent hc)
      exact ⟨hreads, hkeeps.trans hrest⟩

theorem reads_turn (c : Http2Connection) (callbacks : List SendCallback) :
    (reads c callbacks = [] ∧ Keeps c (callbacks.foldl callback c)) ∨
      (reads c callbacks = [c.selectedStream] ∧ c.readCredit = true ∧
        (callbacks.foldl callback c).lastReadStream = c.selectedStream ∧
        (callbacks.foldl callback c).readCredit = false) := by
  induction callbacks generalizing c with
  | nil => exact .inl ⟨rfl, .refl c⟩
  | cons b callbacks ih =>
    have hrest (hkeeps : Keeps c (c.callback b)) (hreads : reads c (b :: callbacks) =
        reads (c.callback b) callbacks) : (reads c (b :: callbacks) = [] ∧
          Keeps c ((b :: callbacks).foldl callback c)) ∨
        (reads c (b :: callbacks) = [c.selectedStream] ∧ c.readCredit = true ∧
          ((b :: callbacks).foldl callback c).lastReadStream = c.selectedStream ∧
          ((b :: callbacks).foldl callback c).readCredit = false) := by
      rw [hreads, List.foldl_cons]
      obtain ⟨hnone, hkeeps'⟩ | ⟨hone, hcredit, hlast, hspent⟩ := ih (c.callback b)
      · exact .inl ⟨hnone, hkeeps.trans hkeeps'⟩
      · obtain ⟨hcredit, hselected⟩ := hkeeps.credit hcredit
        rw [hselected] at hone hlast
        exact .inr ⟨hone, hcredit, hlast, hspent⟩
    cases b with
    | read id n =>
      obtain ⟨htakes, hkeeps⟩ | ⟨htakes, hcredit, hselected, hlast, hspent⟩ := read_turn c id n
      · apply hrest hkeeps
        rw [reads, htakes, if_neg Bool.false_ne_true]
        rfl
      · obtain ⟨hnone, hkeeps⟩ := reads_spent _ callbacks hspent
        rw [reads, htakes, if_pos rfl, hnone, List.foldl_cons, hselected]
        exact .inr ⟨rfl, hcredit, hkeeps.last.trans hlast, hkeeps.spent hspent⟩
    | call call => exact hrest (keeps_call c call) rfl

theorem nextStream_next (c : Http2Connection) {id : Int} (h : c.nextStream = some id) :
    Cyclic.Next c.readyStreams.toFinset c.lastReadStream id := by
  unfold nextStream at h
  cases hbehind : (c.readyStreams.filter fun id => decide (c.lastReadStream < id)).min? with
  | none =>
    rw [hbehind] at h
    obtain ⟨hmem, hmin⟩ := List.min?_eq_some_iff.1 (show c.readyStreams.min? = some id from h)
    have hall := List.filter_eq_nil_iff.1 (List.min?_eq_none_iff.1 hbehind)
    refine ⟨List.mem_toFinset.2 hmem, .inr ⟨fun z hz => ?_, fun z hz => ?_⟩⟩
    · have := hall z (List.mem_toFinset.1 hz)
      rw [decide_eq_true_eq] at this
      exact not_lt.1 this
    · exact hmin z (List.mem_toFinset.1 hz)
  | some y =>
    rw [hbehind] at h
    cases h
    obtain ⟨hmem, hmin⟩ := List.min?_eq_some_iff.1 hbehind
    obtain ⟨hmem, hlt⟩ := List.mem_filter.1 hmem
    refine ⟨List.mem_toFinset.2 hmem, .inl ⟨of_decide_eq_true hlt, fun z hz hlt => ?_⟩⟩
    exact hmin z (List.mem_filter.2 ⟨List.mem_toFinset.1 hz, decide_eq_true hlt⟩)

def Holds (S : Finset Int) (c : Http2Connection) (id : Int) : Prop :=
  (c.readCredit = true ∧ id = c.selectedStream) ∨ Cyclic.Next S c.lastReadStream id

theorem selectProducer_turn (c : Http2Connection) (h : c.selectProducer resumed = .ok s) :
    s.lastReadStream = c.lastReadStream ∧
      (s.readCredit = true → s.selectedStream ∈ c.readyStreams ∧
        Holds c.readyStreams.toFinset c s.selectedStream) := by
  unfold selectProducer at h
  split at h
  next hkeep =>
    cases h
    refine ⟨rfl, fun hcredit => ⟨?_, .inl ⟨hcredit, rfl⟩⟩⟩
    rw [Bool.and_eq_true] at hkeep
    cases hp : s.source s.selectedStream with
    | none =>
      rw [hp] at hkeep
      cases hkeep.2
    | some p =>
      apply List.mem_filter.2
      exact ⟨AList.mem_keys.1 (AList.lookup_isSome.1 (Option.isSome_of_eq_some hp)), hkeep.2⟩
  next =>
    dsimp only at h
    split at h
    · cases h
      exact ⟨rfl, (nomatch ·)⟩
    next id hnext =>
      have hnext := nextStream_next _ hnext
      unfold grant at h
      split at h
      · cases h
        exact ⟨rfl, (nomatch ·)⟩
      · split at h
        · cases h
        · cases h
          exact ⟨rfl, fun _ => ⟨List.mem_toFinset.1 hnext.mem, .inr hnext⟩⟩

/-- What an event may do: nobody is read, or one stream whose turn it is. -/
inductive Served (S : Finset Int) (c c' : Http2Connection) : List Int → Prop where
  | none (last : c'.lastReadStream = c.lastReadStream)
      (credit : c'.readCredit = true → Holds S c c'.selectedStream) : Served S c c' []
  | one {id : Int} (mem : id ∈ S) (holds : Holds S c id) (last : c'.lastReadStream = id)
      (spent : c'.readCredit = false) : Served S c c' [id]

theorem Keeps.served (h : Keeps c c') : Served S c c' [] :=
  .none h.last fun hcredit => .inl (h.credit hcredit)

theorem Served.keeps (h : Served S c c' ids) (hk : Keeps c' c'') : Served S c c'' ids := by
  cases h with
  | none last credit =>
    refine .none (hk.last.trans last) fun hcredit => ?_
    obtain ⟨hcredit, hselected⟩ := hk.credit hcredit
    rw [hselected]
    exact credit hcredit
  | one mem holds last spent => exact .one mem holds (hk.last.trans last) (hk.spent spent)

theorem Holds.keeps {id : Int} (h : Holds S c' id) (hk : Keeps c c') : Holds S c id := by
  obtain ⟨hcredit, hid⟩ | hnext := h
  · obtain ⟨hcredit, hselected⟩ := hk.credit hcredit
    exact .inl ⟨hcredit, hid.trans hselected⟩
  · rw [hk.last] at hnext
    exact .inr hnext

theorem memSend_asked (c : Http2Connection) (answer : SendAnswer)
    (h : asks c = true) : Keeps (answer.callbacks.foldl callback c) (c.memSend answer).1 := by
  rw [asks, Bool.and_eq_true, decide_eq_true_eq, List.isEmpty_iff] at h
  rw [memSend]
  dsimp only
  rw [if_neg h.1, h.2, List.length_nil, if_neg (Nat.not_lt_zero _), if_neg (by simp)]
  split
  · exact .of_eq rfl rfl rfl
  · split <;> exact .of_eq rfl rfl rfl

theorem memSend_unasked (c : Http2Connection) (answer : SendAnswer)
    (h : ¬asks c = true) : Keeps c (c.memSend answer).1 := by
  rw [asks, Bool.and_eq_true, decide_eq_true_eq, List.isEmpty_iff] at h
  rw [memSend]
  dsimp only
  split
  · exact .refl c
  next hlimit =>
    split
    · exact .refl c
    · rw [if_pos fun hempty => h ⟨hlimit, hempty⟩]
      exact .of_eq rfl rfl rfl

theorem served_memSend (s prepared : Http2Connection) (answer : SendAnswer)
    (hlast : prepared.lastReadStream = s.lastReadStream)
    (hcredit : prepared.readCredit = true →
      prepared.selectedStream ∈ S ∧ Holds S s prepared.selectedStream) :
    Served S s (prepared.memSend answer).1
      (((some prepared).filter asks).elim [] fun c => reads c answer.callbacks) := by
  by_cases h : asks prepared = true
  · rw [Option.filter_some_pos h]
    apply Served.keeps _ (memSend_asked prepared answer h)
    rw [Option.elim_some]
    obtain ⟨hnone, hkeeps⟩ | ⟨hone, hheld, hread, hspent⟩ := reads_turn prepared answer.callbacks
    · rw [hnone]
      exact Served.keeps (.none hlast fun h => (hcredit h).2) hkeeps
    · rw [hone]
      exact .one (hcredit hheld).1 (hcredit hheld).2 hread hspent
  · rw [Option.filter_some_neg (Bool.eq_false_iff.2 h)]
    exact Served.keeps (.none hlast fun h => (hcredit h).2) (memSend_unasked prepared answer h)

theorem Served.after (hk : Keeps c s) (h : Served S s c' ids) : Served S c c' ids := by
  cases h with
  | none last credit => exact .none (last.trans hk.last) fun hcredit => (credit hcredit).keeps hk
  | one mem holds last spent => exact .one mem (holds.keeps hk) last spent

theorem served_nextBatch (c : Http2Connection) (answer : SendAnswer)
    (hready : Ready S c (.nextBatch answer)) :
    Served S c (c.nextBatch answer).1 (granted c answer) := by
  have hready : ∀ s, selecting c answer = some s → s.readyStreams.toFinset = S := hready
  rw [granted, asking, nextBatch, prepare]
  cases hselecting : selecting c answer with
  | none =>
    rw [selecting] at hselecting
    rw [Option.bind_none, Option.elim_none]
    split
    · exact (Keeps.refl c).served
    · split
      · exact (Keeps.refl c).served
      next hclosed hsent =>
        rw [if_neg (not_or.2 ⟨hclosed, hsent⟩)] at hselecting
        cases hfinal : c.notifyReaders.prepareFinalHeaders answer.submitTrailers with
        | error error => exact (keeps_closeOutput c).served
        | ok s =>
          rw [hfinal] at hselecting
          cases hselecting
  | some s =>
    have hS := hready s hselecting
    have hkeeps := keeps_selecting hselecting
    rw [Option.bind_some]
    rw [selecting] at hselecting
    split at hselecting
    · cases hselecting
    next hopen =>
      rw [not_or] at hopen
      rw [if_neg hopen.1, if_neg hopen.2]
      cases hfinal : c.notifyReaders.prepareFinalHeaders answer.submitTrailers with
      | error error =>
        rw [hfinal] at hselecting
        cases hselecting
      | ok s' =>
        rw [hfinal] at hselecting
        cases hselecting
        dsimp only
        cases hselect : s.selectProducer answer.resumed with
        | error error => exact (keeps_closeOutput c).served
        | ok prepared =>
          obtain ⟨hlast, hcredit⟩ := selectProducer_turn s hselect
          rw [hS] at hcredit
          have hserved := served_memSend s prepared answer hlast fun h =>
            ⟨hS ▸ List.mem_toFinset.2 (hcredit h).1, (hcredit h).2⟩
          have hserved := hserved.after hkeeps
          dsimp only
          cases hsend : prepared.memSend answer with
          | mk sent bytes =>
            rw [hsend] at hserved
            cases bytes with
            | error error => exact hserved.keeps (keeps_closeOutput sent)
            | ok bytes => exact hserved.keeps (.of_eq rfl rfl rfl)

theorem served_step (c : Http2Connection) (e : OutputEvent) (hready : Ready S c e) :
    Served S c (step c e) (grantedBy c e) := by
  cases e with
  | nextBatch answer => exact served_nextBatch c answer hready
  | acknowledge count onWritten => exact (keeps_acknowledge c count onWritten).served
  | call call => exact (keeps_call c call).served
  | reader i late => exact (keeps_resumeReader c i late).served
  | received library => exact Keeps.served (.of_eq rfl rfl rfl)

/-- The credit is with the stream whose turn it is. -/
def InTurn (S : Finset Int) (c : Http2Connection) : Prop :=
  c.readCredit = true → Cyclic.Next S c.lastReadStream c.selectedStream

theorem InTurn.next {id : Int} (h : InTurn S c) (hholds : Holds S c id) :
    Cyclic.Next S c.lastReadStream id := by
  obtain ⟨hcredit, rfl⟩ | hnext := hholds
  · exact h hcredit
  · exact hnext

theorem inTurn_spent (h : c.readCredit = false) : InTurn S c := by
  intro hcredit
  rw [h] at hcredit
  cases hcredit

theorem grants_inTurn (c : Http2Connection) (events : List OutputEvent) (h : InTurn S c)
    (hready : Runs.Along step (Ready S) c events) :
    (c.lastReadStream :: grants c events).IsChain (Cyclic.Next S) := by
  induction events generalizing c with
  | nil => exact List.isChain_singleton _
  | cons e events ih =>
    obtain ⟨he, hevents⟩ := hready
    have hserved := served_step c e he
    rw [grants]
    generalize grantedBy c e = ids at hserved ⊢
    generalize step c e = c' at hserved hevents ⊢
    cases hserved with
    | none last credit =>
      rw [List.nil_append, ← last]
      apply ih c' _ hevents
      intro hcredit
      rw [last]
      exact h.next (credit hcredit)
    | one mem holds last spent =>
      rw [List.singleton_append, List.isChain_cons_cons]
      refine ⟨h.next holds, ?_⟩
      rw [← last]
      exact ih c' (inTurn_spent spent) hevents

/-- From any connection on, the streams that are read are ready, and each follows the one before. -/
theorem grants_chain (c : Http2Connection) (events : List OutputEvent)
    (hready : Runs.Along step (Ready S) c events) :
    (grants c events).IsChain (Cyclic.Next S) ∧ ∀ id ∈ grants c events, id ∈ S := by
  induction events generalizing c with
  | nil => exact ⟨List.isChain_nil, fun id h => absurd h List.not_mem_nil⟩
  | cons e events ih =>
    obtain ⟨he, hevents⟩ := hready
    have hserved := served_step c e he
    rw [grants]
    generalize grantedBy c e = ids at hserved ⊢
    generalize step c e = c' at hserved hevents ⊢
    cases hserved with
    | none => exact ih c' hevents
    | one mem holds last spent =>
      rw [List.singleton_append]
      refine ⟨?_, List.forall_mem_cons.2 ⟨mem, (ih c' hevents).2⟩⟩
      rw [← last]
      exact grants_inTurn c' events (inTurn_spent spent) hevents

theorem length_granted (c : Http2Connection) (answer : SendAnswer) :
    (granted c answer).length ≤ 1 := by
  rw [granted]
  cases asking c answer with
  | none => exact Nat.zero_le _
  | some prepared =>
    rw [Option.elim_some]
    obtain ⟨hnone, -⟩ | ⟨hone, -⟩ := reads_turn prepared answer.callbacks
    · rw [hnone]
      exact Nat.zero_le _
    · rw [hone]
      exact Nat.le_refl 1

/-- While the same streams are ready, any of them as many reads in a row as there are serve each of
them once, in the cyclic order of their numbers; and one batch grants at most one read. -/
theorem reads_in_turn (S : Finset Int) (c : Http2Connection) (events : List OutputEvent)
    (hready : Runs.Along step (Ready S) c events) :
    (∀ before w after, grants c events = before ++ w ++ after → w.length = S.card →
      w.Perm S.sort ∧ w.IsChain (Cyclic.Next S)) ∧
    ∀ c answer, (granted c answer).length ≤ 1 := by
  refine ⟨?_, length_granted⟩
  intro before w after hgrants hlength
  obtain ⟨hchain, hmem⟩ := grants_chain c events hready
  rw [hgrants] at hchain hmem
  have hw : w.IsChain (Cyclic.Next S) := hchain.left_of_append.right_of_append
  refine ⟨Cyclic.chain_perm hw (fun id h => ?_) hlength, hw⟩
  exact hmem id (List.mem_append_left _ (List.mem_append_right _ h))

def windows : Library where
  connectionWindow := 100
  streamWindow _ := 100
  activeLocalStreamCount := 0
  peerMaxConcurrentStreams := 100
  sendable := 0
  wantRead := true
  wantWrite := true

/-- Two responses with two chunks each, and two batches in which nghttp2 asks for both. -/
def twoStreams : List OutputEvent :=
  [.call (.submit 1 0), .call (.submit 3 0), .call (.append 1 [7] none), .call (.append 3 [8] none),
    .call (.append 1 [7] none), .call (.append 3 [8] none),
    .nextBatch { callbacks := [.read 1 10, .read 3 10], bytes := .ok [1], library := windows },
    .acknowledge 1 [],
    .nextBatch { callbacks := [.read 1 10, .read 3 10], bytes := .ok [2], library := windows }]

theorem ready_twoStreams :
    Runs.Along step (Ready {1, 3}) (start .hServer {} rfl windows) twoStreams := by
  refine ⟨trivial, trivial, trivial, trivial, trivial, trivial, ?_, trivial, ?_, trivial⟩
  · intro s h
    cases h
    decide
  · intro s h
    cases h
    decide

theorem reads_in_turn_twoStreams :
    ([1, 3] : List Int).Perm (Finset.sort {1, 3}) ∧ [1, 3].IsChain (Cyclic.Next ({1, 3} : Finset Int)) :=
  (reads_in_turn {1, 3} (start .hServer {} rfl windows) twoStreams ready_twoStreams).1 [] [1, 3] []
    (by decide) (by decide)

end Hical.Http2.Rotation
