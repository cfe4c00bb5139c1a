import Hical.Bytes
import Mathlib.Data.List.Range
import Mathlib.Logic.Relation

/-! The log sink that writes from a thread of its own. -/

namespace Hical.Log

structure SinkOptions where
  backpressureLimit : Nat

/-- What is appended to the log file. -/
inductive Appended where
  | report (dropped : Nat)
  | lines (text : Bytes)

def Appended.bytes : Appended → Bytes
  | .report dropped => Hical.bytes "[WARN] AsyncFileSink: " ++ Hical.bytes (toString dropped) ++
      Hical.bytes " log lines dropped due to backpressure\n"
  | .lines text => text

def Appended.text : Appended → Bytes
  | .report _ => []
  | .lines text => text

def Appended.drops : Appended → Nat
  | .report dropped => dropped
  | .lines _ => 0

/-- Where `backgroundLoop` stands. -/
inductive Loop where
  | waiting
  /-- The buffers are swapped, and the lock is released. -/
  | swapped
  /-- The drops are taken over into a report. -/
  | reporting (dropped : Nat)
  | appending
  | flushing
  | answering
  | ended
  deriving DecidableEq

/-- `AsyncFileSink`. A flush request is named by its number. -/
structure AsyncFileSink where
  curBuf : Bytes := []
  flushBuf : Bytes := []
  /-- `dropped_`, which `droppedCount` reads. -/
  dropped : Nat := 0
  flushRequests : List Nat := []
  batchRequests : List Nat := []
  stopRequested : Bool := false
  loop : Loop := .waiting
  /-- What the log file was given, and how much of it was flushed. -/
  file : List Appended := []
  flushed : Nat := 0
  /-- Not in the code: the calls of `write`, and the lines that were taken. -/
  passed : Nat := 0
  accepted : List Bytes := []
  /-- Not in the code: how many bytes were accepted before each flush request, and the requests
  whose promise is set. -/
  asked : List Nat := []
  answered : List Nat := []

inductive SinkEvent where
  | write (formattedLine : Bytes)
  | flush
  /-- The wait ends, by a notification, a timeout, a stop or for no reason. -/
  | wake
  | takeDrops
  | appendReport
  | appendLines
  | flushFile
  /-- A promise is set, or all of them are. -/
  | answer
  /-- The destructor asks the thread to stop. -/
  | destroy

namespace AsyncFileSink

def write (s : AsyncFileSink) (opts : SinkOptions) (formattedLine : Bytes) : AsyncFileSink :=
  if s.curBuf.length > opts.backpressureLimit then { s with dropped := s.dropped + 1, passed := s.passed + 1 }
  else { s with
    curBuf := s.curBuf ++ formattedLine
    passed := s.passed + 1
    accepted := s.accepted ++ [formattedLine] }

def flush (s : AsyncFileSink) : AsyncFileSink :=
  { s with
    flushRequests := s.flushRequests ++ [s.asked.length]
    asked := s.asked ++ [s.accepted.flatten.length] }

/-- The part of the loop under the lock. -/
def wake (s : AsyncFileSink) : AsyncFileSink :=
  if s.stopRequested ∧ s.curBuf = [] ∧ s.flushRequests = [] then { s with loop := .ended }
  else if s.curBuf = [] ∧ s.flushRequests = [] then s
  else { s with
    curBuf := s.flushBuf
    flushBuf := s.curBuf
    batchRequests := s.flushRequests
    flushRequests := s.batchRequests
    loop := if s.curBuf = [] then .flushing else .swapped }

def takeDrops (s : AsyncFileSink) : AsyncFileSink :=
  { s with dropped := 0, loop := if 0 < s.dropped then .reporting s.dropped else .appending }

def answer (s : AsyncFileSink) : AsyncFileSink :=
  match s.batchRequests with
  | [] => { s with loop := .waiting }
  | request :: rest => { s with batchRequests := rest, answered := request :: s.answered }

/-- One event; none is where it cannot happen. No call comes after the thread was joined. -/
def step (opts : SinkOptions) (s : AsyncFileSink) : SinkEvent → Option AsyncFileSink
  | .write formattedLine => if s.loop = .ended then none else some (s.write opts formattedLine)
  | .flush => if s.loop = .ended then none else some s.flush
  | .wake => if s.loop = .waiting then some s.wake else none
  | .takeDrops => if s.loop = .swapped then some s.takeDrops else none
  | .appendReport => match s.loop with
    | .reporting dropped => some { s with file := s.file ++ [.report dropped], loop := .appending }
    | _ => none
  | .appendLines =>
    if s.loop = .appending then some { s with file := s.file ++ [.lines s.flushBuf], flushBuf := [], loop := .flushing }
    else none
  | .flushFile => if s.loop = .flushing then some { s with flushed := s.file.length, loop := .answering } else none
  | .answer => if s.loop = .answering then some s.answer else none
  | .destroy => if s.stopRequested then none else some { s with stopRequested := true }

def run (opts : SinkOptions) (s : AsyncFileSink) : List SinkEvent → Option AsyncFileSink
  | [] => some s
  | e :: events => (s.step opts e).bind fun s' => s'.run opts events

def text (file : List Appended) : Bytes := file.flatMap Appended.text

def reported (s : AsyncFileSink) : Nat := (s.file.map Appended.drops).sum

/-- The drops that the loop took over and did not write down yet. -/
def taken (s : AsyncFileSink) : Nat :=
  match s.loop with
  | .reporting dropped => dropped
  | _ => 0

/-- Every flush request that is asked for and not answered yet. -/
def pending (s : AsyncFileSink) : List Nat := s.flushRequests ++ s.batchRequests

/-- What holds between any two steps of the threads. -/
structure Inv (s : AsyncFileSink) : Prop where
  lines : text s.file ++ s.flushBuf ++ s.curBuf = s.accepted.flatten
  counts : s.passed = s.accepted.length + s.reported + s.taken + s.dropped
  requests : (s.pending ++ s.answered).Perm (List.range s.asked.length)
  marks : ∀ mark ∈ s.asked, mark ≤ s.accepted.flatten.length
  /-- A request of the batch came when what was accepted was in the buffer that is being written. -/
  batch : ∀ request ∈ s.batchRequests, ∀ mark, s.asked[request]? = some mark →
    mark ≤ (text s.file ++ s.flushBuf).length
  answers : ∀ request ∈ s.answered, ∀ mark, s.asked[request]? = some mark →
    mark ≤ (text (s.file.take s.flushed)).length
  upTo : s.flushed ≤ s.file.length
  idle : s.loop = .waiting ∨ s.loop = .ended → s.flushBuf = [] ∧ s.batchRequests = []
  wrote : s.loop = .flushing ∨ s.loop = .answering → s.flushBuf = []
  synced : s.loop = .answering → s.flushed = s.file.length
  drained : s.loop = .ended → s.curBuf = [] ∧ s.flushRequests = []

variable {opts : SinkOptions} {s s' : AsyncFileSink}

theorem text_append (file : List Appended) (a : Appended) : text (file ++ [a]) = text file ++ a.text := by
  rw [text, text, List.flatMap_append, List.flatMap_singleton]

theorem inv_start : Inv {} where
  lines := rfl
  counts := rfl
  requests := List.Perm.refl _
  marks _ h := nomatch h
  batch _ h := nomatch h
  answers _ h := nomatch h
  upTo := Nat.le_refl _
  idle _ := ⟨rfl, rfl⟩
  wrote _ := rfl
  synced h := nomatch h
  drained h := nomatch h

theorem Inv.write (h : Inv s) (hl : s.loop ≠ .ended) (formattedLine : Bytes) : Inv (s.write opts formattedLine) := by
  rw [AsyncFileSink.write]
  split
  · refine { h with counts := ?_ }
    have hcounts := h.counts
    change s.passed + 1 = s.accepted.length + s.reported + s.taken + (s.dropped + 1)
    omega
  · have hmore : (s.accepted ++ [formattedLine]).flatten = s.accepted.flatten ++ formattedLine := by simp
    refine { h with lines := ?_, counts := ?_, marks := fun mark hm => ?_, drained := fun he => absurd he hl }
    · dsimp only
      rw [← List.append_assoc, h.lines, hmore]
    · have hcounts := h.counts
      change s.passed + 1 = (s.accepted ++ [formattedLine]).length + s.reported + s.taken + s.dropped
      rw [List.length_append, List.length_singleton]
      omega
    · dsimp only
      rw [hmore, List.length_append]
      exact Nat.le_add_right_of_le (h.marks mark hm)

theorem mark_append {asked : List Nat} (hr : request < asked.length) (hm : (asked ++ [new])[request]? = some mark) :
    asked[request]? = some mark := by
  rw [List.getElem?_append_left hr] at hm
  exact hm

theorem Inv.known (h : Inv s) (hr : request ∈ s.pending ++ s.answered) : request < s.asked.length :=
  List.mem_range.1 (h.requests.subset hr)

theorem Inv.flush (h : Inv s) (hl : s.loop ≠ .ended) : Inv s.flush := by
  refine { h with
    requests := ?_, marks := fun mark hm => ?_, batch := fun request hr mark hm => ?_,
    answers := fun request hr mark hm => ?_, drained := fun he => absurd he hl }
  · change ((s.flushRequests ++ [s.asked.length] ++ s.batchRequests) ++ s.answered).Perm
      (List.range (s.asked ++ [s.accepted.flatten.length]).length)
    rw [List.length_append, List.length_singleton, List.range_succ]
    simp only [List.append_assoc, List.singleton_append]
    apply List.Perm.trans List.perm_middle
    apply List.Perm.trans _ (List.perm_append_singleton _ _).symm
    apply List.Perm.cons
    have hrequests := h.requests
    rw [pending, List.append_assoc] at hrequests
    exact hrequests
  · rcases List.mem_append.1 hm with hm | hm
    · exact h.marks mark hm
    · rw [List.mem_singleton.1 hm]
      exact Nat.le_refl _
  · exact h.batch request hr mark
      (mark_append (h.known (List.mem_append_left _ (List.mem_append_right _ hr))) hm)
  · exact h.answers request hr mark (mark_append (h.known (List.mem_append_right _ hr)) hm)

theorem Inv.wake (h : Inv s) (hl : s.loop = .waiting) : Inv s.wake := by
  obtain ⟨hbuf, hbatch⟩ := h.idle (.inl hl)
  have htaken : s.taken = 0 := by rw [taken, hl]
  rw [AsyncFileSink.wake]
  split
  · next hempty =>
    refine { h with
      counts := ?_, idle := fun _ => ⟨hbuf, hbatch⟩, wrote := ?_, synced := ?_, drained := fun _ => hempty.2 }
    · have hcounts := h.counts
      rw [htaken] at hcounts
      exact hcounts
    · rintro (he | he)
      · cases he
      · cases he
    · intro he
      cases he
  · split
    · exact h
    · have hlines := h.lines
      rw [hbuf, List.append_nil] at hlines
      refine { h with
        lines := ?_, counts := ?_, requests := ?_, batch := fun request hr mark hm => ?_, idle := ?_, wrote := ?_,
        synced := ?_, drained := ?_ }
      · dsimp only
        rw [hbuf, List.append_nil]
        exact hlines
      · have hcounts := h.counts
        rw [htaken] at hcounts
        change s.passed = s.accepted.length + s.reported + taken _ + s.dropped
        rw [taken]
        split
        · next hr =>
          dsimp only at hr
          split at hr
          · cases hr
          · cases hr
        · exact hcounts
      · have hrequests := h.requests
        rw [pending, hbatch, List.append_nil] at hrequests
        change ((s.batchRequests ++ s.flushRequests) ++ s.answered).Perm _
        rw [hbatch, List.nil_append]
        exact hrequests
      · dsimp only
        rw [hlines]
        exact h.marks mark (List.mem_of_getElem? hm)
      · intro he
        dsimp only at he
        split at he
        · rcases he with he | he
          · cases he
          · cases he
        · rcases he with he | he
          · cases he
          · cases he
      · intro he
        dsimp only at he ⊢
        split at he
        · next hcur => exact hcur
        · rcases he with he | he
          · cases he
          · cases he
      · intro he
        dsimp only at he
        split at he
        · cases he
        · cases he
      · intro he
        dsimp only at he
        split at he
        · cases he
        · cases he

theorem Inv.takeDrops (h : Inv s) (hl : s.loop = .swapped) : Inv s.takeDrops := by
  have htaken : s.taken = 0 := by rw [taken, hl]
  have hcounts := h.counts
  rw [htaken] at hcounts
  have hloop : s.takeDrops.loop = .reporting s.dropped ∧ 0 < s.dropped ∨ s.takeDrops.loop = .appending ∧ s.dropped = 0 := by
    rw [AsyncFileSink.takeDrops]
    dsimp only
    split
    · next hd => exact .inl ⟨rfl, hd⟩
    · next hd => exact .inr ⟨rfl, Nat.eq_zero_of_not_pos hd⟩
  have htook : s.takeDrops.taken = s.dropped := by
    rw [taken]
    rcases hloop with ⟨hloop, -⟩ | ⟨hloop, hd⟩
    · rw [hloop]
    · rw [hloop, hd]
  have hother : s.takeDrops.loop ≠ .waiting ∧ s.takeDrops.loop ≠ .ended ∧ s.takeDrops.loop ≠ .flushing ∧
      s.takeDrops.loop ≠ .answering := by
    rcases hloop with ⟨hloop, -⟩ | ⟨hloop, -⟩
    · simp [hloop]
    · simp [hloop]
  refine { h with
    counts := ?_
    idle := fun he => absurd he (not_or.2 ⟨hother.1, hother.2.1⟩)
    wrote := fun he => absurd he (not_or.2 ⟨hother.2.2.1, hother.2.2.2⟩)
    synced := fun he => absurd he hother.2.2.2
    drained := fun he => absurd he hother.2.1 }
  rw [htook]
  exact hcounts

theorem Inv.take_append (h : Inv s) (a : Appended) : (s.file ++ [a]).take s.flushed = s.file.take s.flushed :=
  List.take_append_of_le_length h.upTo

theorem Inv.appendReport {n : Nat} (h : Inv s) (hl : s.loop = .reporting n) :
    Inv { s with file := s.file ++ [.report n], loop := .appending } := by
  have htext : text (s.file ++ [.report n]) = text s.file := by
    rw [text_append]
    exact List.append_nil _
  refine { h with
    lines := ?_, counts := ?_, batch := fun request hr mark hm => ?_, answers := fun request hr mark hm => ?_
    upTo := ?_, idle := ?_, wrote := ?_, synced := fun he => (nomatch he), drained := fun he => (nomatch he) }
  · dsimp only
    rw [htext]
    exact h.lines
  · have hcounts := h.counts
    have htaken : s.taken = n := by rw [taken, hl]
    rw [htaken] at hcounts
    change s.passed = s.accepted.length + ((s.file ++ [Appended.report n]).map Appended.drops).sum + 0 + s.dropped
    rw [List.map_append, List.sum_append, List.map_singleton, List.sum_singleton]
    change s.passed = s.accepted.length + (s.reported + n) + 0 + s.dropped
    omega
  · dsimp only
    rw [htext]
    exact h.batch request hr mark hm
  · dsimp only
    rw [h.take_append]
    exact h.answers request hr mark hm
  · dsimp only
    rw [List.length_append]
    exact Nat.le_add_right_of_le h.upTo
  · rintro (he | he)
    · cases he
    · cases he
  · rintro (he | he)
    · cases he
    · cases he

theorem Inv.appendLines (h : Inv s) (hl : s.loop = .appending) :
    Inv { s with file := s.file ++ [.lines s.flushBuf], flushBuf := [], loop := .flushing } := by
  have htext : text (s.file ++ [Appended.lines s.flushBuf]) = text s.file ++ s.flushBuf := text_append ..
  refine { h with
    lines := ?_, counts := ?_, batch := fun request hr mark hm => ?_, answers := fun request hr mark hm => ?_
    upTo := ?_, idle := ?_, wrote := fun _ => rfl, synced := fun he => (nomatch he), drained := fun he => (nomatch he) }
  · dsimp only
    rw [htext, List.append_nil]
    exact h.lines
  · have hcounts := h.counts
    have htaken : s.taken = 0 := by rw [taken, hl]
    rw [htaken] at hcounts
    change s.passed = s.accepted.length + ((s.file ++ [Appended.lines s.flushBuf]).map Appended.drops).sum + 0 + s.dropped
    rw [List.map_append, List.sum_append, List.map_singleton, List.sum_singleton]
    exact hcounts
  · dsimp only
    rw [htext, List.append_nil]
    exact h.batch request hr mark hm
  · dsimp only
    rw [h.take_append]
    exact h.answers request hr mark hm
  · dsimp only
    rw [List.length_append]
    exact Nat.le_add_right_of_le h.upTo
  · rintro (he | he)
    · cases he
    · cases he

theorem Inv.flushFile (h : Inv s) (hl : s.loop = .flushing) :
    Inv { s with flushed := s.file.length, loop := .answering } := by
  have hsub : (text (s.file.take s.flushed)).length ≤ (text s.file).length := by
    have hsplit : text s.file = text (s.file.take s.flushed) ++ text (s.file.drop s.flushed) := by
      rw [text, text, text, ← List.flatMap_append, List.take_append_drop]
    rw [hsplit, List.length_append]
    exact Nat.le_add_right _ _
  refine { h with
    counts := ?_, answers := fun request hr mark hm => ?_, upTo := Nat.le_refl _, idle := ?_
    wrote := fun _ => h.wrote (.inl hl), synced := fun _ => rfl, drained := fun he => (nomatch he) }
  · have hcounts := h.counts
    have htaken : s.taken = 0 := by rw [taken, hl]
    rw [htaken] at hcounts
    exact hcounts
  · dsimp only
    rw [List.take_length]
    exact Nat.le_trans (h.answers request hr mark hm) hsub
  · rintro (he | he)
    · cases he
    · cases he

theorem answer_nil (hb : s.batchRequests = []) : s.answer = { s with loop := .waiting } := by
  rw [answer, hb]

theorem answer_cons (hb : s.batchRequests = request :: rest) :
    s.answer = { s with batchRequests := rest, answered := request :: s.answered } := by
  rw [answer, hb]

theorem Inv.answer (h : Inv s) (hl : s.loop = .answering) : Inv s.answer := by
  have hbuf := h.wrote (.inr hl)
  have hsynced := h.synced hl
  cases hb : s.batchRequests with
  | nil =>
    rw [answer_nil hb]
    refine { h with
      counts := ?_, idle := fun _ => ⟨hbuf, hb⟩, wrote := ?_, synced := fun he => (nomatch he)
      drained := fun he => (nomatch he) }
    · have hcounts := h.counts
      have htaken : s.taken = 0 := by rw [taken, hl]
      rw [htaken] at hcounts
      exact hcounts
    · rintro (he | he)
      · cases he
      · cases he
  | cons request rest =>
    rw [answer_cons hb]
    refine { h with
      requests := ?_, batch := fun other ho => ?_, answers := fun other ho mark hm => ?_, idle := fun he => ?_ }
    · have hrequests := h.requests
      rw [pending, hb] at hrequests
      apply List.Perm.trans _ hrequests
      change ((s.flushRequests ++ rest) ++ (request :: s.answered)).Perm ((s.flushRequests ++ request :: rest) ++ s.answered)
      rw [List.append_assoc, List.append_assoc]
      apply List.Perm.append_left
      exact List.perm_middle
    · apply h.batch other
      rw [hb]
      exact List.mem_cons_of_mem _ ho
    · rcases List.mem_cons.1 ho with rfl | ho
      · have hmark := h.batch other (by simp [hb]) mark hm
        rw [hbuf, List.append_nil] at hmark
        dsimp only
        rw [hsynced, List.take_length]
        exact hmark
      · exact h.answers other ho mark hm
    · dsimp only at he
      rw [hl] at he
      rcases he with he | he
      · cases he
      · cases he

theorem Inv.step (h : Inv s) (e : SinkEvent) (hs : s.step opts e = some s') : Inv s' := by
  cases e with
  | write formattedLine =>
    obtain ⟨hl, ⟨⟩⟩ := Option.ite_none_left_eq_some.1 hs
    exact h.write hl formattedLine
  | flush =>
    obtain ⟨hl, ⟨⟩⟩ := Option.ite_none_left_eq_some.1 hs
    exact h.flush hl
  | wake =>
    obtain ⟨hl, rfl⟩ := Option.ite_some_none_eq_some.1 hs
    exact h.wake hl
  | takeDrops =>
    obtain ⟨hl, rfl⟩ := Option.ite_some_none_eq_some.1 hs
    exact h.takeDrops hl
  | appendReport =>
    rw [AsyncFileSink.step] at hs
    split at hs
    · next hl =>
      cases hs
      exact h.appendReport hl
    · cases hs
  | appendLines =>
    obtain ⟨hl, rfl⟩ := Option.ite_some_none_eq_some.1 hs
    exact h.appendLines hl
  | flushFile =>
    obtain ⟨hl, rfl⟩ := Option.ite_some_none_eq_some.1 hs
    exact h.flushFile hl
  | answer =>
    obtain ⟨hl, rfl⟩ := Option.ite_some_none_eq_some.1 hs
    exact h.answer hl
  | destroy =>
    obtain ⟨-, ⟨⟩⟩ := Option.ite_none_left_eq_some.1 hs
    exact { h with }

theorem Inv.run (events : List SinkEvent) (s : AsyncFileSink) (h : Inv s) (hr : s.run opts events = some s') : Inv s' := by
  induction events generalizing s with
  | nil =>
    cases hr
    exact h
  | cons e events ih =>
    obtain ⟨s₁, hs, hr⟩ := Option.bind_eq_some_iff.1 hr
    exact ih s₁ (h.step e hs) hr

/-- Whether the event is the thread's own. -/
def ofLoop : SinkEvent → Prop
  | .write _ | .flush | .destroy => False
  | _ => True

/-- The thread goes on while nobody calls. -/
def LoopRun (opts : SinkOptions) : AsyncFileSink → AsyncFileSink → Prop :=
  Relation.ReflTransGen fun s s' => ∃ e, ofLoop e ∧ s.step opts e = some s'

theorem LoopRun.first (e : SinkEvent) (ho : ofLoop e) (hs : s.step opts e = some s') (hr : LoopRun opts s' s'') :
    LoopRun opts s s'' :=
  Relation.ReflTransGen.head ⟨e, ho, hs⟩ hr

/-- The loop comes back for the next batch, having only written what it had taken. -/
structure ComesBack (opts : SinkOptions) (s s' : AsyncFileSink) : Prop where
  run : LoopRun opts s s'
  back : s'.loop = .waiting
  curBuf : s'.curBuf = s.curBuf
  flushRequests : s'.flushRequests = s.flushRequests
  stopRequested : s'.stopRequested = s.stopRequested
  asked : s'.asked = s.asked

theorem ComesBack.first (e : SinkEvent) (ho : ofLoop e) (hs : s.step opts e = some s₁) (h : ComesBack opts s₁ s')
    (hcur : s₁.curBuf = s.curBuf) (hrequests : s₁.flushRequests = s.flushRequests)
    (hstop : s₁.stopRequested = s.stopRequested) (hasked : s₁.asked = s.asked) : ComesBack opts s s' where
  run := h.run.first e ho hs
  back := h.back
  curBuf := h.curBuf.trans hcur
  flushRequests := h.flushRequests.trans hrequests
  stopRequested := h.stopRequested.trans hstop
  asked := h.asked.trans hasked

theorem comesBack_answering (opts : SinkOptions) (requests : List Nat) (s : AsyncFileSink) (hb : s.batchRequests = requests)
    (hl : s.loop = .answering) : ∃ s', ComesBack opts s s' := by
  induction requests generalizing s with
  | nil =>
    have hs : s.step opts .answer = some { s with loop := .waiting } := by
      rw [AsyncFileSink.step, if_pos hl, answer_nil hb]
    have hwaiting : ComesBack opts { s with loop := .waiting } { s with loop := .waiting } :=
      ⟨.refl, rfl, rfl, rfl, rfl, rfl⟩
    exact ⟨_, hwaiting.first .answer trivial hs rfl rfl rfl rfl⟩
  | cons request rest ih =>
    have hs : s.step opts .answer = some { s with batchRequests := rest, answered := request :: s.answered } := by
      rw [AsyncFileSink.step, if_pos hl, answer_cons hb]
    obtain ⟨s', h⟩ := ih { s with batchRequests := rest, answered := request :: s.answered } rfl hl
    exact ⟨s', h.first .answer trivial hs rfl rfl rfl rfl⟩

theorem comesBack_flushing (opts : SinkOptions) (s : AsyncFileSink) (hl : s.loop = .flushing) : ∃ s', ComesBack opts s s' := by
  obtain ⟨s', h⟩ :=
    comesBack_answering opts s.batchRequests { s with flushed := s.file.length, loop := .answering } rfl rfl
  exact ⟨s', h.first .flushFile trivial (if_pos hl) rfl rfl rfl rfl⟩

theorem comesBack_appending (opts : SinkOptions) (s : AsyncFileSink) (hl : s.loop = .appending) : ∃ s', ComesBack opts s s' := by
  obtain ⟨s', h⟩ := comesBack_flushing opts
    { s with file := s.file ++ [.lines s.flushBuf], flushBuf := [], loop := .flushing } rfl
  exact ⟨s', h.first .appendLines trivial (if_pos hl) rfl rfl rfl rfl⟩

theorem comesBack_reporting (opts : SinkOptions) {n : Nat} (s : AsyncFileSink) (hl : s.loop = .reporting n) : ∃ s', ComesBack opts s s' := by
  obtain ⟨s', h⟩ := comesBack_appending opts
    { s with file := s.file ++ [.report n], loop := .appending } rfl
  have hs : s.step opts .appendReport = some { s with file := s.file ++ [.report n], loop := .appending } := by
    rw [AsyncFileSink.step, hl]
  exact ⟨s', h.first .appendReport trivial hs rfl rfl rfl rfl⟩

theorem comesBack_swapped (opts : SinkOptions) (s : AsyncFileSink) (hl : s.loop = .swapped) : ∃ s', ComesBack opts s s' := by
  have hs : s.step opts .takeDrops = some s.takeDrops := if_pos hl
  have hnext : ∃ s', ComesBack opts s.takeDrops s' := by
    by_cases hd : 0 < s.dropped
    · apply comesBack_reporting opts _ (n := s.dropped)
      exact if_pos hd
    · apply comesBack_appending
      exact if_neg hd
  obtain ⟨s', h⟩ := hnext
  exact ⟨s', h.first .takeDrops trivial hs rfl rfl rfl rfl⟩

theorem comesBack (opts : SinkOptions) (s : AsyncFileSink) (hl : s.loop ≠ .ended) : ∃ s', ComesBack opts s s' := by
  cases h : s.loop with
  | waiting => exact ⟨s, .refl, h, rfl, rfl, rfl, rfl⟩
  | swapped => exact comesBack_swapped opts s h
  | reporting n => exact comesBack_reporting opts s h
  | appending => exact comesBack_appending opts s h
  | flushing => exact comesBack_flushing opts s h
  | answering => exact comesBack_answering opts _ s rfl h
  | ended => exact absurd h hl

theorem Inv.loopRun (h : Inv s) (hr : LoopRun opts s s') : Inv s' := by
  induction hr with
  | refl => exact h
  | tail _ hs ih =>
    obtain ⟨e, -, hs⟩ := hs
    exact ih.step e hs

/-- Nothing is left to write or to answer, and no call came. -/
structure CaughtUp (opts : SinkOptions) (s s' : AsyncFileSink) : Prop where
  run : LoopRun opts s s'
  back : s'.loop = .waiting
  curBuf : s'.curBuf = []
  flushRequests : s'.flushRequests = []
  stopRequested : s'.stopRequested = s.stopRequested
  asked : s'.asked = s.asked

theorem Inv.caughtUp_waiting (opts : SinkOptions) (h : Inv s) (hl : s.loop = .waiting) : ∃ s', CaughtUp opts s s' := by
  by_cases hwork : s.curBuf = [] ∧ s.flushRequests = []
  · exact ⟨s, .refl, hl, hwork.1, hwork.2, rfl, rfl⟩
  · obtain ⟨hbuf, hbatch⟩ := h.idle (.inl hl)
    have hwake : s.wake = { s with
        curBuf := s.flushBuf, flushBuf := s.curBuf, batchRequests := s.flushRequests
        flushRequests := s.batchRequests, loop := if s.curBuf = [] then .flushing else .swapped } := by
      rw [AsyncFileSink.wake, if_neg fun hempty => hwork hempty.2, if_neg hwork]
    have hs : s.step opts .wake = some s.wake := if_pos hl
    have hlive : s.wake.loop ≠ .ended := by
      rw [hwake]
      dsimp only
      split
      · nofun
      · nofun
    obtain ⟨s', hback⟩ := comesBack opts s.wake hlive
    have hasked : s.wake.asked = s.asked := by rw [hwake]
    have hstop : s.wake.stopRequested = s.stopRequested := by rw [hwake]
    have hcur : s.wake.curBuf = s.flushBuf := by rw [hwake]
    have hrequests : s.wake.flushRequests = s.batchRequests := by rw [hwake]
    exact ⟨s', hback.run.first .wake trivial hs, hback.back, (hback.curBuf.trans hcur).trans hbuf,
      (hback.flushRequests.trans hrequests).trans hbatch, hback.stopRequested.trans hstop, hback.asked.trans hasked⟩

theorem Inv.caughtUp (opts : SinkOptions) (h : Inv s) (hl : s.loop ≠ .ended) : ∃ s', CaughtUp opts s s' := by
  obtain ⟨s₁, hback⟩ := comesBack opts s hl
  obtain ⟨s', hup⟩ := (h.loopRun hback.run).caughtUp_waiting opts hback.back
  exact ⟨s', hback.run.trans hup.run, hup.back, hup.curBuf, hup.flushRequests,
    hup.stopRequested.trans hback.stopRequested, hup.asked.trans hback.asked⟩

theorem Inv.allAnswered (h : Inv s) (hl : s.loop = .waiting ∨ s.loop = .ended) (hr : s.flushRequests = []) :
    s.answered.Perm (List.range s.asked.length) := by
  have hrequests := h.requests
  rw [pending, hr, (h.idle hl).2] at hrequests
  exact hrequests

theorem Inv.answerable (h : Inv s) (hl : s.loop ≠ .ended) :
    ∃ s', LoopRun opts s s' ∧ s'.answered.Perm (List.range s.asked.length) := by
  obtain ⟨s', hup⟩ := h.caughtUp opts hl
  have hall := (h.loopRun hup.run).allAnswered (.inl hup.back) hup.flushRequests
  rw [hup.asked] at hall
  exact ⟨s', hup.run, hall⟩

theorem Inv.stops (h : Inv s) (hstop : s.stopRequested) : ∃ s', LoopRun opts s s' ∧ s'.loop = .ended := by
  by_cases hl : s.loop = .ended
  · exact ⟨s, .refl, hl⟩
  · obtain ⟨s', hup⟩ := h.caughtUp opts hl
    have hempty : s'.stopRequested ∧ s'.curBuf = [] ∧ s'.flushRequests = [] :=
      ⟨hup.stopRequested.trans hstop, hup.curBuf, hup.flushRequests⟩
    have hs : s'.step opts .wake = some { s' with loop := .ended } := by
      rw [AsyncFileSink.step, if_pos hup.back, AsyncFileSink.wake, if_pos hempty]
    exact ⟨_, hup.run.tail ⟨.wake, trivial, hs⟩, rfl⟩

/-- What the sink promises its callers. -/
structure Contract (opts : SinkOptions) (s : AsyncFileSink) : Prop where
  /-- The file has the accepted lines in order, each once, and the two buffers have the rest. -/
  lines : text s.file ++ s.flushBuf ++ s.curBuf = s.accepted.flatten
  counts : s.passed = s.accepted.length + s.reported + s.taken + s.dropped
  /-- A flush that returned had every byte accepted before it in the flushed part of the file. -/
  flushes : ∀ request ∈ s.answered, ∀ mark, s.asked[request]? = some mark →
    s.accepted.flatten.take mark <+: text (s.file.take s.flushed)
  /-- No request is lost, and none is answered twice. -/
  requests : (s.pending ++ s.answered).Perm (List.range s.asked.length)
  answerable : s.loop ≠ .ended → ∃ s', LoopRun opts s s' ∧ s'.answered.Perm (List.range s.asked.length)
  stops : s.stopRequested → ∃ s', LoopRun opts s s' ∧ s'.loop = .ended
  destroyed : s.loop = .ended → text s.file = s.accepted.flatten ∧ s.answered.Perm (List.range s.asked.length)

theorem Inv.text_prefix (h : Inv s) : text (s.file.take s.flushed) <+: s.accepted.flatten := by
  have hsplit : text s.file = text (s.file.take s.flushed) ++ text (s.file.drop s.flushed) := by
    rw [text, text, text, ← List.flatMap_append, List.take_append_drop]
  rw [← h.lines, hsplit, List.append_assoc, List.append_assoc]
  exact List.prefix_append _ _

theorem Inv.contract (h : Inv s) : Contract opts s where
  lines := h.lines
  counts := h.counts
  flushes request hr mark hm := by
    apply List.prefix_of_prefix_length_le (List.take_prefix _ _) h.text_prefix
    exact Nat.le_trans (List.length_take_le _ _) (h.answers request hr mark hm)
  requests := h.requests
  answerable hl := h.answerable hl
  stops hstop := h.stops hstop
  destroyed hl := by
    have hlines := h.lines
    rw [(h.idle (.inr hl)).1, (h.drained hl).1, List.append_nil, List.append_nil] at hlines
    exact ⟨hlines, h.allAnswered (.inr hl) (h.drained hl).2⟩

/-- In every interleaving, the sink keeps its promises; the drops the loop took over for a report
count too until the report is written. -/
theorem run_contract (opts : SinkOptions) (events : List SinkEvent) (s : AsyncFileSink)
    (hr : AsyncFileSink.run opts {} events = some s) : s.Contract opts :=
  (inv_start.run events _ hr).contract

def destruction : List SinkEvent :=
  [.write [1, 2], .write [3], .flush, .wake, .write [4], .takeDrops, .appendReport, .destroy, .appendLines, .flushFile,
    .answer, .answer, .wake, .takeDrops, .appendLines, .flushFile, .answer, .wake]

theorem run_contract_destruction :
    ∃ s, AsyncFileSink.run ⟨1⟩ {} destruction = some s ∧ s.loop = .ended ∧ s.answered = [0] ∧
      s.file.map Appended.text = [[], [1, 2], [4]] ∧ s.Contract ⟨1⟩ :=
  ⟨_, rfl, rfl, rfl, rfl, run_contract ⟨1⟩ destruction _ rfl⟩

/-- Between the exchange and the report, the dropped line is in neither count. -/
theorem taken_uncounted :
    ¬ ∀ (opts : SinkOptions) (events : List SinkEvent) (s : AsyncFileSink), AsyncFileSink.run opts {} events = some s →
      s.passed = s.accepted.length + s.reported + s.dropped := by
  intro h
  have htwo : 2 = 1 + 0 + 0 := h ⟨1⟩ [.write [1, 2], .write [3], .wake, .takeDrops] _ rfl
  cases htwo

end AsyncFileSink

end Hical.Log
