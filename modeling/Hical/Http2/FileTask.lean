import Hical.Http2.Foreign
import Hical.Lib.Runs
import Hical.Session.FileBody

namespace Hical.Http2

/-- Where `runOwned` is: not called, in `reserveRead`, in a read, in the close on a file thread, or at its end. -/
inductive TaskState where
  | created
  | reserving (remaining offset : Nat)
  | reading (remaining offset : Nat) (permit : ReadPermit)
  | closing
  | returned
  deriving DecidableEq

/-- What does not change in a file task. -/
structure FilePlan where
  streamId : Int
  job : FileJob
  prefetch : Nat

/-- `Http2FileBody::Impl` with the connection that it sends on. The last two fields are only observed: the bytes that
the producer took, and whether it took the end. -/
structure FileTask extends FilePlan where
  connection : Http2Connection
  state : TaskState := .created
  error : Option NetworkError := none
  cancelRequested : Bool := false
  complete : Bool := false
  /-- Whether there is a handle, and whether it is a stream that is still good. -/
  opened : Bool := false
  good : Bool := true
  sent : Bytes := []
  finished : Bool := false

/-- What comes to a file task. -/
inductive FileEvent where
  /-- Anything else that happens on its connection. -/
  | other (step : PumpStep)
  | cancel
  /-- The handlers of the two timers. -/
  | signal
  | deadline
  /-- `run`; `late` says here and below that the deadline is past, and `ended` is what nghttp2 says to the end. -/
  | run (late : Bool) (ended : Option NetworkError)
  /-- `reserveRead` goes on behind its wait. -/
  | reserve (late : Bool)
  /-- The read is over, with an error of the system or not. -/
  | read (failed late : Bool) (appended ended : Option NetworkError)
  | throws (badAlloc : Bool)
  /-- The close on the file thread is over. -/
  | closed (failed : Bool)

/-- It does not finish the stream, or open it anew, in the place of the task. -/
def FileEvent.Spares (id : Int) : FileEvent → Prop
  | .other e => e.Spares id
  | _ => True

/-- `fileError`. -/
def taskError (code : ErrorCode) (streamId : Int) : NetworkError :=
  { code, http2 := some { code := .hInternalError, streamId } }

namespace FileTask

def source (t : FileTask) : Option DataProducer := t.connection.source t.streamId

def stop (t : FileTask) (code : ErrorCode) : FileTask :=
  if t.complete ∨ t.error.isSome then t
  else { t with error := some (taskError code t.streamId), connection := t.connection.cancel t.streamId }

/-- The permit is given back, if it was not used. -/
def release (t : FileTask) (permit : ReadPermit) : FileTask :=
  { t with connection := t.connection.release (t.connection.permits.idxOf permit) }

/-- The end of `runOwned`. -/
def report (t : FileTask) : FileTask :=
  match t.error with
  | none => { t with state := .returned }
  | some error =>
    { t with
      state := .returned
      connection := t.connection.cancel t.streamId
      error := some { error with
        http2 := some { error.http2.getD { code := .hInternalError } with streamId := t.streamId } } }

section Produce
variable (f : FileSource) (access : FileAccess)

/-- What `runOwned` does behind `produce`. -/
def conclude (t : FileTask) (error : Option NetworkError) : FileTask :=
  let t := { t with error := error, complete := true }
  match access with
  | .asioFile => t.report
  | .ifstream => if t.opened then { t with state := .closing } else t.report

def beginRead (t : FileTask) (remaining offset : Nat) (permit : ReadPermit) : FileTask :=
  if access = .asioFile ∧ t.opened = false ∧ f.opens = false then
    (t.release permit).conclude access (some (taskError .hHttp2StreamError 0))
  else { t with opened := true, state := .reading remaining offset permit }

/-- A turn of the loop of `reserveOwned`. -/
def reserve (t : FileTask) (remaining offset : Nat) (late : Bool) : FileTask :=
  let maximum := min t.prefetch remaining
  let c := t.connection
  match c.canProduce t.streamId with
  | some error => t.conclude access (t.error <|> some error)
  | none =>
    if late then
      t.conclude access (t.error <|> some ⟨.hTimedOut, "HTTP/2 文件等待超过响应绝对截止点", none⟩)
    else
      let t := { t with connection := c.reserve t.streamId maximum late }
      if c.mayRead t.streamId then
        t.beginRead f access remaining offset ⟨t.streamId, min (min maximum c.available)
          (min c.library.connectionWindow (c.library.streamWindow t.streamId)).toNat⟩
      else { t with state := .reserving remaining offset }

def produce (t : FileTask) (remaining offset : Nat) (late : Bool) (ended : Option NetworkError) : FileTask :=
  if remaining = 0 then
    let (c, answer) := t.connection.finish t.streamId (t.job.trailers.getD []) ended
    { t with connection := c, finished := answer.isNone }.conclude access answer
  else
    let maximum := min t.prefetch remaining
    if maximum = 0 ∨ t.connection.options.maxFilePrefetchBytes.toNat < maximum then
      t.conclude access (some ⟨.hInvalidConfiguration, "HTTP/2 文件预取数量无效", none⟩)
    else t.reserve f access remaining offset late

/-- The producer calls a handler that it is given behind its end at once. -/
def start (t : FileTask) (late : Bool) (ended : Option NetworkError) : FileTask :=
  let cancelled := t.cancelRequested || t.source.all (·.cancelled)
  let t := if cancelled then t.stop .hOperationAborted else if late then t.stop .hTimedOut else t
  match t.error with
  | some error => t.conclude access (some error)
  | none => t.produce f access t.job.file.length.toNat t.job.file.offset.toNat late ended

/-- What the read gives; nothing behind the end, and nothing from a stream that has failed. -/
def gets (t : FileTask) (offset : Nat) (permit : ReadPermit) (failed : Bool) : Bytes :=
  if failed ∨ (access = .ifstream ∧ (f.opens = false ∨ t.good = false)) then [] else f.read offset permit.size

/-- `produce` behind a read. -/
def take (t : FileTask) (remaining offset : Nat) (permit : ReadPermit) (failed late : Bool)
    (appended ended : Option NetworkError) : FileTask :=
  let got := t.gets f access offset permit failed
  match t.error with
  | some error => (t.release permit).conclude access (some error)
  | none =>
    if got = [] then (t.release permit).conclude access (some (taskError .hHttp2StreamError 0))
    else
      let (c, answer) := t.connection.appendReserved t.streamId got (t.connection.permits.idxOf permit) appended
      let t := { t with connection := c, good := decide (got.length = permit.size) }
      match answer with
      | some error => t.conclude access (some error)
      | none =>
        { t with sent := t.sent ++ got }.produce f access (remaining - got.length) (offset + got.length) late ended

/-- The waiting call leaves the list of the readers. -/
def resume (t : FileTask) (remaining : Nat) : FileTask :=
  { t with connection := { t.connection with
      readers := t.connection.readers.eraseP fun r => r.streamId = t.streamId ∧ r.maximum = min t.prefetch remaining } }

def step (t : FileTask) : FileEvent → FileTask
  | .other e => { t with connection := t.connection.step e }
  | .cancel => { t with cancelRequested := true }
  | .signal => if t.state = .created then t else t.stop .hOperationAborted
  | .deadline => if t.state = .created then t else t.stop .hTimedOut
  | .run late ended => if t.state = .created then t.start f access late ended else t
  | .reserve late =>
    match t.state with
    | .reserving remaining offset => (t.resume remaining).reserve f access remaining offset late
    | _ => t
  | .read failed late appended ended =>
    match t.state with
    | .reading remaining offset permit => t.take f access remaining offset permit failed late appended ended
    | _ => t
  | .throws badAlloc =>
    let error := taskError (if badAlloc then .hResourceLimitExceeded else .hHttp2StreamError) 0
    match t.state with
    | .created => t.conclude access (some error)
    | .reserving _ _ => t.conclude access (some error)
    | .reading _ _ permit => (t.release permit).conclude access (some error)
    | _ => t
  | .closed failed =>
    match t.state with
    | .closing =>
      let error := t.error <|> if failed then some (taskError .hHttp2StreamError 0) else none
      { t with error := error }.report
    | _ => t

end Produce

section Plan
variable {f : FileSource} {access : FileAccess} (t : FileTask)

theorem plan_stop (code : ErrorCode) : (t.stop code).toFilePlan = t.toFilePlan := by
  rw [stop]
  split
  · rfl
  · rfl

theorem plan_report : t.report.toFilePlan = t.toFilePlan := by
  rw [report]
  split
  · rfl
  · rfl

theorem plan_conclude (error : Option NetworkError) : (t.conclude access error).toFilePlan = t.toFilePlan := by
  unfold conclude
  dsimp only
  split
  · exact plan_report _
  · split
    · rfl
    · exact plan_report _

theorem plan_reserve (remaining offset : Nat) (late : Bool) :
    (t.reserve f access remaining offset late).toFilePlan = t.toFilePlan := by
  rw [reserve]
  dsimp only
  split
  · exact plan_conclude t _
  · split
    · exact plan_conclude t _
    · split
      · rw [beginRead]
        split
        · exact plan_conclude _ _
        · rfl
      · rfl

theorem plan_produce (remaining offset : Nat) (late : Bool) (ended : Option NetworkError) :
    (t.produce f access remaining offset late ended).toFilePlan = t.toFilePlan := by
  rw [produce]
  split
  · exact plan_conclude _ _
  · dsimp only
    split
    · exact plan_conclude t _
    · exact plan_reserve t remaining offset late

theorem plan_start (late : Bool) (ended : Option NetworkError) :
    (t.start f access late ended).toFilePlan = t.toFilePlan := by
  have hrun (u : FileTask) (hu : u.toFilePlan = t.toFilePlan) :
      (match u.error with
        | some error => u.conclude access (some error)
        | none => u.produce f access u.job.file.length.toNat u.job.file.offset.toNat late ended).toFilePlan =
        t.toFilePlan := by
    split
    · exact (plan_conclude u _).trans hu
    · exact (plan_produce u _ _ late ended).trans hu
  rw [start]
  apply hrun
  split
  · exact plan_stop t _
  · split
    · exact plan_stop t _
    · rfl

theorem plan_take (remaining offset : Nat) (permit : ReadPermit) (failed late : Bool)
    (appended ended : Option NetworkError) :
    (t.take f access remaining offset permit failed late appended ended).toFilePlan = t.toFilePlan := by
  rw [take]
  dsimp only
  split
  · exact plan_conclude _ _
  · split
    · exact plan_conclude _ _
    · split
      · exact plan_conclude _ _
      · exact plan_produce _ _ _ late ended

theorem plan_step (e : FileEvent) : (t.step f access e).toFilePlan = t.toFilePlan := by
  have hstop (code : ErrorCode) : (if t.state = .created then t else t.stop code).toFilePlan = t.toFilePlan := by
    split
    · rfl
    · exact plan_stop t code
  cases e with
  | other e => rfl
  | cancel => rfl
  | signal => exact hstop _
  | deadline => exact hstop _
  | run late ended =>
    rw [step]
    split
    · exact plan_start t late ended
    · rfl
  | reserve late =>
    rw [step]
    split
    · exact plan_reserve _ _ _ late
    · rfl
  | read failed late appended ended =>
    rw [step]
    split
    · exact plan_take t _ _ _ failed late appended ended
    · rfl
  | throws badAlloc =>
    rw [step]
    split
    · exact plan_conclude t _
    · exact plan_conclude t _
    · exact plan_conclude _ _
    · rfl
  | closed failed =>
    rw [step]
    split
    · exact plan_report _
    · rfl

end Plan

/-- What holds between two reads: the bytes so far are those from the start of the range up to `offset`. -/
structure Going (f : FileSource) (t : FileTask) (remaining offset : Nat) : Prop where
  sent : f.Consecutive t.job.file.offset.toNat t.sent
  place : offset = t.job.file.offset.toNat + t.sent.length
  left : t.sent.length + remaining = t.job.file.length.toNat
  finished : t.finished = false
  unended : ∀ p, t.source = some p → p.finished = false

/-- What holds behind `produce`: the stream was finished behind the whole range, or there is an error. -/
structure Over (f : FileSource) (t : FileTask) : Prop where
  complete : t.complete = true
  sent : f.Consecutive t.job.file.offset.toNat t.sent
  length : t.sent.length ≤ t.job.file.length.toNat
  ended : t.error = none → t.finished = true
  whole : t.finished = true → t.sent.length = t.job.file.length.toNat
  aborted : t.error ≠ none → t.finished = false
  unended : t.finished = false → ∀ p, t.source = some p → p.finished = false

def Cut (t : FileTask) : Prop := ∀ p, t.source = some p → p.cancelled = true

def Stands (f : FileSource) (t : FileTask) : TaskState → Prop
  | .created => t.Going f t.job.file.length.toNat t.job.file.offset.toNat
  | .reserving remaining offset => t.Going f remaining offset
  | .reading remaining offset permit => t.Going f remaining offset ∧ permit.size ≤ remaining
  | .closing => t.Over f
  | .returned => t.Over f ∧ (t.error ≠ none → t.Cut)

def Inv (f : FileSource) (t : FileTask) : Prop := t.Stands f t.state

section Steps
variable {f : FileSource} {access : FileAccess} {t : FileTask}
open Http2Connection

theorem Going.leaves (h : t.Going f remaining offset) (hc : Leaves t.streamId t.connection c) :
    Going f { t with connection := c } remaining offset := by
  refine { h with unended := ?_ }
  intro p' hp'
  obtain ⟨p, hp, ht⟩ := hc p' hp'
  rw [ht.finished]
  exact h.unended p hp

theorem Over.leaves (h : t.Over f) (hc : Leaves t.streamId t.connection c) : Over f { t with connection := c } := by
  refine { h with unended := ?_ }
  intro hfinished p' hp'
  obtain ⟨p, hp, ht⟩ := hc p' hp'
  rw [ht.finished]
  exact h.unended hfinished p hp

theorem Cut.leaves (h : t.Cut) (hc : Leaves t.streamId t.connection c) : Cut { t with connection := c } := by
  intro p' hp'
  obtain ⟨p, hp, ht⟩ := hc p' hp'
  exact ht.cancelled (h p hp)

theorem Stands.leaves {s : TaskState} (h : t.Stands f s) (hc : Leaves t.streamId t.connection c) :
    Stands f { t with connection := c } s := by
  cases s with
  | created => exact Going.leaves h hc
  | reserving remaining offset => exact Going.leaves h hc
  | reading remaining offset permit => exact ⟨h.1.leaves hc, h.2⟩
  | closing => exact Over.leaves h hc
  | returned => exact ⟨h.1.leaves hc, fun he => (h.2 he).leaves hc⟩

theorem Going.release (h : t.Going f remaining offset) (permit : ReadPermit) :
    (t.release permit).Going f remaining offset :=
  h.leaves (.of_source (source_release ..))

theorem inv_report (h : t.Over f) : t.report.Inv f := by
  rw [report]
  cases herror : t.error with
  | none => exact ⟨{ h with ended := fun _ => h.ended herror, aborted := nofun }, nofun⟩
  | some error =>
    have hleaves : Leaves t.streamId t.connection (t.connection.cancel t.streamId) :=
      leaves_stop t.connection t.streamId true
    have hleft := h.leaves hleaves
    refine ⟨{ hleft with ended := nofun, aborted := fun _ => h.aborted (by rw [herror]; nofun) }, fun _ p hp => ?_⟩
    exact source_stop t.connection t.streamId true hp

theorem inv_conclude {error : Option NetworkError} (hsent : f.Consecutive t.job.file.offset.toNat t.sent)
    (hlength : t.sent.length ≤ t.job.file.length.toNat) (hended : error = none → t.finished = true)
    (hwhole : t.finished = true → t.sent.length = t.job.file.length.toNat)
    (haborted : error ≠ none → t.finished = false)
    (hunended : t.finished = false → ∀ p, t.source = some p → p.finished = false) :
    (t.conclude access error).Inv f := by
  have hover : Over f { t with error := error, complete := true } :=
    ⟨rfl, hsent, hlength, hended, hwhole, haborted, hunended⟩
  cases access with
  | asioFile => exact inv_report hover
  | ifstream =>
    unfold conclude
    dsimp only
    split
    · exact { hover with }
    · exact inv_report hover

theorem Going.fail (h : t.Going f remaining offset) (error : NetworkError) : (t.conclude access (some error)).Inv f := by
  refine inv_conclude h.sent ?_ ?_ ?_ (fun _ => h.finished) fun _ => h.unended
  · have := h.left
    omega
  · exact fun hnone => by cases hnone
  · rw [h.finished]
    exact fun hf => absurd hf Bool.false_ne_true

theorem inv_beginRead (h : t.Going f remaining offset) (permit : ReadPermit) (hsize : permit.size ≤ remaining) :
    (t.beginRead f access remaining offset permit).Inv f := by
  rw [beginRead]
  split
  · exact (h.release permit).fail _
  · exact ⟨{ h with }, hsize⟩

theorem inv_reserve (h : t.Going f remaining offset) (late : Bool) : (t.reserve f access remaining offset late).Inv f := by
  have hor (error : NetworkError) : ∃ e, (t.error <|> some error) = some e := by
    cases t.error with
    | none => exact ⟨error, rfl⟩
    | some e => exact ⟨e, rfl⟩
  rw [reserve]
  dsimp only
  split
  · next error _ =>
    obtain ⟨e, he⟩ := hor error
    rw [he]
    exact h.fail e
  · split
    · obtain ⟨e, he⟩ := hor ⟨.hTimedOut, "HTTP/2 文件等待超过响应绝对截止点", none⟩
      rw [he]
      exact h.fail e
    · have hreserved := h.leaves (.of_source (source_reserve t.connection t.streamId (min t.prefetch remaining) late))
      split
      · apply inv_beginRead hreserved
        exact Nat.le_trans (Nat.min_le_left ..) (Nat.le_trans (Nat.min_le_left ..) (Nat.min_le_right ..))
      · exact { hreserved with }

theorem inv_produce (h : t.Going f remaining offset) (late : Bool) (ended : Option NetworkError) :
    (t.produce f access remaining offset late ended).Inv f := by
  rw [produce]
  split
  · next hzero =>
    have hwhole : t.sent.length = t.job.file.length.toNat := by
      rw [← h.left, hzero, Nat.add_zero]
    dsimp only
    cases hanswer : (t.connection.finish t.streamId (t.job.trailers.getD []) ended).2 with
    | none => exact inv_conclude h.sent (Nat.le_of_eq hwhole) (fun _ => rfl) (fun _ => hwhole) (by nofun) (by nofun)
    | some error =>
      rw [finish_refused hanswer]
      exact Going.fail (t := { t with finished := false }) { h with finished := rfl } error
  · dsimp only
    split
    · exact h.fail _
    · exact inv_reserve h late

theorem gets_prefix (t : FileTask) (f : FileSource) (access : FileAccess) (offset : Nat) (permit : ReadPermit)
    (failed : Bool) :
    t.gets f access offset permit failed <+: (f.holds offset).drop offset ∧
      (t.gets f access offset permit failed).length ≤ permit.size := by
  rw [gets]
  split
  · exact ⟨List.nil_prefix, Nat.zero_le _⟩
  · exact ⟨f.read_prefix .., f.length_read_le ..⟩

theorem inv_take (h : t.Going f remaining offset) {permit : ReadPermit} (hsize : permit.size ≤ remaining)
    (failed late : Bool) (appended ended : Option NetworkError) :
    (t.take f access remaining offset permit failed late appended ended).Inv f := by
  obtain ⟨hgot, hlength⟩ := gets_prefix t f access offset permit failed
  rw [take]
  generalize t.gets f access offset permit failed = got at hgot hlength
  dsimp only
  split
  · exact (h.release permit).fail _
  · split
    · exact (h.release permit).fail _
    · have hleft := h.leaves (leaves_appendReserved t.connection t.streamId got
        (t.connection.permits.idxOf permit) appended)
      split
      · apply Going.fail
        show Going f _ remaining offset
        exact { hleft with }
      · apply inv_produce
        refine { hleft with sent := ?_, place := ?_, left := ?_ }
        · apply h.sent.append
          rw [← h.place]
          exact hgot
        · dsimp only
          rw [List.length_append, h.place, Nat.add_assoc]
        · have := h.left
          dsimp only
          rw [List.length_append]
          omega

theorem Going.stop (h : t.Going f remaining offset) (code : ErrorCode) : (t.stop code).Going f remaining offset := by
  rw [FileTask.stop]
  split
  · exact h
  · exact { h.leaves (leaves_stop t.connection t.streamId true) with }

theorem inv_start (h : t.Inv f) (hstate : t.state = .created) (late : Bool) (ended : Option NetworkError) :
    (t.start f access late ended).Inv f := by
  have hgoing : t.Going f t.job.file.length.toNat t.job.file.offset.toNat := by
    rw [Inv, hstate] at h
    exact h
  have hrun {u : FileTask} (hu : u.Going f u.job.file.length.toNat u.job.file.offset.toNat) :
      Inv f (match u.error with
        | some error => u.conclude access (some error)
        | none => u.produce f access u.job.file.length.toNat u.job.file.offset.toNat late ended) := by
    split
    · exact hu.fail _
    · exact inv_produce hu late ended
  have hjob (code : ErrorCode) : (t.stop code).job = t.job := by
    rw [stop]
    split
    · rfl
    · rfl
  rw [start]
  apply hrun
  split
  · rw [hjob]
    exact hgoing.stop _
  · split
    · rw [hjob]
      exact hgoing.stop _
    · exact hgoing

theorem Stands.stop {s : TaskState} (h : t.Stands f s) (hs : s ≠ .created) (code : ErrorCode) :
    (t.stop code).Stands f s := by
  cases s with
  | created => exact absurd rfl hs
  | reserving remaining offset => exact Going.stop h code
  | reading remaining offset permit => exact ⟨h.1.stop code, h.2⟩
  | closing =>
    rw [FileTask.stop, if_pos (.inl (Over.complete h))]
    exact h
  | returned =>
    rw [FileTask.stop, if_pos (.inl h.1.complete)]
    exact h

theorem stop_state (code : ErrorCode) : (t.stop code).state = t.state := by
  rw [stop]
  split
  · rfl
  · rfl

theorem Stands.cancel {s : TaskState} (h : t.Stands f s) : Stands f { t with cancelRequested := true } s := by
  cases s with
  | created | reserving remaining offset => exact { (show t.Going f _ _ from h) with }
  | reading remaining offset permit => exact ⟨{ h.1 with }, h.2⟩
  | closing => exact { (show t.Over f from h) with }
  | returned => exact ⟨{ h.1 with }, h.2⟩

/-- The close does not fail behind the end of the stream. -/
def Closes (t : FileTask) (e : FileEvent) : Prop := t.state = .closing → t.error = none → e ≠ .closed true

theorem inv_closed (h : t.Over f) {failed : Bool} (hcloses : t.error = none → failed = false) :
    Inv f { t with error := t.error <|> if failed then some (taskError .hHttp2StreamError 0) else none }.report := by
  apply inv_report
  cases herror : t.error with
  | none =>
    rw [hcloses herror]
    exact { h with ended := fun _ => h.ended herror, aborted := fun hne => absurd rfl hne }
  | some error => exact { h with ended := nofun, aborted := fun _ => h.aborted (by rw [herror]; nofun) }

theorem inv_step (h : t.Inv f) (e : FileEvent) (hspares : e.Spares t.streamId) (hcloses : t.Closes e) :
    (t.step f access e).Inv f := by
  have hstop (code : ErrorCode) : Inv f (if t.state = .created then t else t.stop code) := by
    split
    · exact h
    · next hs =>
      rw [Inv, stop_state]
      exact Stands.stop h hs code
  cases e with
  | other e => exact Stands.leaves h (leaves_step t.connection e hspares)
  | cancel => exact Stands.cancel h
  | signal => exact hstop _
  | deadline => exact hstop _
  | run late ended =>
    rw [step]
    split
    · next hs => exact inv_start h hs late ended
    · exact h
  | reserve late =>
    rw [step]
    split
    · next remaining offset hs =>
      rw [Inv, hs] at h
      have hresumed : (t.resume remaining).Going f remaining offset := Going.leaves h (.of_source rfl)
      exact inv_reserve hresumed late
    · exact h
  | read failed late appended ended =>
    rw [step]
    split
    · next remaining offset permit hs =>
      rw [Inv, hs] at h
      exact inv_take h.1 h.2 failed late appended ended
    · exact h
  | throws badAlloc =>
    rw [step]
    split
    · next hs =>
      rw [Inv, hs] at h
      exact Going.fail h _
    · next hs =>
      rw [Inv, hs] at h
      exact Going.fail h _
    · next hs =>
      rw [Inv, hs] at h
      exact (h.1.release _).fail _
    · exact h
  | closed failed =>
    rw [step]
    split
    · next hs =>
      rw [Inv, hs] at h
      apply inv_closed h
      intro hnone
      cases failed with
      | false => rfl
      | true => exact absurd rfl (hcloses hs hnone)
    · exact h

end Steps

/-- `Http2FileBody::create`, with the job that it is given. -/
def new (c : Http2Connection) (streamId : Int) (job : FileJob) : FileTask :=
  { connection := c, streamId, job, prefetch := c.options.maxFilePrefetchBytes.toNat }

/-- Consecutive bytes of the file, never more than declared, and the end only behind all of them. Where `run` is over,
that is what was sent, or there is an error, and the producer is cancelled and never finished. -/
structure Exact (f : FileSource) (file : FileRange) (t : FileTask) : Prop where
  sent : f.Consecutive file.offset.toNat t.sent
  length : t.sent.length ≤ file.length
  whole : t.finished = true → t.sent.length = file.length
  ended : t.state = .returned → t.error = none → t.finished = true
  aborted : t.state = .returned → t.error ≠ none →
    t.finished = false ∧ ∀ p, t.source = some p → p.cancelled = true ∧ p.finished = false

section Exact
variable {f : FileSource} {access : FileAccess} {t : FileTask}

theorem Inv.exact (h : t.Inv f) (hlength : 0 ≤ t.job.file.length) : t.Exact f t.job.file := by
  have hnat : (t.job.file.length.toNat : Int) = t.job.file.length := Int.toNat_of_nonneg hlength
  have hgoing {remaining offset : Nat} (h : t.Going f remaining offset) (hs : t.state ≠ .returned) :
      t.Exact f t.job.file := by
    refine ⟨h.sent, ?_, ?_, fun hr => absurd hr hs, fun hr => absurd hr hs⟩
    · have := h.left
      omega
    · rw [h.finished]
      exact fun hf => absurd hf Bool.false_ne_true
  have hover (h : t.Over f) (hcut : t.state = .returned → t.error ≠ none → t.Cut) : t.Exact f t.job.file := by
    refine ⟨h.sent, ?_, ?_, fun _ => h.ended, ?_⟩
    · have := h.length
      omega
    · intro hfinished
      rw [h.whole hfinished, hnat]
    · intro hs herror
      have hfinished := h.aborted herror
      exact ⟨hfinished, fun p hp => ⟨hcut hs herror p hp, h.unended hfinished p hp⟩⟩
  rw [Inv] at h
  cases hs : t.state with
  | created | reserving remaining offset =>
    rw [hs] at h
    exact hgoing h (by rw [hs]; exact TaskState.noConfusion)
  | reading remaining offset permit =>
    rw [hs] at h
    exact hgoing h.1 (by rw [hs]; exact TaskState.noConfusion)
  | closing =>
    rw [hs] at h
    exact hover h (by rw [hs]; exact TaskState.noConfusion)
  | returned =>
    rw [hs] at h
    exact hover h.1 fun _ => h.2

/-- Behind the end of the stream, a close that fails makes an error of it. -/
theorem Inv.closes (h : t.Inv f) (hexact : (t.step f access e).Exact f file) : t.Closes e := by
  rintro hs herror rfl
  rw [Inv, hs] at h
  have hfinished : t.finished = true := Over.ended h herror
  have hstep : t.step f access (.closed true) =
      { t with error := some (taskError .hHttp2StreamError 0) }.report := by
    rw [step, hs, herror]
    rfl
  rw [hstep] at hexact
  have hunfinished : t.finished = false := (hexact.aborted rfl nofun).1
  rw [hunfinished] at hfinished
  cases hfinished

/-- A run is exact in every state exactly when no close fails behind the end of the stream. -/
theorem exact_iff (h : t.Inv f) (hlength : 0 ≤ t.job.file.length) (events : List FileEvent)
    (hspares : ∀ e ∈ events, e.Spares t.streamId) :
    (∀ n, ((events.take n).foldl (FileTask.step f access) t).Exact f t.job.file) ↔
      Runs.Along (FileTask.step f access) Closes t events := by
  induction events generalizing t with
  | nil =>
    refine ⟨fun _ => trivial, fun _ n => ?_⟩
    rw [List.take_nil]
    exact h.exact hlength
  | cons e events ih =>
    have hplan : (t.step f access e).toFilePlan = t.toFilePlan := plan_step t e
    have hjob : (t.step f access e).job = t.job := congrArg FilePlan.job hplan
    have hid : (t.step f access e).streamId = t.streamId := congrArg FilePlan.streamId hplan
    have hrest (hcloses : t.Closes e) : (∀ n, ((events.take n).foldl (FileTask.step f access) (t.step f access e)).Exact f
        t.job.file) ↔ Runs.Along (FileTask.step f access) Closes (t.step f access e) events := by
      rw [← hjob]
      apply ih (inv_step h e (hspares e (List.mem_cons_self ..)) hcloses)
      · rw [hjob]
        exact hlength
      · rw [hid]
        exact fun e' he' => hspares e' (List.mem_cons_of_mem e he')
    constructor
    · intro hexact
      have hcloses : t.Closes e := h.closes (hexact 1)
      exact ⟨hcloses, (hrest hcloses).1 fun n => hexact (n + 1)⟩
    · rintro ⟨hcloses, hbehind⟩ n
      cases n with
      | zero => exact h.exact hlength
      | succ n => exact (hrest hcloses).2 hbehind n

theorem createFile_spec (h : createFile streamId file options trailers task = some job) :
    job.file = file ∧ 0 ≤ file.length := by
  unfold createFile at h
  split at h
  · cases h
  · next hrange =>
    push Not at hrange
    split at h
    · cases h
    · split at h
      · cases h
        exact ⟨rfl, hrange.2.2.1⟩
      · split at h
        · cases h
          exact ⟨rfl, hrange.2.2.1⟩
        · cases h

theorem inv_new {c : Http2Connection} (hfresh : ∀ p, c.source streamId = some p → p.finished = false)
    (job : FileJob) : (new c streamId job).Inv f :=
  show Going f _ _ _ from ⟨.nil, rfl, Nat.zero_add _, rfl, hfresh⟩

/-- A file response is exact or visibly aborted: over HTTP/1 on every connection, unless it reads a stream that
gives less than was declared, and over HTTP/2 in every state of a run, unless a stream's close fails at its end. -/
theorem file_bodies_exact_iff (f : FileSource) (access : FileAccess) :
    (∀ res fb keep, (∀ w c, FileExact f fb (fileHead w res keep c.turn) (filePhase w f access res fb keep) c) ↔
      access = .asioFile ∨ f.opens = false ∨ f.Whole fb.offset fb.length) ∧
    ∀ (c : Http2Connection) streamId file trailers task job,
      createFile streamId file c.options trailers task = some job →
      (∀ p, c.source streamId = some p → p.finished = false) →
      ∀ events, (∀ e ∈ events, e.Spares streamId) →
        ((∀ n, ((events.take n).foldl (FileTask.step f access) (new c streamId job)).Exact f file) ↔
          Runs.Along (FileTask.step f access) Closes (new c streamId job) events) := by
  refine ⟨fun res fb keep => filePhase_exact_iff f access res fb keep, ?_⟩
  intro c streamId file trailers task job hjob hfresh events hspares
  obtain ⟨rfl, hlength⟩ := createFile_spec hjob
  exact exact_iff (inv_new hfresh job) hlength events hspares

def pair : FileSource where
  opens := true
  holds _ := bytes "hi"
  gives _ := 4096

def serving : Http2Connection :=
  (Http2Connection.start .hServer {} Http2Options.validationError_default
    { connectionWindow := 100, streamWindow := fun _ => 100, activeLocalStreamCount := 0, peerMaxConcurrentStreams := 100
      sendable := 0, wantRead := true, wantWrite := true }).call (.submit 1 0)

/-- The stream is finished behind the read, and what is left is the close. -/
def pairRun (failed : Bool) : List FileEvent := [.run false none, .read false false none none, .closed failed]

theorem serving_fresh : ∀ p, serving.source 1 = some p → p.finished = false := by
  intro p hp
  cases hp
  rfl

theorem file_bodies_exact_iff_pair :
    FileExact pair ⟨[], 0, 2⟩ (fileHead calmWorld {} true 0) (filePhase calmWorld pair .ifstream {} ⟨[], 0, 2⟩ true)
        { inbox := [] } ∧
      ∀ n, (((pairRun false).take n).foldl (FileTask.step pair .ifstream) (new serving 1 ⟨⟨[], 0, 2⟩, none⟩)).Exact pair
        ⟨[], 0, 2⟩ := by
  obtain ⟨hhttp1, hhttp2⟩ := file_bodies_exact_iff pair .ifstream
  have hwhole : pair.Whole 0 2 := by
    rintro (_ | i) hi
    · decide
    · rw [kChunkSize] at hi
      omega
  constructor
  · exact (hhttp1 {} ⟨[], 0, 2⟩ true).2 (.inr (.inr hwhole)) calmWorld { inbox := [] }
  · apply (hhttp2 serving 1 ⟨[], 0, 2⟩ [] true ⟨⟨[], 0, 2⟩, none⟩ (by decide) serving_fresh (pairRun false) _).2
    · exact ⟨fun _ _ => nofun, fun _ _ => nofun, fun _ _ => nofun, trivial⟩
    · simp [pairRun, FileEvent.Spares]

/-- Over a stream, a declared length beyond the end leaves a client waiting; and a close that fails makes an error of a
stream that was sent whole. -/
theorem short_file_ends :
    ((∃ step, ((filePhase calmWorld pair .ifstream {} ⟨[], 0, 3⟩ true).exec { inbox := [] }).1 = .ok step) ∧
      ¬ FileExact pair ⟨[], 0, 3⟩ (fileHead calmWorld {} true 0) (filePhase calmWorld pair .ifstream {} ⟨[], 0, 3⟩ true)
        { inbox := [] }) ∧
    ¬ ((pairRun true).foldl (FileTask.step pair .ifstream) (new serving 1 ⟨⟨[], 0, 2⟩, none⟩)).Exact pair ⟨[], 0, 2⟩ := by
  constructor
  · apply filePhase_short calmWorld pair {} ⟨[], 0, 3⟩ true (fun _ => rfl) rfl _ { inbox := [] } rfl
    intro hwhole
    have := hwhole 0 (by decide)
    revert this
    decide
  · intro h
    have hfinished := (h.aborted (by decide) (by decide)).1
    revert hfinished
    decide

end Exact

end FileTask

end Hical.Http2
