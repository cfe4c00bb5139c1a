import Hical.Session.Batch
import Hical.Session.Writes

namespace Hical

/-- Whether a file is an asio file, where `BOOST_ASIO_HAS_FILE` is defined, or a stream. -/
inductive FileAccess where
  | asioFile
  | ifstream
  deriving DecidableEq, Repr

/-- A file while it is sent, which may change meanwhile. No loop reads twice from one place: `holds offset` is what
the file holds when it is read from there, and `gives offset` how many bytes that read gives at most. -/
structure FileSource where
  opens : Bool
  holds : Nat → Bytes
  gives : Nat → Nat

namespace FileSource
variable {f : FileSource}

def read (f : FileSource) (offset n : Nat) : Bytes :=
  ((f.holds offset).drop offset).take (min n (f.gives offset))

/-- Bytes read in pieces, each from where the last one ended. -/
inductive Consecutive (f : FileSource) : Nat → Bytes → Prop where
  | nil : Consecutive f offset []
  | cons (hgot : got <+: (f.holds offset).drop offset) (hrest : Consecutive f (offset + got.length) rest) :
    Consecutive f offset (got ++ rest)

theorem read_prefix (offset n : Nat) : f.read offset n <+: (f.holds offset).drop offset :=
  List.take_prefix ..

theorem length_read_le (offset n : Nat) : (f.read offset n).length ≤ n :=
  Nat.le_trans (List.length_take_le ..) (Nat.min_le_left ..)

theorem Consecutive.append (h : f.Consecutive offset sent)
    (hgot : got <+: (f.holds (offset + sent.length)).drop (offset + sent.length)) :
    f.Consecutive offset (sent ++ got) := by
  induction h with
  | nil =>
    rw [List.nil_append, ← List.append_nil got]
    exact .cons hgot .nil
  | @cons piece offset rest hpiece hrest ih =>
    rw [List.append_assoc]
    apply Consecutive.cons hpiece
    apply ih
    rw [Nat.add_assoc, ← List.length_append]
    exact hgot

end FileSource

end Hical

namespace Hical
open Effect

/-- The surroundings with this file, which an asio read finds at its end when it gets nothing. -/
def World.serving (w : World) (f : FileSource) : World :=
  { w with
    fileOpens := fun _ => f.opens
    fileRead := fun _ offset n => if f.read offset n = [] then none else some (f.read offset n) }

section Stream
variable (w : World) (f : FileSource)

/-- The loop of `writeFileResponse` over a stream, which has failed behind a read that gave too little. -/
def sendStream : Nat → Nat → Nat → Eff Conn Exn Unit
  | 0, _, _ => pure ()
  | rounds + 1, offset, remaining =>
    let toRead := min kChunkSize remaining
    let chunk := f.read offset toRead
    if remaining = 0 ∨ chunk = [] then pure ()
    else do
      asyncWrite w chunk
      if chunk.length < toRead then pure ()
      else sendStream rounds (offset + chunk.length) (remaining - chunk.length)

def writeFileStream (res : Response) (common : Bytes) (fb : FileBody) : Eff Conn Exn Unit := do
  if f.opens then
    asyncWrite w (res.preparePayload.serializeHeadTo common)
    sendStream w f fb.length fb.offset fb.length
  else throw .system

def writeFileBy (access : FileAccess) (res : Response) (common : Bytes) (fb : FileBody) : Eff Conn Exn Unit :=
  match access with
  | .asioFile => writeFileResponse (w.serving f) res common fb
  | .ifstream => writeFileStream w f res common fb

/-- `writeKeptAlive` or `writeClosing`, for a file that is not left out for a HEAD. -/
def writeFile (access : FileAccess) (res : Response) (fb : FileBody) (shouldKeepAlive : Bool) :
    Eff Conn Exn Unit :=
  if shouldKeepAlive then do
    let c ← get
    flushResponseBatch w
    writeFileBy w f access res (responsePrefix (w.cachedHttpDate c.turn)) fb
  else do
    flushResponseBatch w
    let c ← get
    writeFileBy w f access (closingResponse (w.cachedHttpDate c.turn) res) [] fb

/-- The write phase of `handleSession` for it. -/
def filePhase (access : FileAccess) (res : Response) (fb : FileBody) (shouldKeepAlive : Bool) :
    Eff Conn Exn Step := do
  writeFile w f access res fb shouldKeepAlive
  modify storeSpill
  pure (if shouldKeepAlive then .goOn else .closed)

def fileHead (res : Response) (shouldKeepAlive : Bool) (turn : Nat) : Bytes :=
  if shouldKeepAlive then res.preparePayload.serializeHeadTo (responsePrefix (w.cachedHttpDate turn))
  else (closingResponse (w.cachedHttpDate turn) res).preparePayload.serializeHeadTo []

theorem exec_right_bind {S T ε α β : Type} (x : Eff T ε α) (k : α → Eff T ε β) (s : S × T) :
    (x.right >>= fun a => (k a).right).exec s = (x >>= k).right.exec s := by
  rw [exec_bind, exec_right, exec_right, exec_bind]
  rcases x.exec s.2 with ⟨_ | a, t⟩
  · rfl
  · rfl

theorem writePhase_file {υ : Type} (res : Response) (fb : FileBody) (s : Sess υ)
    (hfile : res.fileBody = some fb) (hmethod : (s.1.2.method == .hHead) = false) :
    let keep := s.1.2.keepAlive && !w.draining s.2.turn
    (writePhase (w.serving f) res).exec s =
      (filePhase w f .asioFile { res with httpVersionMinor := 1, keepAlive := keep } fb keep).right.exec s := by
  intro keep
  have hkeep : (s.1.2.keepAlive && !(w.serving f).draining s.2.turn) = keep := rfl
  rw [writePhase, exec_bind, exec_get]
  dsimp only
  rw [hkeep, hmethod, filePhase, ← exec_right_bind]
  cases keep with
  | true =>
    simp only [writeKeptAlive, hfile, writeFile]
    rfl
  | false =>
    simp only [writeClosing, closingResponse, hfile, writeFile]
    rfl

end Stream

/-- Every read of a whole chunk, as the loop over a stream asks for it, is answered in full. -/
def FileSource.Whole (f : FileSource) (offset length : Nat) : Prop :=
  ∀ i, kChunkSize * i < length → (f.read (offset + kChunkSize * i) (min kChunkSize (length - kChunkSize * i))).length =
    min kChunkSize (length - kChunkSize * i)

theorem FileSource.whole_zero (f : FileSource) (offset : Nat) : f.Whole offset 0 :=
  fun _ h => absurd h (Nat.not_lt_zero _)

theorem FileSource.whole_step {f : FileSource} (hpos : 0 < length) :
    f.Whole offset length ↔ (f.read offset (min kChunkSize length)).length = min kChunkSize length ∧
      f.Whole (offset + min kChunkSize length) (length - min kChunkSize length) := by
  have hnext (i : Nat) : kChunkSize * (i + 1) = kChunkSize + kChunkSize * i := by
    rw [Nat.mul_add, Nat.mul_one, Nat.add_comm]
  constructor
  · intro h
    refine ⟨h 0 hpos, ?_⟩
    intro i hi
    have hchunk : min kChunkSize length = kChunkSize := by omega
    rw [hchunk] at hi ⊢
    have := h (i + 1) (by rw [hnext]; omega)
    rwa [hnext, ← Nat.add_assoc, ← Nat.sub_sub] at this
  · rintro ⟨hfirst, hrest⟩ i hi
    cases i with
    | zero => exact hfirst
    | succ i =>
      rw [hnext] at hi
      have hchunk : min kChunkSize length = kChunkSize := by omega
      rw [hchunk] at hrest
      rw [hnext, ← Nat.add_assoc, ← Nat.sub_sub]
      exact hrest i (by omega)

/-- What came in is as it was, and this went out. -/
def Wrote (i : Incoming) (o : Bytes) (c : Conn) : Prop := c.toIncoming = i ∧ c.outbox = o

def Writes (buf : Bytes) (x : Eff Conn Exn α) : Prop :=
  ∀ i o, Triple (Wrote i o) x (fun _ => Wrote i (o ++ buf)) fun _ c => ∃ part, part <+: buf ∧ Wrote i (o ++ part) c

/-- The head went out and consecutive bytes of the file, no more than declared and all of them in the case `W`. -/
def SentFile (f : FileSource) (W : Prop) (head : Bytes) (offset length : Nat) (i : Incoming) (o : Bytes) (c : Conn) :
    Prop :=
  ∃ body, f.Consecutive offset body ∧ body.length ≤ length ∧ (body.length = length ↔ W) ∧ Wrote i (o ++ (head ++ body)) c

/-- A part of that went out. -/
def SentPart (f : FileSource) (head : Bytes) (offset length : Nat) (i : Incoming) (o : Bytes) (c : Conn) : Prop :=
  ∃ body, f.Consecutive offset body ∧ body.length ≤ length ∧ ∃ part, part <+: head ++ body ∧ Wrote i (o ++ part) c

def Serves (f : FileSource) (W : Prop) (head : Bytes) (offset length : Nat) (x : Eff Conn Exn α) : Prop :=
  ∀ i o, Triple (Wrote i o) x (fun _ => SentFile f W head offset length i o) fun _ => SentPart f head offset length i o

section Writes
variable (w : World)

theorem writes_asyncWrite (buf : Bytes) : Writes buf (asyncWrite w buf) := by
  rintro i o c ⟨rfl, rfl⟩
  rw [asyncWrite, exec_of]
  split
  · next r c' heq =>
    split at heq
    · cases heq
    · split at heq
      · cases heq
        exact ⟨rfl, rfl⟩
      · cases heq
  · next e c' heq =>
    split at heq
    · cases heq
      exact ⟨[], List.nil_prefix, rfl, (List.append_nil _).symm⟩
    · split at heq
      · cases heq
      · next k _ =>
        cases heq
        exact ⟨buf.take k, List.take_prefix .., rfl, rfl⟩

theorem writes_writeBuffer (buf : Bytes) : Writes buf (writeBuffer w buf) := by
  intro i o
  apply Triple.bind (Q := fun n c => n ≤ buf.length ∧ Wrote i (o ++ buf.take n) c)
  · rintro c ⟨rfl, rfl⟩
    refine ⟨?_, rfl, rfl⟩
    split
    · exact Nat.zero_le _
    · exact Nat.min_le_right ..
  · intro n
    apply Triple.and_pre
    intro hn
    split
    · next hall =>
      rw [hall, List.take_length]
      exact Triple.pure _ fun _ => id
    · apply (writes_asyncWrite w (buf.drop n) i (o ++ buf.take n)).conseq (fun _ => id)
      · intro _ c h
        rwa [List.append_assoc, List.take_append_drop] at h
      · rintro _ c ⟨part, hpart, h⟩
        refine ⟨buf.take n ++ part, ?_, by rwa [List.append_assoc] at h⟩
        have := (List.prefix_append_right_inj (buf.take n)).2 hpart
        rwa [List.take_append_drop] at this

theorem flush_writes (i : Incoming) (o batch : Bytes) :
    Triple (fun c => Wrote i o c ∧ c.responseBatch = batch) (flushResponseBatch w)
      (fun _ => Wrote i (o ++ batch)) fun _ c => ∃ part, part <+: batch ∧ Wrote i (o ++ part) c := by
  apply Triple.get_bind
  rintro c ⟨h, rfl⟩
  split
  · next hnone =>
    apply Triple.pure
    rintro _ rfl
    rwa [hnone, List.append_nil]
  · apply Triple.bind (Q := fun _ => Wrote i (o ++ c.responseBatch))
    · exact (writes_writeBuffer w c.responseBatch i o).pre fun _ hc => hc ▸ h
    · intro _
      exact Triple.modify _ fun _ => id

theorem writes_record (wire : Bytes) : Writes [] (record wire) := by
  intro i o
  apply Triple.modify
  rintro c h
  rwa [List.append_nil]

end Writes

section Serves
variable {f : FileSource}

theorem Serves.nothing (hW : 0 = length ↔ W) : Serves f W [] offset length (pure a : Eff Conn Exn α) := by
  intro i o
  apply Triple.pure
  intro c h
  refine ⟨[], .nil, Nat.zero_le _, hW, ?_⟩
  rwa [List.append_nil, List.append_nil]

theorem Serves.throw (e : Exn) : Serves f W head offset length (throw e : Eff Conn Exn α) := by
  intro i o
  apply Triple.throw
  intro c h
  exact ⟨[], .nil, Nat.zero_le _, [], List.nil_prefix, by rwa [List.append_nil]⟩

theorem SentFile.behind (h : SentFile f W head offset length i (o ++ pre) c) :
    SentFile f W (pre ++ head) offset length i o c := by
  obtain ⟨body, hbody, hle, hW, h⟩ := h
  refine ⟨body, hbody, hle, hW, ?_⟩
  rwa [List.append_assoc, ← List.append_assoc] at h ⊢

theorem SentPart.behind (h : SentPart f head offset length i (o ++ pre) c) :
    SentPart f (pre ++ head) offset length i o c := by
  obtain ⟨body, hbody, hle, part, hpart, h⟩ := h
  refine ⟨body, hbody, hle, pre ++ part, ?_, ?_⟩
  · rw [List.append_assoc]
    exact (List.prefix_append_right_inj pre).2 hpart
  · rwa [List.append_assoc] at h

theorem SentPart.of_part (h : ∃ part, part <+: pre ∧ Wrote i (o ++ part) c) :
    SentPart f (pre ++ head) offset length i o c := by
  obtain ⟨part, hpart, h⟩ := h
  refine ⟨[], .nil, Nat.zero_le _, part, ?_, h⟩
  rw [List.append_nil]
  exact hpart.trans (List.prefix_append ..)

theorem triple_behind {x : Eff Conn Exn α} {k : α → Eff Conn Exn β}
    (hx : Triple P x (fun _ => Wrote i (o ++ pre)) fun _ c => ∃ part, part <+: pre ∧ Wrote i (o ++ part) c)
    (hk : ∀ a, Triple (Wrote i (o ++ pre)) (k a) (fun _ => SentFile f W head offset length i (o ++ pre))
      fun _ => SentPart f head offset length i (o ++ pre)) :
    Triple P (x >>= k) (fun _ => SentFile f W (pre ++ head) offset length i o)
      fun _ => SentPart f (pre ++ head) offset length i o := by
  apply Triple.bind (hx.conseq (fun _ => id) (fun _ _ => id) fun _ _ => SentPart.of_part)
  intro a
  exact (hk a).conseq (fun _ => id) (fun _ _ => SentFile.behind) fun _ _ => SentPart.behind

theorem Serves.behind {x : Eff Conn Exn α} {k : α → Eff Conn Exn β} (hx : Writes pre x)
    (hk : ∀ a, Serves f W head offset length (k a)) : Serves f W (pre ++ head) offset length (x >>= k) :=
  fun i o => triple_behind (hx i o) fun a => hk a i (o ++ pre)

theorem Serves.piece {x : Eff Conn Exn α} {k : α → Eff Conn Exn β} (hx : Writes got x)
    (hgot : got <+: (f.holds offset).drop offset) (hle : got.length ≤ length)
    (hk : ∀ a, Serves f W [] (offset + got.length) (length - got.length) (k a)) :
    Serves f W [] offset length (x >>= k) := by
  intro i o
  have hcons {body : Bytes} (hbody : f.Consecutive (offset + got.length) body)
      (hrest : body.length ≤ length - got.length) :
      f.Consecutive offset (got ++ body) ∧ (got ++ body).length ≤ length := by
    rw [List.length_append]
    exact ⟨.cons hgot hbody, by omega⟩
  apply (Serves.behind hx hk i o).conseq (fun _ => id)
  · rintro _ c ⟨body, hbody, hrest, hW, h⟩
    refine ⟨got ++ body, (hcons hbody hrest).1, (hcons hbody hrest).2, ?_, ?_⟩
    · rw [← hW, List.length_append]
      omega
    · rwa [List.append_nil] at h
  · rintro _ c ⟨body, hbody, hrest, part, hpart, h⟩
    refine ⟨got ++ body, (hcons hbody hrest).1, (hcons hbody hrest).2, part, ?_, h⟩
    rwa [List.append_nil] at hpart

variable (w : World)

theorem fileChunk_serving (path : Bytes) (offset remaining : Nat) :
    fileChunk (w.serving f) path offset remaining =
      if f.read offset (min kChunkSize remaining) = [] then none else some (f.read offset (min kChunkSize remaining)) := by
  rw [fileChunk, World.serving]
  dsimp only
  split
  · rfl
  · rw [Option.map_some, List.take_of_length_le (f.length_read_le ..)]

theorem serves_sendFile (path : Bytes) (rounds offset remaining : Nat) (hrounds : remaining ≤ rounds) :
    Serves f True [] offset remaining (sendFile (w.serving f) path rounds offset remaining) := by
  induction rounds generalizing offset remaining with
  | zero => exact .nothing (iff_true_intro (Nat.le_zero.1 hrounds).symm)
  | succ rounds ih =>
    rw [sendFile]
    split
    · next hzero => exact .nothing (iff_true_intro hzero.symm)
    · rw [fileChunk_serving]
      have hread : (f.read offset (min kChunkSize remaining)).length ≤ remaining :=
        Nat.le_trans (f.length_read_le ..) (Nat.min_le_right ..)
      by_cases hchunk : f.read offset (min kChunkSize remaining) = []
      · rw [if_pos hchunk]
        exact .throw _
      · rw [if_neg hchunk]
        dsimp only
        rw [if_neg hchunk]
        apply Serves.piece (writes_asyncWrite (w.serving f) _) (f.read_prefix ..) hread
        intro _
        have := List.length_pos_of_ne_nil hchunk
        exact ih _ _ (by omega)

theorem serves_sendStream (rounds offset remaining : Nat) (hrounds : remaining ≤ rounds) :
    Serves f (f.Whole offset remaining) [] offset remaining (sendStream w f rounds offset remaining) := by
  induction rounds generalizing offset remaining with
  | zero =>
    rw [Nat.le_zero.1 hrounds]
    exact .nothing (iff_of_true rfl (f.whole_zero offset))
  | succ rounds ih =>
    rw [sendStream]
    by_cases hzero : remaining = 0
    · rw [if_pos (.inl hzero), hzero]
      exact .nothing (iff_of_true rfl (f.whole_zero offset))
    · have hpos : 0 < remaining := Nat.pos_of_ne_zero hzero
      have hasked : 0 < min kChunkSize remaining := Nat.lt_min.2 ⟨by decide, hpos⟩
      have hread : (f.read offset (min kChunkSize remaining)).length ≤ remaining :=
        Nat.le_trans (f.length_read_le ..) (Nat.min_le_right ..)
      split
      · next hnone =>
        apply Serves.nothing
        rw [FileSource.whole_step hpos, hnone.resolve_left hzero, List.length_nil]
        exact iff_of_false (Nat.ne_of_lt hpos) fun h => absurd h.1 (Nat.ne_of_lt hasked)
      · apply Serves.piece (writes_asyncWrite w _) (f.read_prefix ..) hread
        intro _
        split
        · next hshort =>
          apply Serves.nothing
          rw [FileSource.whole_step hpos]
          exact iff_of_false (by omega) fun h => absurd h.1 (Nat.ne_of_lt hshort)
        · next hfull =>
          have hlength := Nat.le_antisymm (f.length_read_le offset _) (Nat.le_of_not_lt hfull)
          have hrest := ih (offset + min kChunkSize remaining) (remaining - min kChunkSize remaining) (by omega)
          rw [hlength, FileSource.whole_step hpos, and_iff_right hlength]
          exact hrest

theorem serves_writeFileBy (access : FileAccess) (res : Response) (common : Bytes) (fb : FileBody) :
    Serves f (access = .asioFile ∨ f.opens = false ∨ f.Whole fb.offset fb.length)
      (res.preparePayload.serializeHeadTo common) fb.offset fb.length (writeFileBy w f access res common fb) := by
  rw [← List.append_nil (res.preparePayload.serializeHeadTo common)]
  cases access with
  | asioFile =>
    rw [eq_true rfl, true_or]
    rw [← List.nil_append (res.preparePayload.serializeHeadTo common ++ [])]
    apply Serves.behind (writes_record _)
    intro _
    split
    · apply Serves.behind (writes_asyncWrite (w.serving f) _)
      intro _
      exact serves_sendFile w fb.path _ _ _ (Nat.le_refl _)
    · exact .throw _
  | ifstream =>
    rw [writeFileBy, writeFileStream]
    split
    · next hopens =>
      rw [or_iff_right (nomatch ·), hopens, or_iff_right (nomatch ·)]
      apply Serves.behind (writes_asyncWrite w _)
      intro _
      exact serves_sendStream w _ _ _ (Nat.le_refl _)
    · exact .throw _

theorem serves_writeFile (access : FileAccess) (res : Response) (fb : FileBody) (keep : Bool) (i : Incoming)
    (o batch : Bytes) :
    Triple (fun c => Wrote i o c ∧ c.responseBatch = batch) (writeFile w f access res fb keep)
      (fun _ => SentFile f (access = .asioFile ∨ f.opens = false ∨ f.Whole fb.offset fb.length)
        (batch ++ fileHead w res keep i.turn) fb.offset fb.length i o)
      fun _ => SentPart f (batch ++ fileHead w res keep i.turn) fb.offset fb.length i o := by
  have hflush := flush_writes w i o batch
  cases keep with
  | true =>
    apply Triple.get_bind
    intro c hc
    have hturn : c.turn = i.turn := congrArg Incoming.turn hc.1.1
    rw [fileHead, if_pos rfl, hturn]
    apply triple_behind
    · apply hflush.pre
      rintro _ rfl
      exact hc
    · intro _
      exact serves_writeFileBy w access _ _ fb i _
  | false =>
    rw [writeFile, if_neg Bool.false_ne_true]
    apply triple_behind hflush
    intro _
    apply Triple.get_bind
    intro c hc
    have hturn : c.turn = i.turn := congrArg Incoming.turn hc.1
    rw [fileHead, if_neg Bool.false_ne_true, hturn]
    exact (serves_writeFileBy w access _ _ fb i _).pre fun _ h => h ▸ hc

end Serves

/-- What a write phase does for a file: what was held back, the head and consecutive bytes of the file go out, never
more than declared and exactly as many if it ends. Otherwise a part of that goes out, and the exception ends the
session, whatever would have been next. -/
structure FileExact (f : FileSource) (fb : FileBody) (head : Bytes) (phase : Eff Conn Exn Step) (c : Conn) : Prop where
  sent : ∃ body part, f.Consecutive fb.offset body ∧ body.length ≤ fb.length ∧
    part <+: c.responseBatch ++ head ++ body ∧ (phase.exec c).2.outbox = c.outbox ++ part ∧
    ∀ step, (phase.exec c).1 = .ok step → part = c.responseBatch ++ head ++ body ∧ body.length = fb.length
  stops : ∀ e, (phase.exec c).1 = .error e →
    ∀ next : Step → Eff Conn Exn Step, (phase >>= next).exec c = (.error e, (phase.exec c).2)

section Exact
variable (w : World) (f : FileSource) (access : FileAccess) (res : Response) (fb : FileBody) (keep : Bool)

theorem filePhase_sent (c : Conn) :
    ∃ body part, f.Consecutive fb.offset body ∧ body.length ≤ fb.length ∧
      part <+: c.responseBatch ++ fileHead w res keep c.turn ++ body ∧
      ((filePhase w f access res fb keep).exec c).2.outbox = c.outbox ++ part ∧
      ∀ step, ((filePhase w f access res fb keep).exec c).1 = .ok step →
        part = c.responseBatch ++ fileHead w res keep c.turn ++ body ∧
          (body.length = fb.length ↔ access = .asioFile ∨ f.opens = false ∨ f.Whole fb.offset fb.length) := by
  have hwrite := serves_writeFile w access res fb keep c.toIncoming c.outbox c.responseBatch (f := f)
  have hstart : Wrote c.toIncoming c.outbox c ∧ c.responseBatch = c.responseBatch := ⟨⟨rfl, rfl⟩, rfl⟩
  rw [filePhase, exec_bind]
  rcases hx : (writeFile w f access res fb keep).exec c with ⟨e | u, c'⟩
  · obtain ⟨body, hbody, hle, part, hpart, h⟩ := hwrite.error hstart hx
    exact ⟨body, part, hbody, hle, hpart, h.2, nofun⟩
  · obtain ⟨body, hbody, hle, hW, h⟩ := hwrite.ok hstart hx
    refine ⟨body, _, hbody, hle, List.prefix_refl _, ?_, fun _ _ => ⟨rfl, hW⟩⟩
    rw [← h.2]
    exact congrArg Outgoing.outbox (storeSpill_toOutgoing c')

theorem filePhase_stops (c : Conn) (h : ((filePhase w f access res fb keep).exec c).1 = .error e)
    (next : Step → Eff Conn Exn Step) :
    (filePhase w f access res fb keep >>= next).exec c =
      (.error e, ((filePhase w f access res fb keep).exec c).2) :=
  exec_bind_error next (Prod.ext h rfl)

theorem sends_sendStream {X : Prop} (hX : X ∨ w.Takes) (rounds offset remaining : Nat) :
    Sends X [] (sendStream w f rounds offset remaining) := by
  induction rounds generalizing offset remaining with
  | zero => exact .pure _
  | succ rounds ih =>
    rw [sendStream]
    split
    · exact .pure _
    · apply (sends_asyncWrite w hX _).after
      intro _
      split
      · exact .pure _
      · exact ih _ _

theorem sends_writeFileStream {X : Prop} (hX : X ∨ w.Takes) (hopens : f.opens = true) (common : Bytes) :
    Sends X [] (writeFileStream w f res common fb) := by
  rw [writeFileStream, if_pos hopens]
  apply (sends_asyncWrite w hX _).after
  intro _
  exact sends_sendStream w f hX _ _ _

theorem filePhase_ends (htakes : w.Takes) (hopens : f.opens = true) (c : Conn) (hsound : c.broken = false) :
    ∃ step, ((filePhase w f .ifstream res fb keep).exec c).1 = .ok step := by
  have hX : False ∨ w.Takes := .inr htakes
  have hwrite : Sends False [] (writeFile w f .ifstream res fb keep) := by
    rw [writeFile]
    split
    · apply Sends.get_bind
      intro c
      apply (sends_flushResponseBatch w hX).after
      intro _
      exact sends_writeFileStream w f res fb hX hopens _
    · apply (sends_flushResponseBatch w hX).after
      intro _
      apply Sends.get_bind
      intro c
      exact sends_writeFileStream w f _ fb hX hopens _
  have hreturns := ((hwrite c.toIncoming c.log).conseq (fun _ => id) (fun _ _ => id) fun _ _ h => h.1).returns
    ⟨rfl, rfl, .inr hsound⟩
  obtain ⟨u, c', hx, -⟩ := hreturns
  rw [filePhase, exec_bind_ok _ hx]
  exact ⟨_, rfl⟩

theorem filePhase_short (htakes : w.Takes) (hopens : f.opens = true) (hshort : ¬ f.Whole fb.offset fb.length) (c : Conn)
    (hsound : c.broken = false) :
    (∃ step, ((filePhase w f .ifstream res fb keep).exec c).1 = .ok step) ∧
      ¬ FileExact f fb (fileHead w res keep c.turn) (filePhase w f .ifstream res fb keep) c := by
  obtain ⟨step, hstep⟩ := filePhase_ends w f res fb keep htakes hopens c hsound
  refine ⟨⟨step, hstep⟩, fun h => hshort ?_⟩
  obtain ⟨body, part, -, -, -, houtbox, hends⟩ := h.sent
  obtain ⟨body', part', -, -, -, houtbox', hends'⟩ := filePhase_sent w f .ifstream res fb keep c
  obtain ⟨hpart, hlength⟩ := hends step hstep
  obtain ⟨hpart', hwhole⟩ := hends' step hstep
  have hsame : part = part' := List.append_cancel_left (houtbox.symm.trans houtbox')
  rw [hpart, hpart'] at hsame
  rw [List.append_cancel_left hsame] at hlength
  exact ((hwhole.1 hlength).resolve_left nofun).resolve_left (by rw [hopens]; nofun)

/-- A file response is exact on every connection unless the loop runs over a stream that gives too little. -/
theorem filePhase_exact_iff :
    (∀ w c, FileExact f fb (fileHead w res keep c.turn) (filePhase w f access res fb keep) c) ↔
      access = .asioFile ∨ f.opens = false ∨ f.Whole fb.offset fb.length := by
  constructor
  · intro h
    by_contra hnot
    obtain ⟨haccess, hopens, hshort⟩ := by rwa [not_or, not_or] at hnot
    cases access with
    | asioFile => exact haccess rfl
    | ifstream =>
      have hfails := filePhase_short calmWorld f res fb keep (fun _ => rfl) (Bool.of_not_eq_false hopens) hshort
        { inbox := [] } rfl
      exact hfails.2 (h calmWorld { inbox := [] })
  · intro h w c
    refine ⟨?_, fun e he => filePhase_stops w f access res fb keep c he⟩
    obtain ⟨body, part, hbody, hle, hpart, houtbox, hends⟩ := filePhase_sent w f access res fb keep c
    refine ⟨body, part, hbody, hle, hpart, houtbox, fun step hstep => ?_⟩
    exact ⟨(hends step hstep).1, (hends step hstep).2.2 h⟩

end Exact

end Hical
