import Hical.Lib.Hoare
import Hical.Session.Serve

namespace Hical
open Effect

/-- The connection has taken in `i` and recorded the responses `l`. A socket that failed is allowed
under the condition `X` only. -/
structure Stands (X : Prop) (i : Incoming) (l : List Bytes) (c : Conn) : Prop where
  incoming : c.toIncoming = i
  log : c.log = l
  sound : X ∨ c.broken = false

/-- The computation leaves alone what came in and records the responses `ws`; it can fail under the
condition `X` only. -/
def Sends (X : Prop) (ws : List Bytes) (x : Eff Conn Exn α) : Prop :=
  ∀ i l, Triple (Stands X i l) x (fun _ => Stands X i (l ++ ws))
    (fun _ c => X ∧ c.toIncoming = i)

theorem Sends.pure (a : α) : Sends X [] (pure a : Eff Conn Exn α) := by
  intro i l
  apply Triple.pure
  intro c h
  rwa [List.append_nil]

theorem Sends.bind {x : Eff Conn Exn α} {f : α → Eff Conn Exn β} (hx : Sends X ws x)
    (hf : ∀ a, Sends X vs (f a)) : Sends X (ws ++ vs) (x >>= f) := by
  intro i l
  apply (hx i l).bind
  intro a
  rw [← List.append_assoc]
  exact hf a i (l ++ ws)

theorem Sends.after {x : Eff Conn Exn α} {f : α → Eff Conn Exn β} (hx : Sends X [] x)
    (hf : ∀ a, Sends X ws (f a)) : Sends X ws (x >>= f) :=
  hx.bind hf

theorem Sends.triple_bind {x : Eff Conn Exn α} {f : α → Eff Conn Exn β} {R : β → Conn → Prop}
    {P : Conn → Prop} {E : Exn → Conn → Prop} (hx : Sends X [] x) (hP : ∀ c, P c → Stands X i l c)
    (hE : ∀ e c, X → c.toIncoming = i → E e c) (hf : ∀ a, Triple (Stands X i l) (f a) R E) :
    Triple P (x >>= f) R E := by
  apply ((hx i l).conseq hP (fun _ _ => id) fun e c h => hE e c h.1 h.2).bind
  intro a
  rw [List.append_nil]
  exact hf a

/-- Something about what came in, and a socket that failed under the condition `X` only. -/
def Sound (X : Prop) (J : Incoming → Prop) (c : Conn) : Prop :=
  J c.toIncoming ∧ (X ∨ c.broken = false)

theorem Sends.keeps {x : Eff Conn Exn α} (hx : Sends X ws x) (J : Incoming → Prop) :
    Keeps (Sound X J) x := by
  rw [keeps_iff]
  rintro c ⟨h, hb⟩
  have hstart : ∀ s, c = s → Stands X c.toIncoming c.log s := by
    rintro s rfl
    exact ⟨rfl, rfl, hb⟩
  apply (hx c.toIncoming c.log).conseq hstart _ _ c rfl
  · intro _ s hs
    refine ⟨?_, hs.sound⟩
    rw [hs.incoming]
    exact h
  · intro _ s hs
    refine ⟨?_, .inl hs.1⟩
    rw [hs.2]
    exact h

theorem Sends.get_bind {f : Conn → Eff Conn Exn β} (hf : ∀ c, Sends X ws (f c)) :
    Sends X ws ((get : Eff Conn Exn Conn) >>= f) :=
  fun i l c h => hf c i l c h

theorem Sends.modify (g : Conn → Conn) (hi : ∀ c, (g c).toIncoming = c.toIncoming)
    (hl : ∀ c, (g c).log = c.log) (hb : ∀ c, (g c).broken = c.broken) :
    Sends X [] (modify g : Eff Conn Exn Unit) := by
  intro i l
  apply Triple.modify
  intro c h
  refine ⟨(hi c).trans h.incoming, ?_, ?_⟩
  · rw [hl, List.append_nil]
    exact h.log
  · rw [hb]
    exact h.sound

section Socket
variable (w : World)

def World.Takes : Prop := ∀ k, w.writeFails k = none

/-- Nothing fails that the session reads from or writes to. -/
structure World.Reliable : Prop where
  takes : w.Takes
  opens : ∀ path, w.fileOpens path = true
  read : ∀ path offset n, (w.fileRead path offset n).isSome

/-- A socket that takes what it is given, and files that are all empty. -/
def calmWorld : World where
  writeSome := fun _ => 0
  writeFails := fun _ => none
  fileOpens := fun _ => true
  fileRead := fun _ _ _ => some []
  cachedHttpDate := fun _ => []
  draining := fun _ => false

theorem calmWorld_reliable : calmWorld.Reliable := ⟨fun _ => rfl, fun _ => rfl, fun _ _ _ => rfl⟩

variable {X : Prop} (hX : X ∨ w.Takes)

theorem sends_tryOptimisticWrite (buf : Bytes) : Sends X [] (tryOptimisticWrite w buf) := by
  intro i l c h
  refine ⟨h.incoming, ?_, h.sound⟩
  rw [List.append_nil]
  exact h.log

include hX

theorem sends_asyncWrite (buf : Bytes) : Sends X [] (asyncWrite w buf) := by
  intro i l c h
  rw [asyncWrite, exec_of, List.append_nil]
  by_cases hb : c.broken = true
  · rw [if_pos hb]
    refine ⟨?_, h.incoming⟩
    rcases h.sound with hx | hf
    · exact hx
    · rw [hb] at hf
      cases hf
  · rw [if_neg hb]
    cases hw : w.writeFails c.writes with
    | none => exact ⟨h.incoming, h.log, h.sound⟩
    | some k =>
      refine ⟨?_, h.incoming⟩
      rcases hX with hx | ht
      · exact hx
      · rw [ht] at hw
        cases hw

theorem sends_writeBuffer (buf : Bytes) : Sends X [] (writeBuffer w buf) := by
  apply (sends_tryOptimisticWrite w buf).after
  intro n
  split
  · exact .pure _
  · exact sends_asyncWrite w hX _

theorem sends_writeBuffers (head body : Bytes) : Sends X [] (writeBuffers w head body) := by
  apply (sends_tryOptimisticWrite w _).after
  intro n
  split
  · exact .pure _
  · split
    · exact sends_asyncWrite w hX _
    · exact sends_asyncWrite w hX _

theorem sends_flushResponseBatch : Sends X [] (flushResponseBatch w) := by
  apply Sends.get_bind
  intro c
  split
  · exact .pure _
  · apply (sends_writeBuffer w hX _).after
    intro _
    exact .modify _ (fun _ => rfl) (fun _ => rfl) fun _ => rfl

omit hX

theorem sends_record (wire : Bytes) : Sends X [wire] (record wire) := by
  intro i l
  apply Triple.modify
  intro c h
  exact ⟨h.incoming, congrArg (· ++ [wire]) h.log, h.sound⟩

theorem Sends.recorded {x : Eff Conn Exn Unit} (hx : Sends X [] x) (wire : Bytes) :
    Sends X [wire] (do record wire; x) :=
  (sends_record wire).bind fun _ => hx

include hX

theorem sends_sendRawResponse (code : Nat) (reason body : Bytes) :
    Sends X [rawWire code reason body] (sendRawResponse w code reason body) :=
  (sends_writeBuffer w hX _).recorded _

theorem sends_writeResponse (res : Response) (common : Bytes) (skipBody : Bool) :
    Sends X [responseWire res common skipBody] (writeResponse w res common skipBody) := by
  apply Sends.recorded
  dsimp only
  split
  · split
    · exact sends_writeBuffer w hX _
    · split
      · exact sends_writeBuffer w hX _
      · exact sends_asyncWrite w hX _
  · split
    · exact sends_writeBuffer w hX _
    · split
      · exact sends_writeBuffer w hX _
      · exact sends_writeBuffers w hX _ _

omit hX

theorem sends_appendResponseToBatch (res : Response) (common : Bytes) (skipBody : Bool) :
    Sends X [responseWire res common skipBody] (appendResponseToBatch res common skipBody) := by
  apply Sends.recorded
  exact .modify _ (fun _ => rfl) (fun _ => rfl) fun _ => rfl

end Socket

section Files
variable (w : World) {X Y : Prop} (hX : X ∨ w.Takes) (hY : Y ∨ w.Reliable)

/-- The same for a computation that can also fail under the condition `Y`, with the socket intact. -/
def SendsFile (X Y : Prop) (ws : List Bytes) (x : Eff Conn Exn α) : Prop :=
  ∀ i l, Triple (Stands X i l) x (fun _ => Stands X i (l ++ ws))
    (fun _ c => (X ∨ Y) ∧ c.toIncoming = i)

theorem Sends.file {x : Eff Conn Exn α} (hx : Sends X ws x) : SendsFile X Y ws x :=
  fun i l => (hx i l).conseq (fun _ => id) (fun _ _ => id) fun _ _ h => ⟨.inl h.1, h.2⟩

theorem SendsFile.bind {x : Eff Conn Exn α} {f : α → Eff Conn Exn β} (hx : Sends X ws x)
    (hf : ∀ a, SendsFile X Y vs (f a)) : SendsFile X Y (ws ++ vs) (x >>= f) := by
  intro i l
  apply (hx.file i l).bind
  intro a
  rw [← List.append_assoc]
  exact hf a i (l ++ ws)

theorem SendsFile.throw (e : Exn) (hY : Y) : SendsFile X Y ws (throw e : Eff Conn Exn α) :=
  fun _ _ => Triple.throw e fun _ h => ⟨.inr hY, h.incoming⟩

include hX hY

theorem sendsFile_sendFile (path : Bytes) (rounds offset remaining : Nat) :
    SendsFile X Y [] (sendFile w path rounds offset remaining) := by
  induction rounds generalizing offset remaining with
  | zero => exact (Sends.pure _).file
  | succ rounds ih =>
    rw [sendFile]
    split
    · exact (Sends.pure _).file
    · cases hf : fileChunk w path offset remaining with
      | none =>
        apply SendsFile.throw
        rcases hY with hy | hr
        · exact hy
        · have := hr.read path offset (min kChunkSize remaining)
          rw [fileChunk, Option.map_eq_none_iff] at hf
          rw [hf] at this
          cases this
      | some chunk =>
        dsimp only
        split
        · exact (Sends.pure _).file
        · rw [← List.append_nil []]
          apply SendsFile.bind (sends_asyncWrite w hX chunk)
          intro _
          exact ih _ _

theorem sendsFile_writeFileResponse (res : Response) (common : Bytes) (fb : FileBody) :
    SendsFile X Y [fileWire w res common fb] (writeFileResponse w res common fb) := by
  rw [← List.append_nil [_]]
  apply SendsFile.bind (sends_record _)
  intro _
  split
  · rw [← List.append_nil []]
    apply SendsFile.bind (sends_asyncWrite w hX _)
    intro _
    exact sendsFile_sendFile w hX hY _ _ _ _
  · next ho =>
    apply SendsFile.throw
    rcases hY with hy | hr
    · exact hy
    · exact absurd (hr.opens fb.path) ho

omit hX hY

/-- The computation records one response and leaves alone what came in. -/
def Answers (X Y : Prop) (x : Eff Conn Exn Unit) : Prop :=
  ∀ i l, Triple (Stands X i l) x (fun _ c => ∃ wire, Stands X i (l ++ [wire]) c)
    (fun _ c => (X ∨ Y) ∧ c.toIncoming = i)

/-- The same, with what is known about the response. -/
def AnswersWith (X Y : Prop) (P : Bytes → Prop) (x : Eff Conn Exn Unit) : Prop :=
  ∀ i l, Triple (Stands X i l) x (fun _ c => ∃ wire, P wire ∧ Stands X i (l ++ [wire]) c)
    (fun _ c => (X ∨ Y) ∧ c.toIncoming = i)

theorem AnswersWith.answers {x : Eff Conn Exn Unit} (hx : AnswersWith X Y P x) : Answers X Y x := by
  intro i l
  apply (hx i l).conseq (fun _ => id) _ (fun _ _ => id)
  rintro _ c ⟨wire, -, hs⟩
  exact ⟨wire, hs⟩

theorem SendsFile.answersWith {x : Eff Conn Exn Unit} (hx : SendsFile X Y [wire] x) (hP : P wire) :
    AnswersWith X Y P x :=
  fun i l => (hx i l).conseq (fun _ => id) (fun _ _ h => ⟨wire, hP, h⟩) fun _ _ => id

theorem Sends.answersWith {x : Eff Conn Exn Unit} (hx : Sends X [wire] x) (hP : P wire) :
    AnswersWith X Y P x :=
  hx.file.answersWith hP

theorem AnswersWith.after {x : Eff Conn Exn α} {f : α → Eff Conn Exn Unit} (hx : Sends X [] x)
    (hf : ∀ a, AnswersWith X Y P (f a)) : AnswersWith X Y P (x >>= f) := by
  intro i l
  apply (hx.file i l).bind
  intro a
  rw [List.append_nil]
  exact hf a i l

theorem AnswersWith.get_bind {f : Conn → Eff Conn Exn Unit} (hf : ∀ c, AnswersWith X Y P (f c)) :
    AnswersWith X Y P ((get : Eff Conn Exn Conn) >>= f) :=
  fun i l c h => hf c i l c h

theorem AnswersWith.before {x : Eff Conn Exn Unit} {f : Unit → Eff Conn Exn Unit} (hx : AnswersWith X Y P x)
    (hf : ∀ a, Sends X [] (f a)) : AnswersWith X Y P (x >>= f) := by
  intro i l
  apply (hx i l).bind
  intro a
  apply Triple.exists_pre
  intro wire
  apply Triple.and_pre
  intro hP
  apply ((hf a).file i _).conseq (fun _ => id) _ (fun _ _ => id)
  intro _ c h
  rw [List.append_nil] at h
  exact ⟨wire, hP, h⟩

theorem Answers.ok {x : Eff Conn Exn Unit} (hx : Answers X Y x) (hb : X ∨ c.broken = false)
    (h : x.exec c = (.ok a, c')) : c'.toIncoming = c.toIncoming ∧ (X ∨ c'.broken = false) := by
  obtain ⟨wire, hs⟩ := (hx c.toIncoming c.log).ok ⟨rfl, rfl, hb⟩ h
  exact ⟨hs.incoming, hs.sound⟩

def bodyWire (res : Response) (common : Bytes) (isHead : Bool) : Bytes :=
  match res.fileBody with
  | some fb => if isHead then responseWire res common isHead else fileWire w res common fb
  | none => responseWire res common isHead

include hX hY

theorem answersWith_writeKeptAlive (res : Response) (isHead : Bool) :
    AnswersWith X Y (fun wire => ∃ turn, wire = bodyWire w res (responsePrefix (w.cachedHttpDate turn)) isHead)
      (writeKeptAlive w res isHead) := by
  have hflush := sends_flushResponseBatch w hX
  apply AnswersWith.get_bind
  intro c
  cases hfile : res.fileBody with
  | some fb =>
    dsimp only
    apply AnswersWith.after hflush
    intro _
    split
    · next hhead =>
      apply (sends_writeResponse w hX _ _ _).answersWith
      rw [hhead] at *
      exact ⟨c.turn, by rw [bodyWire, hfile]; rfl⟩
    · next hhead =>
      apply (sendsFile_writeFileResponse w hX hY _ _ _).answersWith
      exact ⟨c.turn, by rw [bodyWire, hfile]; exact (if_neg hhead).symm⟩
  | none =>
    have hwire : ∃ turn, responseWire res (responsePrefix (w.cachedHttpDate c.turn)) isHead =
        bodyWire w res (responsePrefix (w.cachedHttpDate turn)) isHead := ⟨c.turn, by rw [bodyWire, hfile]⟩
    have hwrite := (sends_writeResponse w hX res (responsePrefix (w.cachedHttpDate c.turn)) isHead).answersWith
      (P := fun wire => ∃ turn, wire = bodyWire w res (responsePrefix (w.cachedHttpDate turn)) isHead) (Y := Y) hwire
    dsimp only
    split
    · exact AnswersWith.after hflush fun _ => hwrite
    · split
      · exact AnswersWith.after hflush fun _ => hwrite
      · split
        · exact hwrite
        · apply AnswersWith.before ((sends_appendResponseToBatch _ _ _).answersWith hwire)
          intro _
          apply Sends.get_bind
          intro c
          split
          · exact hflush
          · exact .pure _

theorem answers_writeKeptAlive (res : Response) (isHead : Bool) :
    Answers X Y (writeKeptAlive w res isHead) :=
  (answersWith_writeKeptAlive w hX hY res isHead).answers

end Files

end Hical
