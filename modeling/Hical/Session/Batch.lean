import Hical.Session.UserCode

namespace Hical
open Effect

/-- The socket has taken all of the responses but `u`, or a part of them if it failed, and no read
was started with responses held back. -/
structure Owes (u batch : Bytes) (c : Conn) : Prop where
  batch : c.responseBatch = batch
  reads : c.heldBack = false
  exact : c.broken = false → c.outbox ++ u = c.log.flatten
  cut : c.broken = true → c.outbox <+: c.log.flatten

/-- Only the responses held back are owed. -/
def Batched (c : Conn) : Prop := Owes c.responseBatch c.responseBatch c

/-- Nothing is owed. -/
def Flushed (c : Conn) : Prop := Owes [] [] c

theorem Owes.congr (h : Owes u b c) (hc : c'.toOutgoing = c.toOutgoing) : Owes u b c' := by
  constructor
  · rw [hc]
    exact h.batch
  · rw [hc]
    exact h.reads
  · rw [hc]
    exact h.exact
  · rw [hc]
    exact h.cut

theorem Batched.congr (h : Batched c) (hc : c'.toOutgoing = c.toOutgoing) : Batched c' := by
  rw [Batched, hc]
  exact Owes.congr h hc

theorem Flushed.congr (h : Flushed c) (hc : c'.toOutgoing = c.toOutgoing) : Flushed c' :=
  Owes.congr h hc

theorem Flushed.batched (h : Flushed c) : Batched c := by
  rw [Batched, h.batch]
  exact h

/-- How the responses stand when something was thrown: some may still be held back, but only when a
socket or a file failed. -/
def Thrown (e : Exn) (c : Conn) : Prop := Batched c ∧ (e ≠ .system → Flushed c)

theorem Batched.thrown (h : Batched c) : Thrown .system c := ⟨h, fun hne => absurd rfl hne⟩

theorem Flushed.thrown (h : Flushed c) : Thrown e c := ⟨h.batched, fun _ => h⟩

/-- A write failed, and the socket with it. -/
structure Cut (b : Bytes) (e : Exn) (c : Conn) : Prop where
  system : e = .system
  owes : Owes [] b c
  broken : c.broken = true

theorem Cut.thrown (h : Cut b e c) : Thrown e c := by
  rw [h.system]
  refine Batched.thrown ⟨rfl, h.owes.reads, ?_, h.owes.cut⟩
  intro hf
  rw [h.broken] at hf
  cases hf

section Output
variable (w : World)

theorem triple_tryOptimisticWrite (buf b : Bytes) :
    Triple (Owes buf b) (tryOptimisticWrite w buf) (fun n c => Owes (buf.drop n) b c)
      (fun _ _ => False) := by
  intro c h
  simp only [tryOptimisticWrite, exec_of]
  refine ⟨h.batch, h.reads, ?_, ?_⟩
  · intro hb
    rw [List.append_assoc, List.take_append_drop]
    exact h.exact hb
  · intro hb
    simp only [show c.broken = true from hb, ↓reduceIte, List.take_zero, List.append_nil]
    exact h.cut hb

theorem triple_asyncWrite_append (buf u b : Bytes) :
    Triple (Owes (buf ++ u) b) (asyncWrite w buf) (fun _ => Owes u b)
      (Cut b) := by
  rintro c ⟨hq, hr, he, hc⟩
  rw [asyncWrite, exec_of]
  by_cases hb : c.broken = true
  · rw [if_pos hb]
    exact ⟨rfl, ⟨hq, hr, fun hf => absurd (hb.symm.trans hf) Bool.noConfusion, hc⟩, hb⟩
  · have hl := Bool.eq_false_iff.2 hb
    have he := he hl
    rw [if_neg hb]
    cases w.writeFails c.writes with
    | none =>
      refine ⟨hq, hr, fun _ => ?_, fun hf => absurd hf hb⟩
      rw [List.append_assoc]
      exact he
    | some k =>
      refine ⟨rfl, ⟨hq, hr, fun hf => Bool.noConfusion hf, fun _ => ?_⟩, rfl⟩
      have hp : c.outbox ++ buf.take k <+: c.outbox ++ (buf ++ u) :=
        (List.prefix_append_right_inj _).2 ((List.take_prefix k buf).trans (List.prefix_append _ _))
      exact he ▸ hp

theorem triple_asyncWrite (buf b : Bytes) :
    Triple (Owes buf b) (asyncWrite w buf) (fun _ => Owes [] b)
      (Cut b) := by
  have h := triple_asyncWrite_append w buf [] b
  rwa [List.append_nil] at h

theorem triple_writeBuffer (buf b : Bytes) :
    Triple (Owes buf b) (writeBuffer w buf) (fun _ => Owes [] b)
      (Cut b) := by
  apply Triple.bind
    ((triple_tryOptimisticWrite w buf b).conseq (fun _ => id) (fun _ _ => id) fun _ _ => False.elim)
  intro n
  split
  · next hn =>
    apply Triple.pure
    intro c h
    rwa [hn, List.drop_length] at h
  · exact triple_asyncWrite w _ b

theorem triple_writeBuffers (head body b : Bytes) :
    Triple (Owes (head ++ body) b) (writeBuffers w head body) (fun _ => Owes [] b)
      (Cut b) := by
  apply Triple.bind
    ((triple_tryOptimisticWrite w (head ++ body) b).conseq (fun _ => id) (fun _ _ => id)
      fun _ _ => False.elim)
  intro n
  split
  · next hn =>
    apply Triple.pure
    intro c h
    rwa [hn, List.drop_length] at h
  · split
    · next hn =>
      rw [List.drop_append_of_le_length (Nat.le_of_lt hn)]
      exact triple_asyncWrite w _ b
    · next hn =>
      rw [List.drop_append, List.drop_eq_nil_of_le (Nat.le_of_not_lt hn), List.nil_append]
      exact triple_asyncWrite w _ b

theorem triple_flushResponseBatch :
    Triple Batched (flushResponseBatch w) (fun _ => Flushed) Thrown := by
  apply Triple.get_bind
  intro c hc
  split
  · next hb =>
    apply Triple.pure
    rintro s rfl
    rwa [Batched, hb] at hc
  · apply Triple.bind (Q := fun _ => Owes [] c.responseBatch)
    · apply (triple_writeBuffer w c.responseBatch c.responseBatch).conseq
      · rintro s rfl
        exact hc
      · exact fun _ _ => id
      · exact fun _ _ => Cut.thrown
    · intro _
      apply Triple.modify
      intro s h
      exact ⟨rfl, h.reads, h.exact, h.cut⟩

theorem triple_record (wire b : Bytes) :
    Triple (Owes [] b) (record wire) (fun _ => Owes wire b) E := by
  apply Triple.modify
  intro c h
  refine ⟨h.batch, h.reads, ?_, ?_⟩
  · intro hb
    have := h.exact hb
    rw [List.append_nil] at this
    simp only [List.flatten_append, List.flatten_cons, List.flatten_nil, List.append_nil, this]
  · intro hb
    rw [List.flatten_append]
    exact (h.cut hb).trans (List.prefix_append _ _)

theorem triple_direct {x : Eff Conn Exn Unit}
    (hx : Triple (Owes wire []) x (fun _ => Owes [] []) (Cut [])) :
    Triple Flushed (do record wire; x) (fun _ => Flushed) Thrown := by
  apply Triple.bind (triple_record wire [])
  intro _
  exact hx.conseq (fun _ => id) (fun _ _ => id) fun _ _ => Cut.thrown

theorem triple_writeResponse (res : Response) (common : Bytes) (skipBody : Bool) :
    Triple Flushed (writeResponse w res common skipBody) (fun _ => Flushed) Thrown := by
  apply triple_direct
  simp only [responseWire]
  cases hc : res.preparePayload.chunkedBody with
  | some cb =>
    simp only
    cases skipBody with
    | true =>
      simp only [↓reduceIte, List.append_nil]
      exact triple_writeBuffer w _ []
    | false =>
      simp only [Bool.false_eq_true, ↓reduceIte]
      split
      · next he =>
        rw [he, List.append_nil]
        exact triple_writeBuffer w _ []
      · exact triple_asyncWrite w _ []
  | none =>
    simp only
    by_cases h : skipBody = true ∨ res.preparePayload.body = []
    · have hb : (if skipBody = true then [] else res.preparePayload.body) = ([] : Bytes) := by
        rcases h with h | h
        · rw [if_pos h]
        · rw [h, ite_self]
      rw [hb, if_pos h, List.append_nil]
      exact triple_writeBuffer w _ []
    · rw [if_neg h, if_neg fun hs => h (.inl hs)]
      split
      · exact triple_writeBuffer w _ []
      · exact triple_writeBuffers w _ _ []

end Output

section Head
variable (w : World)

end Head

section Body
variable {υ : Type} (w : World) (maxBodySize : Nat) (f : Framing)

end Body

theorem unobserved_flushed : Unobserved Flushed := fun _ _ h => h.congr rfl

section Writing
variable (w : World)

theorem storeSpill_toOutgoing (c : Conn) : (storeSpill c).toOutgoing = c.toOutgoing := by
  rw [storeSpill]
  split
  · rfl
  · rfl

end Writing

section Turn
variable {υ : Type} (srv : Server υ) (w : World)

end Turn

end Hical
