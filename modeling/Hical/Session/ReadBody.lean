import Hical.Session.ReadHead
import Hical.Session.Run

namespace Hical
open Effect Transducer

/-- What user code sees, what came in, and a socket that failed under the condition `X` only. -/
structure Holds (X : Prop) (v : View υ) (i : Incoming) (s : Sess υ) : Prop where
  view : s.1 = v
  incoming : s.2.toIncoming = i
  sound : X ∨ s.2.broken = false

def View.withBody (v : View υ) (body : Bytes) : View υ := (v.1, { v.2 with body := body })

section Steps
variable {υ : Type} {X : Prop} {v : View υ} {i : Incoming}

theorem Sends.holds {x : Eff Conn Exn α} (hx : Sends X ws x) :
    Triple (Holds X v i) x.right (fun _ => Holds X v i) (fun _ _ => X) := by
  rintro ⟨_, c⟩ ⟨rfl, hi, hb⟩
  rw [exec_right]
  have h := hx i c.log c ⟨hi, rfl, hb⟩
  cases hr : x.exec c with
  | mk r c' =>
    rw [hr] at h
    cases r with
    | ok a => exact ⟨rfl, h.incoming, h.sound⟩
    | error e => exact h.1

theorem holds_asyncReadSome (hc : 0 < cap) :
    Triple (Holds X v i) (asyncReadSome cap).right
      (fun got s => ∃ j, Got i cap got j ∧ Holds X v j s)
      (fun _ s => i.inbox.flatten = [] ∧ s.2.toIncoming = { i with inbox := [] }) := by
  rintro ⟨_, c⟩ ⟨rfl, hi, hb⟩
  rw [exec_right]
  have h := stands_asyncReadSome hc c ⟨hi, rfl, hb⟩
  cases hr : (asyncReadSome cap).exec c with
  | mk r c' =>
    rw [hr] at h
    cases r with
    | ok a =>
      obtain ⟨j, hg, hs⟩ := h
      exact ⟨j, hg, rfl, hs.incoming, hs.sound⟩
    | error e => exact ⟨h.1, h.2.1⟩

theorem holds_onBody (g : Bytes → Bytes) :
    Triple (Holds X v i) (onBody g) (fun _ => Holds X (v.withBody (g v.2.body)) i) E := by
  apply Triple.modify
  rintro s ⟨rfl, hi, hb⟩
  exact ⟨rfl, hi, hb⟩

theorem overwrite_append (front got junk : Bytes) :
    overwrite front.length got (front ++ junk) = (front ++ got) ++ junk.drop got.length := by
  rw [overwrite, List.take_left, List.drop_append, List.append_assoc]
  simp only [List.drop_eq_nil_of_le (Nat.le_add_right front.length got.length), List.nil_append,
    Nat.add_sub_cancel_left]

/-- What a session looks like when the missing bytes of the body were read. -/
def Filled (X : Prop) (v : View υ) (i : Incoming) (front : Bytes) (missing : Nat) (s : Sess υ) : Prop :=
  ∃ got inbox, got.length = missing ∧ i.inbox.flatten = got ++ inbox.flatten ∧
    Holds X (v.withBody (front ++ got)) { i with inbox := inbox } s

theorem Holds.filled (h : Holds X v i s) (hb : v.2.body = front) : Filled X v i front 0 s := by
  refine ⟨[], i.inbox, rfl, rfl, ?_, h.incoming, h.sound⟩
  rw [h.view, ← hb, List.append_nil]
  rfl

theorem Filled.step (hg : Got i missing got j)
    (h : Filled X (v.withBody b) j (front ++ got) (missing - got.length) s) :
    Filled X v i front missing s := by
  obtain ⟨got', inbox, hlen, hsplit, hs⟩ := h
  have hle := hg.le
  refine ⟨got ++ got', inbox, ?_, ?_, ?_⟩
  · rw [List.length_append]
    omega
  · rw [hg.split, hsplit, List.append_assoc]
  · rw [hg.same] at hs
    rwa [List.append_assoc] at hs

theorem holds_fillBody (rounds missing : Nat) (v : View υ) (i : Incoming) (front junk : Bytes)
    (hr : missing ≤ rounds) (hb : v.2.body = front ++ junk) (hj : junk.length = missing) :
    Triple (Holds X v i) (fillBody rounds front.length missing) (fun _ => Filled X v i front missing)
      (fun _ s => i.inbox.flatten.length < missing ∧ s.2.toIncoming = { i with inbox := [] }) := by
  induction rounds generalizing missing v i front junk with
  | zero =>
    cases Nat.le_zero.1 hr
    rw [List.length_eq_zero_iff.1 hj, List.append_nil] at hb
    exact Triple.pure _ fun _ hs => hs.filled hb
  | succ rounds ih =>
    rw [fillBody]
    split
    · next h0 =>
      subst h0
      rw [List.length_eq_zero_iff.1 hj, List.append_nil] at hb
      exact Triple.pure _ fun _ hs => hs.filled hb
    · next h0 =>
      apply Triple.bind (Q := fun got s => ∃ j, Got i missing got j ∧ Holds X v j s)
      · apply (holds_asyncReadSome (Nat.pos_of_ne_zero h0)).conseq (fun _ => id) (fun _ _ => id)
        rintro e s ⟨hend, hs⟩
        refine ⟨?_, hs⟩
        rw [hend]
        exact Nat.pos_of_ne_zero h0
      · intro got
        apply Triple.exists_pre
        intro j
        apply Triple.and_pre
        intro hg
        have hpos := hg.pos
        have hle := hg.le
        have hbody : overwrite front.length got v.2.body = (front ++ got) ++ junk.drop got.length := by
          rw [hb, overwrite_append]
        apply (holds_onBody _).bind
        intro _
        rw [hbody, ← List.length_append]
        apply (ih (missing - got.length) (v.withBody _) j (front ++ got) (junk.drop got.length)
          (by omega) rfl (by rw [List.length_drop, hj])).conseq (fun _ => id)
        · exact fun _ _ h => h.step hg
        · rintro e s ⟨hlt, hs⟩
          refine ⟨?_, ?_⟩
          · rw [hg.split, List.length_append]
            omega
          · rw [hs, hg.same]

end Steps

/-- What the next turn will find, if this one leaves it at that. -/
def Incoming.leftover (i : Incoming) : Bytes := i.spilled.pending

/-- What came in behind a head of `n` bytes. -/
def Incoming.behind (i : Incoming) (n : Nat) : Bytes := i.readBuf.drop n ++ i.inbox.flatten

/-- A head of `n` bytes stands in the buffer, and nothing behind it has been touched. -/
structure Fresh (n : Nat) (i : Incoming) : Prop where
  spill : i.pipelineSpill = []
  src : i.spillSrc = 0
  used : i.bufUsed = i.readBuf.length
  le : n ≤ i.readBuf.length

/-- The body was stored, and the next request starts with `rest`. -/
structure BodyRead (i : Incoming) (body rest : Bytes) (j : Incoming) : Prop where
  leftover : j.leftover = rest
  same : j = { i with
    inbox := j.inbox, bufUsed := j.bufUsed, spillSrc := j.spillSrc, pipelineSpill := j.pipelineSpill,
    stored := some body }

/-- The peer closed before the end of the body; nothing is left over. -/
structure BodyCut (i j : Incoming) : Prop where
  leftover : j.leftover = []
  bodyRead : j.bodyRead = i.bodyRead

theorem leftover_of_tail {i : Incoming} (hs : i.pipelineSpill = []) (hu : i.bufUsed = i.readBuf.length - k)
    (hk : 0 < i.bufUsed → i.spillSrc = k) : i.leftover = i.readBuf.drop k ++ i.inbox.flatten := by
  rw [Incoming.leftover, Incoming.spilled]
  split
  · next hpos =>
    rw [Incoming.pending]
    dsimp only
    rw [hk hpos, hu, List.take_of_length_le (Nat.le_of_eq List.length_drop)]
  · next hpos =>
    rw [Incoming.pending, hs, List.drop_eq_nil_of_le (by omega)]

section Body
variable {υ : Type} (w : World) {X : Prop} (hX : X ∨ w.Takes) (maxBodySize : Nat) (f : Framing)
  {v : View υ} {i : Incoming}

def bufferedBody (i : Incoming) : Bytes := (i.readBuf.drop f.headerBytes).take f.contentLength

theorem length_bufferedBody (i : Incoming) :
    (bufferedBody f i).length = min (i.readBuf.length - f.headerBytes) f.contentLength := by
  rw [bufferedBody, List.length_take, List.length_drop, Nat.min_comm]

/-- The locals after what the buffer holds was copied. -/
def Incoming.copied (i : Incoming) : Incoming :=
  let tailLen := i.readBuf.length - f.headerBytes - (bufferedBody f i).length
  { i with
    spillSrc := if 0 < tailLen then f.headerBytes + (bufferedBody f i).length else i.spillSrc
    bufUsed := tailLen }

theorem holds_copyBuffered :
    Triple (Holds X v i) (modify (copyBuffered f) : Eff (Sess υ) Exn Unit)
      (fun _ s => ∃ junk, junk.length = f.contentLength - (bufferedBody f i).length ∧
        Holds X (v.withBody (bufferedBody f i ++ junk)) (i.copied f) s) E := by
  apply Triple.modify
  rintro s ⟨rfl, rfl, hb⟩
  have hlen := length_bufferedBody f s.2.toIncoming
  have hcopied : bodyCopied f s.2 = (bufferedBody f s.2.toIncoming).length := hlen.symm
  refine ⟨(resize f.contentLength s.1.2.body).drop (bufferedBody f s.2.toIncoming).length, ?_, ?_⟩
  · rw [List.length_drop, resize, List.length_take, List.length_append, List.length_replicate]
    omega
  · refine ⟨?_, ?_, hb⟩
    · have htake : (s.2.readBuf.drop f.headerBytes).take (bodyCopied f s.2) =
          bufferedBody f s.2.toIncoming := by
        rw [bufferedBody, bodyCopied, Nat.min_comm, ← List.length_drop, ← List.take_take,
          List.take_length]
      have hover : overwrite 0 (bufferedBody f s.2.toIncoming) (resize f.contentLength s.1.2.body) =
          bufferedBody f s.2.toIncoming ++ (resize f.contentLength s.1.2.body).drop
            (bufferedBody f s.2.toIncoming).length := overwrite_append [] _ _
      simp only [copyBuffered, htake, hover]
      rfl
    · simp only [copyBuffered, hcopied, Incoming.copied]

/-- How the stage ends with a body of known length. -/
def SizedRead (X : Prop) (v : View υ) (i : Incoming) (r : Option Response) (s : Sess υ) : Prop :=
  r = none ∧ f.contentLength ≤ (i.behind f.headerBytes).length ∧
    ∃ j, BodyRead i ((i.behind f.headerBytes).take f.contentLength)
      ((i.behind f.headerBytes).drop f.contentLength) j ∧
      Holds X (v.withBody ((i.behind f.headerBytes).take f.contentLength)) j s

/-- The peer closed within a body of known length, or a write failed. -/
def SizedCut (X : Prop) (i : Incoming) (s : Sess υ) : Prop :=
  X ∨ ((i.behind f.headerBytes).length < f.contentLength ∧ BodyCut i s.2.toIncoming)

/-- The body in front of the next request: the part in the buffer and the part still to be read. -/
theorem behind_eq_bufferedBody (hm : (bufferedBody f i).length < f.contentLength) :
    i.behind f.headerBytes = bufferedBody f i ++ i.inbox.flatten := by
  have hlen := length_bufferedBody f i
  rw [Incoming.behind, bufferedBody, List.take_of_length_le]
  rw [List.length_drop]
  omega

theorem leftover_copied {j : Incoming} (hj : j.readBuf = i.readBuf)
    (hs : j.pipelineSpill = []) (hu : j.bufUsed = (i.copied f).bufUsed)
    (hsrc : j.spillSrc = (i.copied f).spillSrc) :
    j.leftover = i.readBuf.drop (f.headerBytes + (bufferedBody f i).length) ++ j.inbox.flatten := by
  have hu : j.bufUsed = i.readBuf.length - f.headerBytes - (bufferedBody f i).length := hu
  rw [← hj] at hu ⊢
  apply leftover_of_tail hs (by omega)
  intro hpos
  rw [hsrc, Incoming.copied]
  dsimp only
  rw [if_pos]
  rwa [← hj, ← hu]

theorem Filled.sizedRead (hf : Fresh f.headerBytes i)
    (h : Filled X (v.withBody b) (i.copied f) (bufferedBody f i)
      (f.contentLength - (bufferedBody f i).length) s) :
    SizedRead f X v i none (storeBody s) := by
  obtain ⟨got, inbox, hlen, hsplit, hs⟩ := h
  have hsplit : i.inbox.flatten = got ++ inbox.flatten := hsplit
  have hbuf := length_bufferedBody f i
  have hstream : i.behind f.headerBytes = (bufferedBody f i ++ got) ++
      (i.readBuf.drop (f.headerBytes + (bufferedBody f i).length) ++ inbox.flatten) := by
    by_cases hm : (bufferedBody f i).length < f.contentLength
    · rw [behind_eq_bufferedBody f hm, hsplit, List.drop_eq_nil_of_le (by omega), List.nil_append,
        List.append_assoc]
    · have hgot : got = [] := List.length_eq_zero_iff.1 (by omega)
      have hk : (bufferedBody f i).length = f.contentLength := by omega
      rw [Incoming.behind, hsplit, hgot, hk, List.append_nil, List.nil_append, bufferedBody,
        ← List.drop_drop, ← List.append_assoc, List.take_append_drop]
  have hk : (bufferedBody f i ++ got).length = f.contentLength := by
    rw [List.length_append]
    omega
  have hstore : Holds X (v.withBody (bufferedBody f i ++ got))
      { i.copied f with inbox := inbox, stored := some (bufferedBody f i ++ got) } (storeBody s) := by
    refine ⟨hs.view, ?_, hs.sound⟩
    simp only [storeBody, hs.incoming, hs.view]
    rfl
  rw [SizedRead, hstream, List.take_left' hk, List.drop_left' hk]
  refine ⟨rfl, ?_, _, ⟨?_, rfl⟩, hstore⟩
  · rw [List.length_append]
    omega
  · exact leftover_copied f rfl hf.spill rfl rfl

theorem holds_fillSized (hf : Fresh f.headerBytes i)
    (hjunk : junk.length = f.contentLength - (bufferedBody f i).length) :
    Triple (Holds X (v.withBody (bufferedBody f i ++ junk)) (i.copied f))
      (do
        fillBody (f.contentLength - (bufferedBody f i).length) (bufferedBody f i).length
          (f.contentLength - (bufferedBody f i).length)
        modify storeBody
        pure none)
      (SizedRead f X v i) (fun _ => SizedCut f X i) := by
  apply Triple.bind (Q := fun _ => Filled X (v.withBody (bufferedBody f i ++ junk)) (i.copied f)
    (bufferedBody f i) (f.contentLength - (bufferedBody f i).length))
  · apply (holds_fillBody _ _ _ _ _ junk (Nat.le_refl _) rfl hjunk).conseq (fun _ => id)
      (fun _ _ => id)
    rintro e s ⟨hlt, hs⟩
    right
    have hlt : i.inbox.flatten.length < f.contentLength - (bufferedBody f i).length := hlt
    refine ⟨?_, ?_⟩
    · rw [behind_eq_bufferedBody f (by omega), List.length_append]
      omega
    · have hbuf := length_bufferedBody f i
      rw [hs]
      refine ⟨?_, rfl⟩
      have hleft := leftover_copied (i := i) (j := { i.copied f with inbox := [] }) f rfl hf.spill
        rfl rfl
      rw [hleft, List.drop_eq_nil_of_le (by omega)]
      rfl
  · intro _
    apply Triple.bind (Q := fun _ => SizedRead f X v i none)
    · exact Triple.modify _ fun _ h => h.sizedRead f hf
    · intro _
      exact Triple.pure _ fun _ h => h

include hX

theorem holds_readSizedBody (hf : Fresh f.headerBytes i) (hle : f.contentLength ≤ maxBodySize) :
    Triple (Holds X v i) (readSizedBody w maxBodySize f) (SizedRead f X v i)
      (fun _ => SizedCut f X i) := by
  rw [readSizedBody, if_neg (Nat.not_lt_of_le hle)]
  apply Triple.get_bind
  intro s hs
  have hcopied : bodyCopied f s.2 = (bufferedBody f i).length := by
    rw [length_bufferedBody, ← hs.incoming]
    rfl
  dsimp only
  rw [hcopied]
  have hpre : ∀ t, t = s → Holds X v i t := fun t ht => ht ▸ hs
  apply ((holds_copyBuffered f).pre hpre).bind
  intro _
  apply Triple.exists_pre
  intro junk
  apply Triple.and_pre
  intro hjunk
  split
  · apply Triple.bind ((sends_flushResponseBatch w hX).holds.conseq (fun _ => id) (fun _ _ => id)
      fun _ _ => .inl)
    intro _
    exact holds_fillSized f hf hjunk
  · exact holds_fillSized f hf hjunk

end Body

end Hical
