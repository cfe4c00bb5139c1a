import Hical.Session.ReadHead

namespace Hical
open Effect Transducer

/-- What holds of what came in through all that the body stage does with it, whatever becomes of its
reads and writes; no piece of a chunked body is longer than `K`. -/
structure BodyClosed (f : Framing) (K : Nat) (J : Incoming → Prop) : Prop where
  inbox : ∀ i l, J i → J { i with inbox := l }
  copied : ∀ i, J i →
    let copied := min (i.readBuf.length - f.headerBytes) f.contentLength
    let tailLen := i.readBuf.length - f.headerBytes - copied
    J { i with
      spillSrc := if 0 < tailLen then f.headerBytes + copied else i.spillSrc, bufUsed := tailLen }
  dropped : ∀ i, J i → J { i with bufUsed := 0 }
  buffered : ∀ i, J i → (i.readBuf.drop f.headerBytes).length ≤ K
  read : 4096 ≤ K
  spilled : ∀ i (rest body : Bytes), J i → rest.length ≤ K → J { i with
    pipelineSpill := if 0 < rest.length then rest else i.pipelineSpill, stored := some body }
  stored : ∀ i body, J i → J { i with stored := some body }
  skipped : ∀ i, J i → J { i with
    spillSrc := f.headerBytes, bufUsed := i.readBuf.length - f.headerBytes, stored := some [] }
  asked : ∀ i, J i → J { i with bodyRead := true, bodyReads := i.bodyReads + 1 }

section Body
variable {υ : Type} (w : World) {X : Prop} (hX : X ∨ w.Takes) (maxBodySize : Nat) {f : Framing}
  {J : Incoming → Prop}

include hX in
theorem keeps_flush_incoming :
    Keeps (fun s : Sess υ => Sound X J s.2) (flushResponseBatch w).right :=
  Keeps.right ((sends_flushResponseBatch w hX).keeps _)

variable (hJ : BodyClosed f K J)
include hJ

theorem closed_asyncReadSome (hc : 0 < cap) :
    Triple (fun s : Sess υ => Sound X J s.2) (asyncReadSome cap).right
      (fun got s => got.length ≤ cap ∧ Sound X J s.2) (fun _ s => Sound X J s.2) := by
  rintro s ⟨hs, hb⟩
  rw [exec_right]
  have h := stands_asyncReadSome (l := s.2.log) hc s.2 ⟨rfl, rfl, hb⟩
  cases hx : (asyncReadSome cap).exec s.2 with
  | mk r c =>
    rw [hx] at h
    cases r with
    | ok got =>
      obtain ⟨j, hg, hj⟩ := h
      refine ⟨hg.le, ?_, hj.sound⟩
      dsimp only
      rw [hj.incoming, hg.same]
      exact hJ.inbox _ _ hs
    | error e =>
      refine ⟨?_, h.2.2⟩
      dsimp only
      rw [h.2.1]
      exact hJ.inbox _ _ hs

include hX in
omit hJ in
theorem closed_answerExpect :
    Keeps (fun s : Sess υ => Sound X J s.2) (answerExpect w maxBodySize f) := by
  apply Keeps.get_bind
  intro s
  split
  · split
    · exact .pure _
    · apply (keeps_flush_incoming w hX).bind
      intro _
      apply (Keeps.right ((sends_record k100).keeps _)).bind
      intro _
      apply (Keeps.right ((sends_asyncWrite w hX k100).keeps _)).bind
      intro _
      exact .pure _
  · exact .pure _

theorem closed_fillBody (rounds offset bodyRemaining : Nat) :
    Keeps (fun s : Sess υ => Sound X J s.2) (fillBody rounds offset bodyRemaining) := by
  induction rounds generalizing offset bodyRemaining with
  | zero => exact .pure _
  | succ rounds ih =>
    rw [fillBody]
    split
    · exact .pure _
    · rw [keeps_iff]
      apply Triple.bind (closed_asyncReadSome hJ (by omega))
      intro got
      apply Triple.and_pre
      intro _
      apply Triple.bind (Q := fun _ s => Sound X J s.2)
      · exact Triple.modify _ fun _ h => h
      · intro _
        exact keeps_iff.1 (ih _ _)

include hX in
theorem closed_readSizedBody :
    Keeps (fun s : Sess υ => Sound X J s.2) (readSizedBody w maxBodySize f) := by
  rw [readSizedBody]
  split
  · exact .pure _
  · apply Keeps.get_bind
    intro s
    apply Keeps.bind
    · exact Keeps.modify _ fun s hs => ⟨hJ.copied _ hs.1, hs.2⟩
    · intro _
      dsimp only
      have hstore : Keeps (fun s : Sess υ => Sound X J s.2) (do
          fillBody (f.contentLength - bodyCopied f s.2) (bodyCopied f s.2)
            (f.contentLength - bodyCopied f s.2)
          modify storeBody
          pure (none : Option Response)) := by
        apply (closed_fillBody hJ _ _ _).bind
        intro _
        exact fun _ hs => ⟨hJ.stored _ _ hs.1, hs.2⟩
      split
      · exact (keeps_flush_incoming w hX).bind fun _ => hstore
      · exact hstore

include hX in
theorem closed_decodeBody (before rounds : Nat) (decoder : PhrChunkedDecoder) (chunkBuf : Bytes)
    (hb : chunkBuf.length ≤ K) :
    Keeps (fun s : Sess υ => Sound X J s.2)
      (decodeBody w maxBodySize before rounds decoder chunkBuf) := by
  induction rounds generalizing decoder chunkBuf with
  | zero => exact .throw _
  | succ rounds ih =>
    rw [decodeBody]
    apply Keeps.bind
    · exact Keeps.modify _ fun _ h => h
    · intro _
      apply Keeps.get_bind
      intro s
      split
      · exact .pure _
      · split
        · next rest hrest =>
          apply Keeps.bind
          · apply Keeps.modify
            intro s hs
            exact ⟨hJ.spilled _ _ _ hs.1 (Nat.le_trans (phrDecodeChunked_rest_length hrest) hb), hs.2⟩
          · intro _
            exact .pure _
        · exact .pure _
        · apply (keeps_flush_incoming w hX).bind
          intro _
          rw [keeps_iff]
          apply Triple.bind (closed_asyncReadSome hJ (by decide))
          intro got
          apply Triple.and_pre
          intro hg
          exact keeps_iff.1 (ih _ _ (Nat.le_trans hg hJ.read))

include hX in
theorem closed_readBodyOnce :
    Keeps (fun s : Sess υ => Sound X J s.2) (readBodyOnce w maxBodySize f) := by
  apply (closed_answerExpect w hX maxBodySize).bind
  intro err
  cases err with
  | some err => exact .pure _
  | none =>
    dsimp only
    split
    · exact closed_readSizedBody w hX maxBodySize hJ
    · split
      · rw [readChunkedBody, keeps_iff]
        apply Triple.get_bind
        intro s hs
        apply Triple.bind (Q := fun _ s => Sound X J s.2)
        · apply Triple.modify
          rintro _ rfl
          exact ⟨hJ.dropped _ hs.1, hs.2⟩
        · intro _
          exact keeps_iff.1 (closed_decodeBody w hX maxBodySize hJ _ _ _ _ (hJ.buffered _ hs.1))
      · apply Keeps.bind
        · exact Keeps.modify _ fun s hs => ⟨hJ.skipped _ hs.1, hs.2⟩
        · intro _
          exact .pure _

include hX in
theorem closed_readRequestBody :
    Keeps (fun s : Sess υ => Sound X J s.2) (readRequestBody w maxBodySize f) := by
  apply Keeps.get_bind
  intro s
  split
  · exact .pure _
  · apply Keeps.bind
    · exact Keeps.modify _ fun s hs => ⟨hJ.asked _ hs.1, hs.2⟩
    · intro _
      exact closed_readBodyOnce w hX maxBodySize hJ

end Body

end Hical
