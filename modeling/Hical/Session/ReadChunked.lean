import Hical.Session.ReadBody

namespace Hical
open Effect Transducer

/-- What reads of at most `cap` bytes bring one after the other. -/
def readsOf (cap : Nat) : Nat → List Bytes → List Bytes
  | 0, _ => []
  | n + 1, inbox =>
    match readSome cap inbox with
    | none => []
    | some (got, inbox) => got :: readsOf cap n inbox

section Decode
variable {υ : Type} (w : World) {X : Prop} (hX : X ∨ w.Takes) (maxBodySize : Nat)

/-- How the stage ends with a chunked body, where `s` came behind the head, the reads end behind the
front parts `Q` of it and the request held `front` before. -/
def ChunkedRead (X : Prop) (v : View υ) (i : Incoming) (front s : Bytes) (Q : Bytes → Prop) :
    Option Response → Sess υ → Prop
  | none, t => ∃ rest j, (decoded s).ending = .complete rest ∧
      front.length + (decoded s).out.length ≤ maxBodySize ∧ (∀ p, Q p → ¬Heavy p) ∧
      BodyRead i (decoded s).out rest j ∧ Holds X (v.withBody (front ++ (decoded s).out)) j t
  | some _, _ => maxBodySize < front.length + (decoded s).out.length ∨
      (decoded s).ending = .failed ∨ ∃ p, Q p ∧ Heavy p

/-- The peer closed within a chunked body, or a write failed. -/
def ChunkedCut (X : Prop) (s : Bytes) : Prop := X ∨ (decoded s).ending = .incomplete

def ReadEnd (s : Bytes) (n : Nat) (inbox : List Bytes) (p : Bytes) : Prop :=
  ∃ k, p = s ++ ((readsOf 4096 n inbox).take k).flatten

theorem ReadEnd.cons (hg : Got i 4096 got j) (h : ReadEnd (s ++ got) n j.inbox p) :
    ReadEnd s (n + 1) i.inbox p := by
  obtain ⟨k, rfl⟩ := h
  refine ⟨k + 1, ?_⟩
  rw [readsOf, hg.read]
  simp only [List.take_succ_cons, List.flatten_cons, List.append_assoc]

theorem ReadEnd.cases (hg : Got i 4096 got j) (h : ReadEnd s (n + 1) i.inbox p) :
    p = s ∨ ReadEnd (s ++ got) n j.inbox p := by
  obtain ⟨k, rfl⟩ := h
  rw [readsOf, hg.read]
  cases k with
  | zero => exact .inl (List.append_nil _)
  | succ k =>
    right
    refine ⟨k, ?_⟩
    simp only [List.take_succ_cons, List.flatten_cons, List.append_assoc]

theorem ChunkedRead.cons (hg : Got i 4096 got j) (hlight : ¬Heavy s)
    (h : ChunkedRead maxBodySize X (v.withBody b) j front (s ++ got ++ j.inbox.flatten)
      (ReadEnd (s ++ got) n j.inbox) r t) :
    ChunkedRead maxBodySize X v i front (s ++ i.inbox.flatten) (ReadEnd s (n + 1) i.inbox) r t := by
  have hsplit : s ++ i.inbox.flatten = s ++ got ++ j.inbox.flatten := by
    rw [hg.split, List.append_assoc]
  rw [hsplit]
  cases r with
  | none =>
    obtain ⟨rest, k, hc, hle, hq, hk, ht⟩ := h
    refine ⟨rest, k, hc, hle, ?_, ⟨hk.leftover, ?_⟩, ht⟩
    · intro p hp
      rcases hp.cases hg with rfl | hp
      · exact hlight
      · exact hq p hp
    · rw [hk.same, hg.same]
  | some err =>
    rcases h with h | h | ⟨p, hp, hh⟩
    · exact .inl h
    · exact .inr (.inl h)
    · exact .inr (.inr ⟨p, hp.cons hg, hh⟩)

include hX

theorem holds_decodeBody (rounds : Nat) (d : PhrChunkedDecoder) (s buf front : Bytes) (v : View υ)
    (i : Incoming) (hd : Resumes d s) (hv : v.2.body = front ++ (decoded s).out)
    (hr : i.inbox.flatten.length < rounds) (hs : i.pipelineSpill = []) (hu : i.bufUsed = 0) :
    Triple (Holds X v i) (decodeBody w maxBodySize front.length rounds d buf)
      (ChunkedRead maxBodySize X v i front (s ++ buf ++ i.inbox.flatten)
        (ReadEnd (s ++ buf) (rounds - 1) i.inbox))
      (fun _ _ => ChunkedCut X (s ++ buf ++ i.inbox.flatten)) := by
  induction rounds generalizing d s buf v i with
  | zero => exact absurd hr (Nat.not_lt_zero _)
  | succ rounds ih =>
    rw [decodeBody]
    have hout := phrDecodeChunked_out hd buf
    have hres := phrDecodeChunked_resumes hd buf
    obtain ⟨more, hmore⟩ := @out_append _ _ _ (feed false) .start (s ++ buf) i.inbox.flatten
    have hmore : (decoded (s ++ buf ++ i.inbox.flatten)).out = (decoded (s ++ buf)).out ++ more := hmore
    have hbody : v.2.body ++ (phrDecodeChunked d buf).2.1 = front ++ (decoded (s ++ buf)).out := by
      rw [hv, hout, List.append_assoc]
    apply (holds_onBody _).bind
    intro _
    rw [hbody]
    apply Triple.get_bind
    intro t ht
    have hpre : ∀ t', t' = t → Holds X (v.withBody (front ++ (decoded (s ++ buf)).out)) i t' :=
      fun t' h => h ▸ ht
    have htb : t.1.2.body = front ++ (decoded (s ++ buf)).out := by
      rw [ht.view]
      rfl
    rw [htb]
    split
    · next hlt =>
      apply Triple.pure
      intro _ _
      left
      rw [hmore]
      simp only [List.length_append] at hlt ⊢
      omega
    · next hle =>
      split
      · next rest hc =>
        rw [hc] at hres
        have hwhole : decoded (s ++ buf ++ i.inbox.flatten) = ⟨(decoded (s ++ buf)).state,
            (decoded (s ++ buf)).out, .complete (rest ++ i.inbox.flatten)⟩ :=
          run_append_complete hres i.inbox.flatten
        have hspill : (if 0 < rest.length then rest else i.pipelineSpill) = rest := by
          split
          · rfl
          · next h0 =>
            rw [hs]
            exact (List.length_eq_zero_iff.1 (Nat.eq_zero_of_not_pos h0)).symm
        apply Triple.bind (Q := fun _ => Holds X (v.withBody (front ++ (decoded (s ++ buf)).out))
          { i with pipelineSpill := rest, stored := some (decoded (s ++ buf)).out })
        · apply Triple.modify
          rintro _ rfl
          refine ⟨ht.view, ?_, ht.sound⟩
          obtain ⟨-, rfl, -⟩ := ht
          simp only [hspill, List.drop_left]
        · intro _
          apply Triple.pure
          intro t' ht'
          rw [ChunkedRead, hwhole]
          refine ⟨rest ++ i.inbox.flatten, _, rfl, ?_, ?_, ⟨?_, rfl⟩, ht'⟩
          · rw [← List.length_append]
            exact Nat.le_of_not_lt hle
          · rintro p ⟨k, rfl⟩ ⟨hp, -⟩
            rw [decoded, run_append_complete hres] at hp
            cases hp
          · rw [Incoming.leftover, Incoming.spilled, if_neg (by rw [hu]; exact Nat.lt_irrefl 0)]
            rfl
      · next hf =>
        rw [hf] at hres
        apply Triple.pure
        intro _ _
        rcases hres with hfail | hheavy
        · right
          left
          exact congrArg Run.ending (run_append_failed hfail i.inbox.flatten)
        · right
          right
          exact ⟨s ++ buf, ⟨0, (List.append_nil _).symm⟩, hheavy⟩
      · next hi =>
        rw [hi] at hres
        obtain ⟨hd', hlight⟩ := hres
        apply Triple.bind ((sends_flushResponseBatch w hX).holds.conseq hpre (fun _ _ => id)
          fun _ _ => .inl)
        intro _
        apply Triple.bind (Q := fun got t => ∃ j, Got i 4096 got j ∧
          Holds X (v.withBody (front ++ (decoded (s ++ buf)).out)) j t)
        · apply (holds_asyncReadSome (by decide)).conseq (fun _ => id) (fun _ _ => id)
          rintro e t' ⟨hend, -⟩
          right
          rw [hend, List.append_nil]
          exact hd'.ending
        · intro got
          apply Triple.exists_pre
          intro j
          apply Triple.and_pre
          intro hg
          have hpos := hg.pos
          have hlen := congrArg List.length hg.split
          rw [List.length_append] at hlen
          have hrounds : rounds = rounds - 1 + 1 := by omega
          have hj := ih _ (s ++ buf) got (v.withBody (front ++ (decoded (s ++ buf)).out)) j hd' rfl
            (by omega) (by rw [hg.same]; exact hs) (by rw [hg.same]; exact hu)
          have hsplit : s ++ buf ++ i.inbox.flatten = s ++ buf ++ got ++ j.inbox.flatten := by
            rw [hg.split, List.append_assoc (s ++ buf)]
          apply hj.conseq (fun _ => id)
          · intro r t' ht'
            rw [Nat.add_sub_cancel, hrounds]
            exact ht'.cons _ hg hlight
          · intro _ _ hcut
            rw [hsplit]
            exact hcut

end Decode

section Stage
variable {υ : Type} (w : World) {X : Prop} (hX : X ∨ w.Takes) (maxBodySize : Nat) (f : Framing)
  {v : View υ} {i : Incoming}

def Framing.isSized : Prop := f.hasContentLength = true ∧ 0 < f.contentLength

instance : Decidable f.isSized := inferInstanceAs (Decidable (_ ∧ _))

def declaredBody (s : Bytes) : Option (Bytes × Bytes) :=
  if f.isSized then
    if f.contentLength ≤ s.length then some (s.take f.contentLength, s.drop f.contentLength) else none
  else if f.isChunked then
    match (decoded s).ending with
    | .complete rest => some ((decoded s).out, rest)
    | _ => none
  else some ([], s)

/-- The request with its body: a sized body replaces what the request held, a chunked one comes
behind it. -/
def View.received (v : View υ) (body : Bytes) : View υ :=
  v.withBody (if f.isSized then body else v.2.body ++ body)

def BodyReadEnd (i : Incoming) : Bytes → Prop :=
  ReadEnd (i.readBuf.drop f.headerBytes) i.inbox.flatten.length i.inbox

/-- The body is longer than the server allows. -/
def TooLarge (front s : Bytes) : Prop :=
  if f.isSized then maxBodySize < f.contentLength
  else f.isChunked = true ∧ maxBodySize < front.length + (decoded s).out.length

def BodyStage (X : Prop) (v : View υ) (i : Incoming) : Option Response → Sess υ → Prop
  | none, t => ∃ body rest j, declaredBody f (i.behind f.headerBytes) = some (body, rest) ∧
      ¬TooLarge maxBodySize f v.2.body (i.behind f.headerBytes) ∧
      (¬f.isSized → f.isChunked = true → ∀ p, BodyReadEnd f i p → ¬Heavy p) ∧
      BodyRead i body rest j ∧ Holds X (v.received f body) j t
  | some _, t => if f.isSized then maxBodySize < f.contentLength ∧ t.2.toIncoming = i else
      f.isChunked = true ∧ (TooLarge maxBodySize f v.2.body (i.behind f.headerBytes) ∨
        (decoded (i.behind f.headerBytes)).ending = .failed ∨ ∃ p, BodyReadEnd f i p ∧ Heavy p)

/-- The body stage throws when the peer closes within the body, or because a write fails. -/
def BodyStageFails (X : Prop) (i : Incoming) (t : Sess υ) : Prop :=
  X ∨ (declaredBody f (i.behind f.headerBytes) = none ∧
    (f.isChunked = false → BodyCut i t.2.toIncoming))

include hX

theorem holds_answerExpect :
    Triple (Holds X v i) (answerExpect w maxBodySize f)
      (fun r t => Holds X v i t ∧ (r = none ∨ f.isSized ∧ maxBodySize < f.contentLength))
      (fun _ _ => X) := by
  apply Triple.get_bind
  intro s hs
  have hpre : ∀ t, t = s → Holds X v i t := fun t ht => ht ▸ hs
  split
  · split
    · next hbig =>
      apply Triple.pure
      intro t ht
      exact ⟨hpre t ht, .inr ⟨⟨hbig.1, Nat.lt_of_le_of_lt (Nat.zero_le _) hbig.2⟩, hbig.2⟩⟩
    · apply ((sends_flushResponseBatch w hX).holds.pre hpre).bind
      intro _
      apply (sends_record k100).holds.bind
      intro _
      apply (sends_asyncWrite w hX k100).holds.bind
      intro _
      exact Triple.pure _ fun _ ht => ⟨ht, .inl rfl⟩
  · exact Triple.pure _ fun t ht => ⟨hpre t ht, .inl rfl⟩

theorem holds_readChunkedBody (hf : Fresh f.headerBytes i) :
    Triple (Holds X v i) (readChunkedBody w maxBodySize f)
      (ChunkedRead maxBodySize X v i v.2.body (i.behind f.headerBytes) (BodyReadEnd f i))
      (fun _ _ => ChunkedCut X (i.behind f.headerBytes)) := by
  apply Triple.get_bind
  intro s hs
  have hbody : s.1.2.body = v.2.body := by
    rw [hs.view]
  have hbuf : s.2.readBuf = i.readBuf := congrArg Incoming.readBuf hs.incoming
  have hin : s.2.inbox = i.inbox := congrArg Incoming.inbox hs.incoming
  rw [hbody, hbuf, hin]
  apply Triple.bind (Q := fun _ => Holds X v { i with bufUsed := 0 })
  · apply Triple.modify
    rintro _ rfl
    refine ⟨hs.view, ?_, hs.sound⟩
    rw [← hs.incoming]
  · intro _
    apply (holds_decodeBody w hX maxBodySize _ .zeroed [] (i.readBuf.drop f.headerBytes) v.2.body v
      { i with bufUsed := 0 } resumes_zeroed (List.append_nil _).symm (Nat.lt_succ_self _) hf.spill
      rfl).conseq (fun _ => id)
    · intro r t ht
      cases r with
      | none =>
        obtain ⟨rest, j, hc, hle, hq, hj, ht⟩ := ht
        exact ⟨rest, j, hc, hle, hq, ⟨hj.leftover, hj.same⟩, ht⟩
      | some err => exact ht
    · exact fun _ _ => id

theorem holds_readBodyOnce (hf : Fresh f.headerBytes i) :
    Triple (Holds X v i) (readBodyOnce w maxBodySize f) (BodyStage maxBodySize f X v i)
      (fun _ => BodyStageFails f X i) := by
  apply ((holds_answerExpect w hX maxBodySize f).conseq (fun _ => id) (fun _ _ => id)
    fun _ _ => .inl).bind
  intro err
  cases err with
  | some err =>
    apply Triple.pure
    rintro t ⟨ht, hr | ⟨hs, hbig⟩⟩
    · cases hr
    · rw [BodyStage, if_pos hs]
      exact ⟨hbig, ht.incoming⟩
  | none =>
    apply Triple.pre (P := Holds X v i) _ fun _ h => h.1
    dsimp only
    split
    · next hs =>
      have hs : f.isSized := hs
      by_cases hle : f.contentLength ≤ maxBodySize
      · apply (holds_readSizedBody w hX maxBodySize f hf hle).conseq (fun _ => id)
        · rintro r t ⟨rfl, hlen, j, hj, ht⟩
          refine ⟨_, _, j, ?_, ?_, fun hn => absurd hs hn, hj, ?_⟩
          · rw [declaredBody, if_pos hs, if_pos hlen]
          · rw [TooLarge, if_pos hs]
            exact Nat.not_lt_of_le hle
          · rwa [View.received, if_pos hs]
        · rintro _ t (hx | ⟨hlt, hcut⟩)
          · exact .inl hx
          · right
            rw [declaredBody, if_pos hs, if_neg (Nat.not_le_of_lt hlt)]
            exact ⟨rfl, fun _ => hcut⟩
      · rw [readSizedBody, if_pos (Nat.lt_of_not_le hle)]
        apply Triple.pure
        intro t ht
        rw [BodyStage, if_pos hs]
        exact ⟨Nat.lt_of_not_le hle, ht.incoming⟩
    · next hs =>
      have hs : ¬f.isSized := hs
      split
      · next hc =>
        apply (holds_readChunkedBody w hX maxBodySize f hf).conseq (fun _ => id)
        · intro r t ht
          cases r with
          | none =>
            obtain ⟨rest, j, hend, hle, hq, hj, ht⟩ := ht
            refine ⟨_, rest, j, ?_, ?_, fun _ _ => hq, hj, ?_⟩
            · rw [declaredBody, if_neg hs, if_pos hc, hend]
            · rw [TooLarge, if_neg hs]
              exact fun h => absurd h.2 (Nat.not_lt_of_le hle)
            · rwa [View.received, if_neg hs]
          | some err =>
            rw [BodyStage, if_neg hs, TooLarge, if_neg hs]
            refine ⟨hc, ht.imp_left fun h => ⟨hc, h⟩⟩
        · rintro _ t (hx | hinc)
          · exact .inl hx
          · right
            rw [declaredBody, if_neg hs, if_pos hc, hinc]
            refine ⟨rfl, fun hn => ?_⟩
            rw [hc] at hn
            cases hn
      · next hc =>
        apply Triple.bind (Q := fun _ => Holds X v { i with
          spillSrc := f.headerBytes, bufUsed := i.readBuf.length - f.headerBytes, stored := some [] })
        · apply Triple.modify
          rintro t ⟨hv, rfl, hb⟩
          exact ⟨hv, rfl, hb⟩
        · intro _
          apply Triple.pure
          intro t ht
          refine ⟨[], i.behind f.headerBytes, { i with
            spillSrc := f.headerBytes, bufUsed := i.readBuf.length - f.headerBytes,
            stored := some [] }, ?_, ?_, fun _ h => absurd h hc, ⟨?_, rfl⟩, ?_⟩
          · rw [declaredBody, if_neg hs, if_neg hc]
          · rw [TooLarge, if_neg hs]
            exact fun h => hc h.1
          · exact leftover_of_tail hf.spill rfl fun _ => rfl
          · rw [View.received, if_neg hs, List.append_nil]
            exact ht

end Stage

end Hical
