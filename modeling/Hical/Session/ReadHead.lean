import Hical.Picohttp.Head
import Hical.Session.Writes

namespace Hical
open Effect Parse

/-- The bytes that no turn has looked at yet. -/
def Incoming.pending (i : Incoming) : Bytes := i.pipelineSpill ++ i.inbox.flatten

/-- The bytes are not known to hold a complete head. -/
def Unparsed (s : Bytes) : Prop := ∀ head rest, parseRequest s ≠ .done head rest

section Parsing

theorem drop_of_done (h : parseRequest s = .done head rest) :
    rest = s.drop (s.length - rest.length) ∧ 14 + rest.length ≤ s.length := by
  obtain ⟨-, c, rfl, ⟨⟨hn, -⟩, -⟩, -⟩ := reads_parseRequest.done _ _ _ h
  simp only [List.length_append, Nat.add_sub_cancel, List.drop_left]
  exact ⟨trivial, by omega⟩

theorem parseRequest_append_drop (h : parseRequest s = .done head rest) (t : Bytes) :
    parseRequest (s ++ t) = .done head ((s ++ t).drop (s.length - rest.length)) := by
  rw [reads_parseRequest.append h t, List.drop_append_of_le_length (Nat.sub_le _ _),
    ← (drop_of_done h).1]

theorem parseRequest_of_append_drop (h : parseRequest (s ++ t) = .done head ((s ++ t).drop n))
    (hn : n ≤ s.length) : parseRequest s = .done head (s.drop n) := by
  obtain ⟨-, c, hc, -, hp⟩ := reads_parseRequest.done _ _ _ h
  have hlen := congrArg List.length hc
  simp only [List.length_append, List.length_drop] at hlen
  have htake : s.take n = c := by
    rw [← List.take_append_of_le_length hn, hc]
    exact List.take_left' (by omega)
  have := hp (s.drop n) (Nat.zero_le _)
  rwa [← htake, List.take_append_drop] at this

/-- The head of a stream is longer than a front part that holds no complete head. -/
theorem length_lt_of_unparsed (hu : Unparsed s) (h : parseRequest (s ++ t) = .done head rest) :
    s.length < (s ++ t).length - rest.length := by
  have := reads_parseRequest.rest_lt h hu
  rw [List.length_append]
  omega

theorem unparsed_append (hu : Unparsed s)
    (h : ∀ head rest, phrParseRequest (s ++ t) s.length ≠ .done head rest) : Unparsed (s ++ t) := by
  intro head rest hp
  apply h head rest
  apply phrParseRequest_of_done hp
  have := reads_parseRequest.rest_lt hp hu
  rw [List.length_append]
  omega

theorem unparsed_of_fail (hu : Unparsed s) (h : phrParseRequest (s ++ t) s.length = .fail)
    (u : Bytes) : Unparsed (s ++ t ++ u) := by
  intro head rest hp
  have hst : Unparsed (s ++ t) := by
    apply unparsed_append hu
    intro head rest hd
    rw [h] at hd
    cases hd
  exact phrParseRequest_ne_fail hp hst h

end Parsing

/-- The head of `n` bytes was read from the stream, and the buffer holds it. Beside the buffer, the
turn is where it was. -/
structure HeadRead (i : Incoming) (stream : Bytes) (head : PhrRequest) (n : Nat) (j : Incoming) :
    Prop where
  parsed : parseRequest stream = .done head (stream.drop n)
  le : n ≤ j.readBuf.length
  stream : j.readBuf ++ j.inbox.flatten = stream
  bufUsed : j.bufUsed = j.readBuf.length
  same : j = { i with inbox := j.inbox, readBuf := j.readBuf, bufUsed := j.bufUsed }

/-- What a read of at most `cap` bytes leaves. -/
structure Got (i : Incoming) (cap : Nat) (got : Bytes) (j : Incoming) : Prop where
  read : readSome cap i.inbox = some (got, j.inbox)
  pos : 0 < got.length
  le : got.length ≤ cap
  split : i.inbox.flatten = got ++ j.inbox.flatten
  same : j = { i with inbox := j.inbox }

theorem stands_asyncReadSome (hc : 0 < cap) :
    Triple (Stands X i l) (asyncReadSome cap) (fun got c => ∃ j, Got i cap got j ∧ Stands X j l c)
      (fun _ c => i.inbox.flatten = [] ∧ c.toIncoming = { i with inbox := [] } ∧
        (X ∨ c.broken = false)) := by
  rintro c ⟨rfl, hl, hb⟩
  rw [asyncReadSome, exec_of]
  dsimp only
  cases hr : readSome cap c.inbox with
  | none => exact ⟨readSome_none hr, rfl, hb⟩
  | some r =>
    obtain ⟨hpos, hle⟩ := readSome_length hr hc
    exact ⟨{ c.toIncoming with inbox := r.2 }, ⟨hr, hpos, hle, readSome_flatten hr, rfl⟩, rfl, hl,
      hb⟩

/-- What stands in the buffer after such a read has been appended to it. -/
structure Refilled (i : Incoming) (cap : Nat) (got : Bytes) (j : Incoming) : Prop where
  pos : 0 < got.length
  le : got.length ≤ cap
  readBuf : j.readBuf = i.readBuf ++ got
  split : i.inbox.flatten = got ++ j.inbox.flatten
  bufUsed : j.bufUsed = j.readBuf.length
  same : j = { i with inbox := j.inbox, readBuf := j.readBuf, bufUsed := j.bufUsed }

theorem Got.refilled (h : Got i cap got j) :
    Refilled i cap got
      { j with readBuf := i.readBuf ++ got, bufUsed := (i.readBuf ++ got).length } := by
  refine ⟨h.pos, h.le, rfl, h.split, rfl, ?_⟩
  rw [h.same]

theorem Refilled.stream (h : Refilled i cap got j) :
    j.readBuf ++ j.inbox.flatten = i.readBuf ++ i.inbox.flatten := by
  rw [h.readBuf, h.split, List.append_assoc]

theorem HeadRead.of_refilled (h : Refilled i cap got j)
    (hp : parseRequest j.readBuf = .done head rest) :
    HeadRead i (j.readBuf ++ j.inbox.flatten) head (j.readBuf.length - rest.length) j :=
  ⟨parseRequest_append_drop hp _, Nat.sub_le _ _, rfl, h.bufUsed, h.same⟩

theorem HeadRead.trans (hk : HeadRead j s head n k) (h : Refilled i cap got j) :
    HeadRead i s head n k := by
  refine ⟨hk.parsed, hk.le, hk.stream, hk.bufUsed, ?_⟩
  rw [hk.same, h.same]

section Stage
variable (w : World) {X : Prop} (hX : X ∨ w.Takes) (maxHeaderSize : Nat)

def wire431 : Bytes :=
  rawWire 431 (bytes "Request Header Fields Too Large") (bytes "Request header too large")

/-- How stage A ends on a stream: with its head, or given up because the head is too long; a stream
without a head may end otherwise. The bound `B` is on what the buffer holds behind the head. -/
def StageA (X : Prop) (i : Incoming) (l : List Bytes) (stream : Bytes) (B : Nat → Nat → Prop) :
    Option (PhrRequest × Nat) → Conn → Prop
  | some (head, n), c => ∃ j, Stands X j l c ∧ HeadRead i stream head n j ∧ B n j.readBuf.length
  | none, c => ∀ head rest, parseRequest stream = .done head rest →
      maxHeaderSize < stream.length - rest.length ∧ c.log = l ++ [wire431]

theorem StageA.trans (hr : StageA maxHeaderSize X j l stream B r c) (hj : Refilled i cap got j)
    (hB : ∀ n len, B n len → B' n len) : StageA maxHeaderSize X i l stream B' r c := by
  cases r with
  | none => exact hr
  | some r =>
    obtain ⟨k, hs, hk, hb⟩ := hr
    exact ⟨k, hs, hk.trans hj, hB _ _ hb⟩

/-- Stage A throws when the peer closes within a head, or because a write fails. -/
def StageAFails (X : Prop) (stream : Bytes) : Prop := X ∨ Unparsed stream

include hX

theorem stands_refuse (code : Nat) (reason body : Bytes) :
    Triple (Stands X i l) (refuse w code reason body : Eff Conn Exn (Option α))
      (fun r c => r = none ∧ Stands X i (l ++ [rawWire code reason body]) c)
      (fun _ c => X ∧ c.toIncoming = i) := by
  apply (sends_flushResponseBatch w hX i l).bind
  intro _
  rw [List.append_nil]
  apply (sends_sendRawResponse w hX code reason body i l).bind
  intro _
  exact Triple.pure _ fun _ h => ⟨rfl, h⟩

theorem stageA_tooLarge (h : ∀ head rest, parseRequest stream = .done head rest →
      maxHeaderSize < stream.length - rest.length) :
    Triple (Stands X i l) (refuseTooLarge w) (StageA maxHeaderSize X i₀ l stream B)
      (fun _ _ => StageAFails X stream) := by
  apply (stands_refuse w hX _ _ _).conseq (fun _ => id)
  · rintro r c ⟨rfl, hc⟩ head rest hp
    exact ⟨h head rest hp, hc.log⟩
  · exact fun _ _ h => .inl h.1

theorem stageA_malformed (h : Unparsed stream) :
    Triple (Stands X i l) (refuseMalformed w) (StageA maxHeaderSize X i₀ l stream B)
      (fun _ _ => StageAFails X stream) := by
  apply (stands_refuse w hX _ _ _).conseq (fun _ => id)
  · rintro r c ⟨rfl, hc⟩ head rest hp
    exact absurd hp (h head rest)
  · exact fun _ _ h => .inl h.1

/-- The room that the buffer leaves behind a head. -/
def Roomy (size len n len' : Nat) : Prop :=
  n ≤ maxHeaderSize ∧ (size ≤ maxHeaderSize + 14 ∨ size ≤ maxHeaderSize + len →
    len' - n ≤ maxHeaderSize)

theorem stageA_readHeadLoop (rounds size : Nat) (i : Incoming) (hu : Unparsed i.readBuf)
    (hr : i.inbox.flatten.length < rounds) (hsize : i.readBuf.length ≤ size) (hpos : 0 < size) :
    Triple (Stands X i l) (readHeadLoop w maxHeaderSize rounds size i.readBuf.length)
      (StageA maxHeaderSize X i l (i.readBuf ++ i.inbox.flatten)
        (Roomy maxHeaderSize size i.readBuf.length))
      (fun _ _ => StageAFails X (i.readBuf ++ i.inbox.flatten)) := by
  induction rounds generalizing size i with
  | zero => exact absurd hr (Nat.not_lt_zero _)
  | succ rounds ih =>
    rw [readHeadLoop]
    apply Triple.get_bind
    intro c hc
    have hbuf : c.readBuf = i.readBuf := congrArg Incoming.readBuf hc.incoming
    have hpre : ∀ s, s = c → Stands X i l s := fun s hs => hs ▸ hc
    rw [hbuf]
    split
    · next hfull =>
      apply (stageA_tooLarge w hX maxHeaderSize _).pre hpre
      intro head rest hp
      have := length_lt_of_unparsed hu hp
      omega
    · next hfull =>
      dsimp only
      generalize hsize' : (if size ≤ i.readBuf.length then size * 2 else size) = size'
      have hroom : i.readBuf.length < size' := by
        split at hsize' <;> omega
      apply (sends_flushResponseBatch w hX).triple_bind hpre fun _ _ hx _ => .inl hx
      intro _
      apply Triple.bind (Q := fun got c => ∃ j, Got i (size' - i.readBuf.length) got j ∧ Stands X j l c)
      · apply (stands_asyncReadSome (by omega)).conseq (fun _ => id) (fun _ _ => id)
        rintro e c ⟨hend, -⟩
        rw [hend, List.append_nil]
        exact .inr hu
      · intro got
        apply Triple.bind (Q := fun _ c => ∃ j, Refilled i (size' - i.readBuf.length) got j ∧
          Stands X j l c)
        · apply Triple.modify
          rintro c ⟨j, hg, hs⟩
          refine ⟨_, hg.refilled, ?_, hs.log, hs.sound⟩
          rw [← hs.incoming]
        · intro _
          apply Triple.exists_pre
          intro j
          apply Triple.and_pre
          intro hj
          have hlen := congrArg List.length hj.readBuf
          rw [List.length_append] at hlen
          have := hj.pos
          have := hj.le
          rw [← hj.stream, ← hj.readBuf]
          have hstream : ∀ head rest, parseRequest (j.readBuf ++ j.inbox.flatten) = .done head rest →
              i.readBuf.length < (j.readBuf ++ j.inbox.flatten).length - rest.length := by
            rw [hj.stream]
            exact fun _ _ => length_lt_of_unparsed hu
          split
          · next head rest hp =>
            have hp := phrParseRequest_done hp
            have hn := parseRequest_append_drop hp j.inbox.flatten
            have h14 := (drop_of_done hp).2
            split
            · next hlt =>
              apply stageA_tooLarge w hX
              intro head' rest' hp'
              rw [hn] at hp'
              cases hp'
              simp only [List.length_drop, List.length_append]
              omega
            · next hle =>
              apply Triple.pure
              intro c hs
              refine ⟨j, hs, .of_refilled hj hp, Nat.le_of_not_lt hle, ?_⟩
              intro hroomy
              have := hstream _ _ hn
              simp only [List.length_drop, List.length_append] at this
              split at hsize' <;> omega
          · next hf =>
            apply stageA_malformed w hX
            rw [hj.readBuf] at hf ⊢
            exact unparsed_of_fail hu hf _
          · next hm =>
            have hj' : Unparsed j.readBuf := by
              rw [hj.readBuf] at hm ⊢
              apply unparsed_append hu
              intro head rest hd
              rw [hm] at hd
              cases hd
            split
            · next hlt =>
              apply stageA_tooLarge w hX
              intro head rest hp
              have := length_lt_of_unparsed hj' hp
              omega
            · next hle =>
              have hin := congrArg List.length hj.split
              rw [List.length_append] at hin
              apply (ih size' j hj' (by omega) (by omega) (by omega)).conseq (fun _ => id)
              · intro r c hr
                apply hr.trans _ hj
                rintro n len ⟨hn, hlen'⟩
                refine ⟨hn, fun hroomy => hlen' ?_⟩
                split at hsize' <;> omega
              · exact fun _ _ => id

omit hX in
/-- The first bytes of a turn: what the last turn left over, or else a small read. -/
structure First (i : Incoming) (size : Nat) (j : Incoming) : Prop where
  stream : j.readBuf ++ j.inbox.flatten = i.pending
  bufUsed : j.bufUsed = j.readBuf.length
  capacity : size = max j.readBuf.length kBufferSize
  first : j.readBuf = i.pipelineSpill ∨ i.pipelineSpill = [] ∧ j.readBuf.length ≤ 256
  same : j = { i with
    inbox := j.inbox, readBuf := j.readBuf, bufUsed := j.bufUsed, pipelineSpill := [] }

theorem stands_fillFirst (i : Incoming) :
    Triple (Stands X i l) (fillFirst w) (fun size c => ∃ j, First i size j ∧ Stands X j l c)
      (fun _ _ => StageAFails X i.pending) := by
  apply Triple.get_bind
  intro c hc
  have hpre : ∀ s, s = c → Stands X i l s := fun s hs => hs ▸ hc
  have hspill : c.pipelineSpill = i.pipelineSpill := congrArg Incoming.pipelineSpill hc.incoming
  rw [hspill]
  split
  · next hempty =>
    apply (sends_flushResponseBatch w hX).triple_bind hpre fun _ _ hx _ => .inl hx
    intro _
    apply Triple.bind (Q := fun got c => ∃ j, Got i 256 got j ∧ Stands X j l c)
    · apply (stands_asyncReadSome (by decide)).conseq (fun _ => id) (fun _ _ => id)
      rintro e c ⟨hend, -⟩
      refine .inr ?_
      rw [Incoming.pending, hempty, hend]
      exact nofun
    · intro got
      apply Triple.bind (Q := fun _ c => ∃ j, First i kBufferSize j ∧ Stands X j l c)
      · apply Triple.modify
        rintro c ⟨j, hg, hs⟩
        have := hg.le
        refine ⟨{ j with readBuf := got, bufUsed := got.length }, ?_, ?_⟩
        · refine ⟨?_, rfl, ?_, .inr ⟨hempty, hg.le⟩, ?_⟩
          · rw [Incoming.pending, hempty, hg.split]
            rfl
          · rw [kBufferSize]
            dsimp only
            omega
          · rw [hg.same]
            simp only [hempty]
        · refine ⟨?_, hs.log, hs.sound⟩
          rw [← hs.incoming]
      · intro _
        exact Triple.pure _ fun _ h => h
  · apply Triple.bind (Q := fun _ c => ∃ j, First i (max i.pipelineSpill.length kBufferSize) j ∧
      Stands X j l c)
    · apply Triple.modify
      rintro s rfl
      refine ⟨_, ?_, rfl, hc.log, hc.sound⟩
      rw [← hspill]
      refine ⟨?_, rfl, rfl, .inl hspill, ?_⟩
      · rw [← hc.incoming]
        rfl
      · rw [← hc.incoming]
    · intro _
      exact Triple.pure _ fun _ h => h

omit hX in
/-- What was left over is no longer than a head may be, or it starts with a whole head that may be so
long and is followed by no more. -/
def SpillFits (spill : Bytes) : Prop :=
  spill.length ≤ maxHeaderSize ∨ ∃ head rest, parseRequest spill = .done head rest ∧
    spill.length - rest.length ≤ maxHeaderSize ∧ rest.length ≤ maxHeaderSize

omit hX in
/-- Neither the head nor what the buffer holds behind it is longer than a head may be. -/
def HeadFits (spill : Bytes) (n len : Nat) : Prop :=
  8178 ≤ maxHeaderSize → SpillFits maxHeaderSize spill → n ≤ maxHeaderSize ∧ len - n ≤ maxHeaderSize

omit hX in
theorem First.headFits (hj : First i size j) (hp : parseRequest j.readBuf = .done head rest) :
    HeadFits maxHeaderSize i.pipelineSpill (j.readBuf.length - rest.length) j.readBuf.length := by
  intro hmax hspill
  have := (drop_of_done hp).2
  rcases hj.first with hs | ⟨-, hlen⟩
  · rw [← hs] at hspill
    rcases hspill with hle | ⟨head', rest', hp', hn, hrest⟩
    · omega
    · rw [hp] at hp'
      cases hp'
      omega
  · omega

omit hX in
theorem First.headFits_of_roomy (hj : First i size j) (hu : Unparsed j.readBuf)
    (hr : Roomy maxHeaderSize size j.readBuf.length n len) :
    HeadFits maxHeaderSize i.pipelineSpill n len := by
  intro hmax hspill
  have hle : j.readBuf.length ≤ maxHeaderSize := by
    rcases hj.first with hs | ⟨-, hlen⟩
    · rw [← hs] at hspill
      rcases hspill with hle | ⟨head, rest, hp, -⟩
      · exact hle
      · exact absurd hp (hu head rest)
    · omega
  refine ⟨hr.1, hr.2 ?_⟩
  rw [hj.capacity, kBufferSize]
  omega

/-- Stage A on a connection finds the head of what is pending, or gives up when that head is too
long; the rest of the turn is as before. -/
theorem stageA_readHead (i : Incoming) :
    Triple (Stands X i l) (readHead w maxHeaderSize)
      (StageA maxHeaderSize X { i with pipelineSpill := [] } l i.pending
        (HeadFits maxHeaderSize i.pipelineSpill))
      (fun _ _ => StageAFails X i.pending) := by
  apply (stands_fillFirst w hX i).bind
  intro size
  apply Triple.exists_pre
  intro j
  apply Triple.and_pre
  intro hj
  apply Triple.get_bind
  intro c hc
  have hpre : ∀ s, s = c → Stands X j l s := fun s hs => hs ▸ hc
  have hbuf : c.readBuf = j.readBuf := congrArg Incoming.readBuf hc.incoming
  have hin : c.inbox = j.inbox := congrArg Incoming.inbox hc.incoming
  have hzero : phrParseRequest j.readBuf 0 = parseRequest j.readBuf := if_pos rfl
  rw [hbuf, hin, hzero, ← hj.stream]
  cases hp : parseRequest j.readBuf with
  | done head rest =>
    apply Triple.pure
    intro s hs
    refine ⟨j, hpre s hs, ⟨parseRequest_append_drop hp _, Nat.sub_le _ _, rfl, hj.bufUsed, ?_⟩,
      hj.headFits maxHeaderSize hp⟩
    rw [hj.same]
  | fail =>
    apply (stageA_malformed w hX _ _).pre hpre
    intro head rest hd
    rw [reads_parseRequest.fail _ _ hp] at hd
    cases hd
  | more =>
    have hu : Unparsed j.readBuf := by
      intro head rest hd
      rw [hp] at hd
      cases hd
    have hle : j.readBuf.length ≤ size := hj.capacity ▸ Nat.le_max_left _ _
    have hpos : 0 < size := by
      rw [hj.capacity, kBufferSize]
      omega
    apply (stageA_readHeadLoop w hX maxHeaderSize _ size j hu (Nat.lt_succ_self _) hle hpos).conseq
      hpre
    · intro r c hr
      cases r with
      | none => exact hr
      | some r =>
        obtain ⟨k, hs, hk, hb⟩ := hr
        refine ⟨k, hs, ⟨hk.parsed, hk.le, hk.stream, hk.bufUsed, ?_⟩,
          hj.headFits_of_roomy maxHeaderSize hu hb⟩
        rw [hk.same, hj.same]
    · exact fun _ _ => id

omit hX in
theorem readHead_ok (h : (readHead w maxHeaderSize).exec c = (.ok r, c')) :
    StageA maxHeaderSize True { c.toIncoming with pipelineSpill := [] } c.log c.pending
      (HeadFits maxHeaderSize c.pipelineSpill) r c' :=
  (stageA_readHead w (.inl trivial) maxHeaderSize c.toIncoming).ok ⟨rfl, rfl, .inl trivial⟩ h

end Stage

end Hical
