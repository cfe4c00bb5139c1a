import Hical.Session.BodySteps
import Hical.Session.Run

namespace Hical
open Effect Parse

/-- In a turn with the buffer `buf` and a head of `n` bytes: what is or will be left over is the whole
buffer, a part of it behind the head, or no longer than a part of it or a read. -/
structure SpillBound (buf : Bytes) (n : Nat) (i : Incoming) : Prop where
  readBuf : i.readBuf = buf
  spill : i.pipelineSpill.length ≤ max (buf.length - n) 4096
  src : i.bufUsed = 0 ∨ i.spillSrc = 0 ∧ i.bufUsed = buf.length ∨ n ≤ i.spillSrc

theorem bodyClosed_spillBound (buf : Bytes) (f : Framing) :
    BodyClosed f (max (buf.length - f.headerBytes) 4096) (SpillBound buf f.headerBytes) where
  inbox _ _ h := ⟨h.readBuf, h.spill, h.src⟩
  copied i h := by
    refine ⟨h.readBuf, h.spill, ?_⟩
    dsimp only
    split
    · exact .inr (.inr (Nat.le_add_right _ _))
    · exact .inl (by omega)
  dropped _ h := ⟨h.readBuf, h.spill, .inl rfl⟩
  buffered i h := by
    rw [h.readBuf, List.length_drop]
    exact Nat.le_max_left _ _
  read := Nat.le_max_right _ _
  spilled i rest body h hrest := by
    refine ⟨h.readBuf, ?_, h.src⟩
    dsimp only
    split
    · exact hrest
    · exact h.spill
  stored _ _ h := ⟨h.readBuf, h.spill, h.src⟩
  skipped _ h := ⟨h.readBuf, h.spill, .inr (.inr (Nat.le_refl _))⟩
  asked _ h := ⟨h.readBuf, h.spill, h.src⟩

section Turn
variable {υ : Type} (srv : Server υ) (w : World)

theorem SpillBound.fits (h : SpillBound buf n i) (hp : parseRequest buf = .done head (buf.drop n))
    (hmax : 8178 ≤ maxHeaderSize) (hn : n ≤ maxHeaderSize) (hrest : buf.length - n ≤ maxHeaderSize) :
    SpillFits maxHeaderSize i.spilled.pipelineSpill := by
  have h14 := (drop_of_done hp).2
  rw [List.length_drop] at h14
  have hspill := h.spill
  rw [Incoming.spilled]
  split
  · next hpos =>
    dsimp only
    rw [h.readBuf]
    rcases h.src with h0 | ⟨hs, hu⟩ | hs
    · omega
    · right
      rw [hs, hu, List.drop_zero, List.take_length]
      refine ⟨head, buf.drop n, hp, ?_, ?_⟩
      · rw [List.length_drop]
        omega
      · rwa [List.length_drop]
    · left
      rw [List.length_take, List.length_drop]
      omega
  · left
    omega

theorem Served.headRead (h : Served srv w s head n c res t s') :
    HeadRead { (startTurn s.2).toIncoming with pipelineSpill := [] } s.2.pending head n
      c.toIncoming ∧ HeadFits srv.maxHeaderSize s.2.pipelineSpill n c.readBuf.length := by
  obtain ⟨j, hs, hj, hf⟩ := readHead_ok w srv.maxHeaderSize h.read
  rw [← hs.incoming] at hj hf
  exact ⟨hj, hf⟩

theorem spillFits_turn (hmax : 8178 ≤ srv.maxHeaderSize)
    (hs : SpillFits srv.maxHeaderSize s.2.pipelineSpill)
    (h : (turn srv w).exec s = (.ok .goOn, s')) :
    SpillFits srv.maxHeaderSize s'.2.pipelineSpill := by
  obtain ⟨head, n, c, res, t, h⟩ := turn_goOn srv w h
  obtain ⟨hj, hf⟩ := h.headRead
  obtain ⟨hn, hrest⟩ := hf hmax hs
  have hsame := hj.same
  have hstart : SpillBound c.readBuf n c.toIncoming := by
    refine ⟨rfl, ?_, .inr (.inl ⟨?_, hj.bufUsed⟩)⟩
    · rw [hsame]
      exact Nat.zero_le _
    · rw [hsame]
      rfl
  have hkeep := keeps_runMainChain srv w (J := Sound True (SpillBound c.readBuf n))
    (fun _ _ h => ⟨⟨h.1.readBuf, h.1.spill, h.1.src⟩, h.2⟩)
    (closed_readRequestBody w (.inl trivial) srv.maxBodySize
      (bodyClosed_spillBound c.readBuf (framingOf head n))) (resolve srv head)
    ((s.1, routedRequest srv head), c) ⟨hstart, .inl trivial⟩
  rw [h.chain] at hkeep
  have hp := hj.parsed
  rw [← hj.stream] at hp
  rw [h.incoming]
  exact hkeep.1.fits (parseRequest_of_append_drop hp hj.le) hmax hn hrest

theorem spillFits_reaches (hmax : 8178 ≤ srv.maxHeaderSize)
    (h : Reaches srv w (u, { inbox := inbox }) s) :
    SpillFits srv.maxHeaderSize s.2.pipelineSpill := by
  induction h with
  | start => exact .inl (Nat.zero_le _)
  | turn _ hs ih => exact spillFits_turn srv w hmax ih hs

end Turn

/-- Stage A treats a head by its length alone, wherever its bytes come from: it goes on with a head
within the limit and answers a longer one with 431. -/
def LimitsHeads (maxHeaderSize : Nat) : Prop :=
  ∀ (υ : Type) (srv : Server υ) (w : World) (u : υ) (inbox : List Bytes) (s : υ × Conn),
    srv.maxHeaderSize = maxHeaderSize → Reaches srv w (u, { inbox := inbox }) s →
    ∀ head rest r c, parseRequest s.2.pending = .done head rest →
      (readHead w maxHeaderSize).exec (startTurn s.2) = (.ok r, c) →
      (s.2.pending.length - rest.length ≤ maxHeaderSize →
        r = some (head, s.2.pending.length - rest.length)) ∧
      (maxHeaderSize < s.2.pending.length - rest.length →
        r = none ∧ c.log = s.2.log ++ [wire431])

theorem limitsHeads_of_le (hmax : 8178 ≤ maxHeaderSize) : LimitsHeads maxHeaderSize := by
  rintro υ srv w u inbox s rfl hs head rest r c hp hr
  have hfits := spillFits_reaches srv w hmax hs
  have hA := readHead_ok w srv.maxHeaderSize hr
  cases r with
  | none =>
    obtain ⟨hlt, hlog⟩ := hA head rest hp
    refine ⟨fun hle => ?_, fun _ => ⟨rfl, hlog⟩⟩
    exact absurd hlt (Nat.not_lt_of_le hle)
  | some r =>
    obtain ⟨j, -, hj, hf⟩ := hA
    have hparsed := hj.parsed
    have hle := hj.le
    have hlen := congrArg List.length hj.stream
    rw [List.length_append] at hlen
    rw [show (startTurn s.2).pending = s.2.pending from rfl] at hparsed hlen
    rw [hp] at hparsed
    cases hparsed
    rw [List.length_drop]
    have hn : s.2.pending.length - (s.2.pending.length - r.2) = r.2 := by omega
    rw [hn]
    refine ⟨fun _ => rfl, fun hlt => ?_⟩
    exact absurd hlt (Nat.not_lt_of_le (hf hmax hfits).1)

end Hical
