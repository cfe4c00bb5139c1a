import Hical.Bytes
import Hical.Lib.Transducer

namespace Hical
open Transducer

inductive ChunkState where
  | inChunkSize
  | inChunkExt
  | inChunkHeaderExpectLf
  | inChunkData
  | inChunkDataExpectCr
  | inChunkDataExpectLf
  | inTrailersLineHead
  | inTrailersLineMiddle
  deriving DecidableEq, Repr

/-- The part of the decoder that the loop over the bytes works on. -/
structure ChunkCursor where
  bytesLeftInChunk : Nat
  hexCount : Nat
  state : ChunkState
  deriving DecidableEq, Repr

/-- `struct phr_chunked_decoder`. -/
structure PhrChunkedDecoder where
  cursor : ChunkCursor
  consumeTrailer : Bool
  totalRead : Nat
  totalOverhead : Nat
  deriving DecidableEq, Repr

def ChunkCursor.start : ChunkCursor := ⟨0, 0, .inChunkSize⟩

def PhrChunkedDecoder.zeroed : PhrChunkedDecoder := ⟨.start, false, 0, 0⟩

def endsChunkSize (b : UInt8) : Bool :=
  b == SP || b == HT || b == 59 || b == LF || b == CR

def feedChunkExt (c : ChunkCursor) (b : UInt8) : Move ChunkCursor UInt8 :=
  if b = CR then .go { c with state := .inChunkHeaderExpectLf } []
  else if b = LF then .fail
  else .go { c with state := .inChunkExt } []

def feedDataExpectCr (c : ChunkCursor) (b : UInt8) : Move ChunkCursor UInt8 :=
  if b = CR then .go { c with state := .inChunkDataExpectLf } [] else .fail

/-- One byte through the state machine of `phr_decode_chunked`. -/
def feed (consumeTrailer : Bool) (c : ChunkCursor) (b : UInt8) : Move ChunkCursor UInt8 :=
  match c.state with
  | .inChunkSize =>
    match hexDigit b with
    | some v =>
      if c.hexCount = 16 then .fail
      else .go ⟨c.bytesLeftInChunk * 16 + v, c.hexCount + 1, .inChunkSize⟩ []
    | none =>
      if c.hexCount = 0 then .fail
      else if endsChunkSize b then feedChunkExt { c with hexCount := 0 } b
      else .fail
  | .inChunkExt => feedChunkExt c b
  | .inChunkHeaderExpectLf =>
    if b ≠ LF then .fail
    else if c.bytesLeftInChunk = 0 then
      if consumeTrailer then .go { c with state := .inTrailersLineHead } [] else .stop
    else .go { c with state := .inChunkData } []
  | .inChunkData =>
    match c.bytesLeftInChunk with
    | 0 => feedDataExpectCr c b
    | left + 1 =>
      .go ⟨left, c.hexCount, if left = 0 then .inChunkDataExpectCr else .inChunkData⟩ [b]
  | .inChunkDataExpectCr => feedDataExpectCr c b
  | .inChunkDataExpectLf => if b = LF then .go { c with state := .inChunkSize } [] else .fail
  | .inTrailersLineHead =>
    if b = CR then .go c []
    else if b = LF then .stop
    else .go { c with state := .inTrailersLineMiddle } []
  | .inTrailersLineMiddle => if b = LF then .go { c with state := .inTrailersLineHead } [] else .go c []

/-- The framing overhead that is taken for an attack. -/
def overheadExceeded (totalRead totalOverhead : Nat) : Prop :=
  100 * 1024 ≤ totalOverhead ∧ totalRead - totalOverhead < totalRead / 4

instance : DecidablePred (overheadExceeded n) := fun _ => inferInstanceAs (Decidable (_ ∧ _))

def phrDecodeChunked (d : PhrChunkedDecoder) (buf : Bytes) :
    PhrChunkedDecoder × Bytes × Ending UInt8 :=
  let r := run (feed d.consumeTrailer) d.cursor buf
  let totalRead := d.totalRead + buf.length
  match r.ending with
  | .incomplete =>
    let totalOverhead := d.totalOverhead + (buf.length - r.out.length)
    (⟨r.state, d.consumeTrailer, totalRead, totalOverhead⟩, r.out,
      if overheadExceeded totalRead totalOverhead then .failed else .incomplete)
  | ending => (⟨r.state, d.consumeTrailer, totalRead, d.totalOverhead⟩, r.out, ending)

theorem phrDecodeChunked_complete (h : (phrDecodeChunked d buf).2.2 = .complete rest) :
    (run (feed d.consumeTrailer) d.cursor buf).ending = .complete rest := by
  rw [phrDecodeChunked] at h
  dsimp only at h
  split at h
  · dsimp only at h
    split at h
    · cases h
    · cases h
  · exact h

theorem phrDecodeChunked_rest_length (h : (phrDecodeChunked d buf).2.2 = .complete rest) :
    rest.length ≤ buf.length := by
  obtain ⟨c, rfl, -⟩ := run_complete_suffix (phrDecodeChunked_complete h)
  rw [List.length_append]
  exact Nat.le_add_left _ _

section Resumed

theorem length_feed_le (h : feed t c b = .go c' out) : out.length ≤ 1 := by
  grind [feed, feedChunkExt, feedDataExpectCr]

def decoded (s : Bytes) : Run ChunkCursor UInt8 UInt8 := run (feed false) .start s

/-- The input stops within a body, with more framing than the decoder puts up with. -/
def Heavy (s : Bytes) : Prop :=
  (decoded s).ending = .incomplete ∧
    overheadExceeded s.length (s.length - (decoded s).out.length)

/-- The decoder has taken `s` and asks for more. -/
structure Resumes (d : PhrChunkedDecoder) (s : Bytes) : Prop where
  flag : d.consumeTrailer = false
  cursor : (decoded s).state = d.cursor
  ending : (decoded s).ending = .incomplete
  read : d.totalRead = s.length
  overhead : d.totalOverhead = s.length - (decoded s).out.length

theorem resumes_zeroed : Resumes .zeroed [] := ⟨rfl, rfl, rfl, rfl, rfl⟩

theorem decoded_append (h : Resumes d s) (buf : Bytes) :
    decoded (s ++ buf) = (run (feed d.consumeTrailer) d.cursor buf).after (decoded s).out := by
  rw [h.flag, ← h.cursor]
  exact run_append_incomplete h.ending buf

theorem phrDecodeChunked_out (h : Resumes d s) (buf : Bytes) :
    (decoded (s ++ buf)).out = (decoded s).out ++ (phrDecodeChunked d buf).2.1 := by
  rw [decoded_append h, phrDecodeChunked]
  dsimp only
  split
  · rfl
  · rfl

/-- A call with more input ends as the decoder on the whole input does, unless that is incomplete and
too much of it is framing. -/
theorem phrDecodeChunked_resumes (h : Resumes d s) (buf : Bytes) :
    match (phrDecodeChunked d buf).2.2 with
    | .complete rest => (decoded (s ++ buf)).ending = .complete rest
    | .failed => (decoded (s ++ buf)).ending = .failed ∨ Heavy (s ++ buf)
    | .incomplete => Resumes (phrDecodeChunked d buf).1 (s ++ buf) ∧ ¬Heavy (s ++ buf) := by
  have happ := decoded_append h buf
  have hending := congrArg Run.ending happ
  have hstate := congrArg Run.state happ
  have hout := congrArg (fun r => r.out.length) happ
  have hle : (decoded s).out.length ≤ s.length := length_out_le (fun _ _ _ _ => length_feed_le) _ _
  have hle' : (run (feed d.consumeTrailer) d.cursor buf).out.length ≤ buf.length :=
    length_out_le (fun _ _ _ _ => length_feed_le) _ _
  simp only [Run.after, List.length_append] at hending hstate hout
  rw [phrDecodeChunked]
  dsimp only
  cases he : (run (feed d.consumeTrailer) d.cursor buf).ending with
  | complete rest => exact hending.trans he
  | failed => exact .inl (hending.trans he)
  | incomplete =>
    have hread : d.totalRead + buf.length = (s ++ buf).length := by
      rw [h.read, List.length_append]
    have hover : d.totalOverhead +
        (buf.length - (run (feed d.consumeTrailer) d.cursor buf).out.length) =
          (s ++ buf).length - (decoded (s ++ buf)).out.length := by
      rw [h.overhead, hout, List.length_append]
      omega
    simp only [hread, hover]
    split
    · next hx =>
      split at hx
      · cases hx
      · cases hx
    · next hx =>
      split at hx
      · next hh => exact .inr ⟨hending.trans he, hh⟩
      · cases hx
    · next hx =>
      split at hx
      · cases hx
      · next hh => exact ⟨⟨h.flag, hstate, hending.trans he, rfl, rfl⟩, fun hv => hh hv.2⟩

end Resumed

section Grammar

def hexValue (n : Nat) (digits : Bytes) : Nat :=
  digits.foldl (fun n b => n * 16 + (hexDigit b).getD 0) n

def IsHex (s : Bytes) : Prop := s ≠ [] ∧ ∀ b ∈ s, (hexDigit b).isSome

/-- Every extension of a chunk has this form: it starts with a semicolon or blanks, and it stays on
its line. -/
def IsExt (ext : Bytes) : Prop := (∀ b ∈ ext.head?, endsChunkSize b) ∧ CR ∉ ext ∧ LF ∉ ext

theorem isHex_zero : IsHex (bytes "0") := by
  apply And.intro (by decide)
  intro b hb
  rw [List.mem_singleton.1 (show b ∈ [48] from hb)]
  rfl

theorem isExt_nil : IsExt [] := ⟨nofun, List.not_mem_nil, List.not_mem_nil⟩

theorem hexValue_zero : hexValue 0 (bytes "0") = 0 := by decide

/-- A chunk other than the last one. -/
structure Chunk where
  size : Bytes
  ext : Bytes
  data : Bytes
  isHex : IsHex size
  isExt : IsExt ext
  nonempty : data ≠ []
  size_eq : hexValue 0 size = data.length

def Chunk.wire (c : Chunk) : Bytes := c.size ++ c.ext ++ crlf ++ (c.data ++ crlf)

/-- A line of the trailer section without its line end. -/
structure TrailerLine where
  line : Bytes
  nonempty : line ≠ []
  noCr : CR ∉ line
  noLf : LF ∉ line

def TrailerLine.wire (t : TrailerLine) : Bytes := t.line ++ crlf

/-- A chunked body: the chunks, the last chunk and the trailer section. -/
structure ChunkedMessage where
  chunks : List Chunk
  last : Bytes
  lastExt : Bytes
  trailers : List TrailerLine
  isHex : IsHex last
  isExt : IsExt lastExt
  last_eq : hexValue 0 last = 0

namespace ChunkedMessage

def data (m : ChunkedMessage) : Bytes := m.chunks.flatMap Chunk.data

def lastChunk (m : ChunkedMessage) : Bytes := m.last ++ m.lastExt ++ crlf

def trailerSection (m : ChunkedMessage) : Bytes := m.trailers.flatMap TrailerLine.wire

def wire (m : ChunkedMessage) : Bytes :=
  m.chunks.flatMap Chunk.wire ++ (m.lastChunk ++ (m.trailerSection ++ crlf))

/-- The sizes have no more digits than the decoder takes. -/
def SizesFit (m : ChunkedMessage) : Prop :=
  (∀ c ∈ m.chunks, c.size.length ≤ 16) ∧ m.last.length ≤ 16

end ChunkedMessage

end Grammar

section Decode

theorem hexDigit_of_endsChunkSize (h : endsChunkSize b = true) : hexDigit b = none := by
  simp only [endsChunkSize, Bool.or_eq_true, beq_iff_eq] at h
  rcases h with (((rfl | rfl) | rfl) | rfl) | rfl <;> rfl

theorem run_size (digits : Bytes) (hd : ∀ b ∈ digits, (hexDigit b).isSome)
    (hk : k + digits.length ≤ 16) (s : Bytes) :
    run (feed t) ⟨n, k, .inChunkSize⟩ (digits ++ s) =
      run (feed t) ⟨hexValue n digits, k + digits.length, .inChunkSize⟩ s := by
  induction digits generalizing n k with
  | nil => rfl
  | cons b digits ih =>
    obtain ⟨v, hv⟩ := Option.isSome_iff_exists.1 (hd b List.mem_cons_self)
    rw [List.length_cons] at hk
    have hne : k ≠ 16 := by omega
    have hgo : feed t ⟨n, k, .inChunkSize⟩ b = .go ⟨n * 16 + v, k + 1, .inChunkSize⟩ [] := by
      simp only [feed, hv, hne, ↓reduceIte]
    rw [List.cons_append, run_go hgo, after_nil,
      ih (fun x hx => hd x (List.mem_cons_of_mem _ hx)) (by omega)]
    simp only [hexValue, List.foldl_cons, hv, Option.getD_some, List.length_cons]
    rw [Nat.add_right_comm, Nat.add_assoc]

theorem run_size_overflow (digits : Bytes) (hd : ∀ b ∈ digits, (hexDigit b).isSome)
    (hk : k ≤ 16) (hl : 16 < k + digits.length) (s : Bytes) :
    (run (feed t) ⟨n, k, .inChunkSize⟩ (digits ++ s)).out = [] ∧
      (run (feed t) ⟨n, k, .inChunkSize⟩ (digits ++ s)).ending = .failed := by
  induction digits generalizing n k with
  | nil => exact absurd hl (by simp only [List.length_nil]; omega)
  | cons b digits ih =>
    obtain ⟨v, hv⟩ := Option.isSome_iff_exists.1 (hd b List.mem_cons_self)
    rw [List.length_cons] at hl
    by_cases hne : k = 16
    · have hfail : feed t ⟨n, k, .inChunkSize⟩ b = .fail := by
        simp only [feed, hv, hne, ↓reduceIte]
      rw [List.cons_append, run_fail hfail]
      exact ⟨rfl, rfl⟩
    · have hgo : feed t ⟨n, k, .inChunkSize⟩ b = .go ⟨n * 16 + v, k + 1, .inChunkSize⟩ [] := by
        simp only [feed, hv, hne, ↓reduceIte]
      rw [List.cons_append, run_go hgo, after_nil]
      exact ih (fun x hx => hd x (List.mem_cons_of_mem _ hx)) (by omega) (by omega)

theorem run_ext (hc : CR ∉ ext) (hl : LF ∉ ext) (s : Bytes) :
    run (feed t) ⟨n, 0, .inChunkExt⟩ (ext ++ crlf ++ s) =
      run (feed t) ⟨n, 0, .inChunkHeaderExpectLf⟩ (LF :: s) := by
  have hcr : feed t ⟨n, 0, .inChunkExt⟩ CR = .go ⟨n, 0, .inChunkHeaderExpectLf⟩ [] := rfl
  rw [List.append_assoc, run_silent, crlf, List.cons_append, run_go hcr]
  · rfl
  · intro b hb
    have hbc : b ≠ CR := fun h => hc (h ▸ hb)
    have hbl : b ≠ LF := fun h => hl (h ▸ hb)
    simp only [feed, feedChunkExt, hbc, hbl, ↓reduceIte]

theorem run_sizeLine (hs : IsHex size) (hk : size.length ≤ 16) (he : IsExt ext) (s : Bytes) :
    run (feed t) .start (size ++ ext ++ crlf ++ s) =
      run (feed t) ⟨hexValue 0 size, 0, .inChunkHeaderExpectLf⟩ (LF :: s) := by
  have hpos : size.length ≠ 0 := fun h => hs.1 (List.length_eq_zero_iff.1 h)
  rw [ChunkCursor.start, List.append_assoc, List.append_assoc,
    run_size size hs.2 (by omega), Nat.zero_add]
  cases ext with
  | nil =>
    have hgo : feed t ⟨hexValue 0 size, size.length, .inChunkSize⟩ CR =
        .go ⟨hexValue 0 size, 0, .inChunkHeaderExpectLf⟩ [] := by
      simp only [feed, hpos, ↓reduceIte]
      rfl
    rw [List.nil_append, crlf, List.cons_append, run_go hgo]
    rfl
  | cons b ext =>
    have hb : endsChunkSize b = true := he.1 b rfl
    have hh := hexDigit_of_endsChunkSize hb
    have hbc : b ≠ CR := fun h => he.2.1 (h ▸ List.mem_cons_self)
    have hbl : b ≠ LF := fun h => he.2.2 (h ▸ List.mem_cons_self)
    have hgo : feed t ⟨hexValue 0 size, size.length, .inChunkSize⟩ b =
        .go ⟨hexValue 0 size, 0, .inChunkExt⟩ [] := by
      simp only [feed, hh, hpos, hb, feedChunkExt, hbc, hbl, ↓reduceIte]
    rw [List.cons_append, run_go hgo, after_nil, ← List.append_assoc, run_ext]
    · exact fun h => he.2.1 (List.mem_cons_of_mem _ h)
    · exact fun h => he.2.2 (List.mem_cons_of_mem _ h)

theorem run_data (data : Bytes) (hd : data ≠ []) (s : Bytes) :
    run (feed t) ⟨data.length, 0, .inChunkData⟩ (data ++ s) =
      (run (feed t) ⟨0, 0, .inChunkDataExpectCr⟩ s).after data := by
  induction data with
  | nil => exact absurd rfl hd
  | cons b data ih =>
    have hgo : feed t ⟨data.length + 1, 0, .inChunkData⟩ b =
        .go ⟨data.length, 0, if data.length = 0 then .inChunkDataExpectCr else .inChunkData⟩ [b] :=
      rfl
    rw [List.length_cons, List.cons_append, run_go hgo]
    cases data with
    | nil => rfl
    | cons c data =>
      have hne : (c :: data).length ≠ 0 := Nat.succ_ne_zero _
      rw [if_neg hne, ih (List.cons_ne_nil _ _)]
      rfl

theorem run_chunk (c : Chunk) (hk : c.size.length ≤ 16) (s : Bytes) :
    run (feed t) .start (c.wire ++ s) = (run (feed t) .start s).after c.data := by
  have hpos : c.data.length ≠ 0 := fun h => c.nonempty (List.length_eq_zero_iff.1 h)
  have hgo : feed t ⟨c.data.length, 0, .inChunkHeaderExpectLf⟩ LF = .go ⟨c.data.length, 0, .inChunkData⟩ [] := by
    simp only [feed, hpos, ↓reduceIte, ne_eq, not_true_eq_false]
  rw [Chunk.wire, List.append_assoc, run_sizeLine c.isHex hk c.isExt, c.size_eq, run_go hgo, after_nil,
    List.append_assoc, run_data _ c.nonempty]
  rfl

theorem run_chunks (cs : List Chunk) (hk : ∀ c ∈ cs, c.size.length ≤ 16) (s : Bytes) :
    run (feed t) .start (cs.flatMap Chunk.wire ++ s) =
      (run (feed t) .start s).after (cs.flatMap Chunk.data) := by
  induction cs with
  | nil => rfl
  | cons c cs ih =>
    rw [List.flatMap_cons, List.flatMap_cons, List.append_assoc,
      run_chunk c (hk c List.mem_cons_self), ih fun x hx => hk x (List.mem_cons_of_mem _ hx),
      after_append]

/-- The decoder as the session starts it stops behind the last chunk, in front of the trailer
section. -/
theorem run_message (m : ChunkedMessage) (hm : m.SizesFit) (rest : Bytes) :
    ∃ s, run (feed false) .start (m.wire ++ rest) =
      ⟨s, m.data, .complete (m.trailerSection ++ crlf ++ rest)⟩ := by
  refine ⟨⟨0, 0, .inChunkHeaderExpectLf⟩, ?_⟩
  rw [ChunkedMessage.wire, List.append_assoc, run_chunks m.chunks hm.1, ChunkedMessage.lastChunk,
    List.append_assoc, run_sizeLine m.isHex hm.2 m.isExt, m.last_eq]
  have hstop : feed false ⟨0, 0, .inChunkHeaderExpectLf⟩ LF = .stop := rfl
  rw [run_stop hstop]
  simp only [Run.after, List.append_nil]
  rfl

theorem run_sizeLine_overflow (hs : IsHex size) (hk : ¬size.length ≤ 16) (s : Bytes) :
    (run (feed t) .start (size ++ s)).ending = .failed :=
  (run_size_overflow size hs.2 (Nat.zero_le _) (by omega) s).2

theorem run_chunks_overflow (cs : List Chunk) (hk : ¬∀ c ∈ cs, c.size.length ≤ 16) (s : Bytes) :
    (run (feed t) .start (cs.flatMap Chunk.wire ++ s)).ending = .failed := by
  induction cs with
  | nil => exact absurd (fun c hc => absurd hc List.not_mem_nil) hk
  | cons c cs ih =>
    rw [List.flatMap_cons, List.append_assoc]
    by_cases hc : c.size.length ≤ 16
    · rw [run_chunk c hc]
      apply ih
      intro h
      apply hk
      intro x hx
      rcases List.mem_cons.1 hx with rfl | hx
      · exact hc
      · exact h x hx
    · rw [Chunk.wire, List.append_assoc, List.append_assoc, List.append_assoc]
      exact run_sizeLine_overflow c.isHex hc _

/-- A size with too many digits is an error, whatever stands around it. -/
theorem run_message_overflow (m : ChunkedMessage) (hm : ¬m.SizesFit) (rest : Bytes) :
    (run (feed false) .start (m.wire ++ rest)).ending = .failed := by
  rw [ChunkedMessage.wire, List.append_assoc]
  by_cases hc : ∀ c ∈ m.chunks, c.size.length ≤ 16
  · rw [run_chunks m.chunks hc, ChunkedMessage.lastChunk]
    simp only [List.append_assoc]
    exact run_sizeLine_overflow m.isHex (fun h => hm ⟨hc, h⟩) _
  · exact run_chunks_overflow m.chunks hc _

end Decode

end Hical
