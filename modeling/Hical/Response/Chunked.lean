import Hical.Message
import Hical.Picohttp.Chunked
import Hical.Picohttp.Request

namespace Hical

namespace ChunkedBody

/-- A body that is still collected, with `finished_`. -/
structure Collected extends ChunkedBody where
  finished : Bool := false

/-- The calls that a handler makes on a body. -/
inductive Call where
  | write (data : Bytes)
  | endWith (trailers : Fields)

namespace Collected

def write (c : Collected) (data : Bytes) : Collected :=
  if c.finished || data.isEmpty then c else { c with chunks := c.chunks ++ [data] }

/-- `end`. -/
def endWith (c : Collected) (trailers : Fields) : Collected :=
  if c.finished then c else { c with finished := true, trailers }

def call (c : Collected) : Call → Collected
  | .write data => c.write data
  | .endWith trailers => c.endWith trailers

end Collected

/-- The body that a sequence of calls leaves. -/
def collect (calls : List Call) : Collected := calls.foldl Collected.call ⟨⟨[], []⟩, false⟩

/-- What is written before the first `end`. -/
def writes : List Call → List Bytes
  | [] => []
  | .write data :: calls => data :: writes calls
  | .endWith _ :: _ => []

/-- The trailers of the first `end`. -/
def ends : List Call → Fields
  | [] => []
  | .write _ :: calls => ends calls
  | .endWith trailers :: _ => trailers

def written (calls : List Call) : Bytes := (writes calls).flatten

end ChunkedBody

def serializeChunkFrame (data : Bytes) : Bytes :=
  if data = [] then bytes "0\r\n\r\n" else hexadecimal data.length ++ crlf ++ data ++ crlf

def serializeTrailerFrame (trailers : Fields) : Bytes :=
  bytes "0\r\n" ++ trailers.flatMap Response.fieldWire ++ crlf

def chunkedBodyWireSize (b : ChunkedBody) : Nat :=
  (b.chunks.map fun c => (hexadecimal c.length).length + 2 + (c.length + 2)).sum + 3 +
    (b.trailers.map fun t => t.name.length + 2 + t.value.length + 2).sum + 2

/-- `field-line` of RFC 9112: a token, a colon and a value without control characters. -/
def isFieldLine (l : Bytes) : Bool :=
  match cut colon l with
  | (_, none) => false
  | (name, some value) => name != [] && name.all tokenChar && value.all fun b => !isCtl b

/-- By the chunked grammar of RFC 9112 the bytes are a whole body with this content. -/
def DecodesTo (wire data : Bytes) : Prop :=
  ∃ m : ChunkedMessage, (∀ t ∈ m.trailers, isFieldLine t.line = true) ∧ m.wire = wire ∧ m.data = data

def Field.text (f : Field) : Bytes := f.name ++ bytes ": " ++ f.value

def Field.WellFormed (f : Field) : Prop := ∀ l ∈ lines f.text, isFieldLine l = true

section Collecting
open ChunkedBody
variable {c : ChunkedBody.Collected} {calls : List Call}

theorem call_finished (hc : c.finished = true) (calls : List Call) : calls.foldl Collected.call c = c := by
  induction calls with
  | nil => rfl
  | cons call calls ih =>
    have hcall : c.call call = c := by
      cases call with
      | write data => rw [Collected.call, Collected.write, hc, Bool.true_or, if_pos rfl]
      | endWith trailers => rw [Collected.call, Collected.endWith, if_pos hc]
    rw [List.foldl_cons, hcall, ih]

theorem foldl_call (hc : c.finished = false) (htrailers : c.trailers = []) (calls : List Call) :
    (calls.foldl Collected.call c).chunks = c.chunks ++ (writes calls).filter (· != []) ∧
      (calls.foldl Collected.call c).trailers = ends calls := by
  induction calls generalizing c with
  | nil => exact ⟨(List.append_nil _).symm, htrailers⟩
  | cons call calls ih =>
    cases call with
    | endWith trailers =>
      have hend : c.call (.endWith trailers) = { c with finished := true, trailers } := by
        rw [Collected.call, Collected.endWith, hc, if_neg Bool.false_ne_true]
      rw [List.foldl_cons, hend, call_finished rfl]
      exact ⟨(List.append_nil _).symm, rfl⟩
    | write data =>
      cases data with
      | nil =>
        have hwrite : c.call (.write []) = c := by
          rw [Collected.call, Collected.write, List.isEmpty_nil, Bool.or_true, if_pos rfl]
        rw [List.foldl_cons, hwrite]
        exact ih hc htrailers
      | cons b data =>
        have hwrite : c.call (.write (b :: data)) = { c with chunks := c.chunks ++ [b :: data] } := by
          apply if_neg
          rw [hc]
          exact Bool.false_ne_true
        obtain ⟨hchunks, hends⟩ := ih (c := { c with chunks := c.chunks ++ [b :: data] }) hc htrailers
        rw [List.foldl_cons, hwrite, hchunks, hends]
        exact ⟨List.append_assoc .., rfl⟩

theorem collect_chunks (calls : List Call) : (collect calls).chunks = (writes calls).filter (· != []) :=
  (foldl_call rfl rfl calls).1

theorem collect_trailers (calls : List Call) : (collect calls).trailers = ends calls :=
  (foldl_call rfl rfl calls).2

theorem chunk_ne_nil (calls : List Call) : ∀ d ∈ (collect calls).chunks, d ≠ [] := by
  intro d hd
  rw [collect_chunks] at hd
  exact bne_iff_ne.1 (List.mem_filter.1 hd).2

theorem flatten_chunks (calls : List Call) : (collect calls).chunks.flatten = written calls := by
  rw [collect_chunks, written]
  induction writes calls with
  | nil => rfl
  | cons d ds ih =>
    cases d with
    | nil => exact ih
    | cons b d => exact congrArg (b :: d ++ ·) ih

end Collecting

section Sizes

theorem length_fieldWire (f : Field) :
    (Response.fieldWire f).length = f.name.length + 2 + f.value.length + 2 := by
  rw [Response.fieldWire, List.length_append, List.length_append, List.length_append]
  rfl

theorem length_serializeChunkedBody (b : ChunkedBody) :
    (serializeChunkedBody b).length = chunkedBodyWireSize b := by
  have hchunk : ∀ c : Bytes, (hexadecimal c.length ++ crlf ++ c ++ crlf).length =
      (hexadecimal c.length).length + 2 + (c.length + 2) := by
    intro c
    simp only [List.length_append, crlf, List.length_cons, List.length_nil]
    omega
  rw [serializeChunkedBody, chunkedBodyWireSize, List.length_append, List.length_append,
    List.length_append, List.length_flatMap, List.length_flatMap]
  simp only [hchunk, length_fieldWire]
  rfl

theorem serializeChunkedBody_frames (b : ChunkedBody) (h : ∀ c ∈ b.chunks, c ≠ []) :
    serializeChunkedBody b = b.chunks.flatMap serializeChunkFrame ++ serializeTrailerFrame b.trailers := by
  have hframes : b.chunks.flatMap serializeChunkFrame =
      b.chunks.flatMap fun c => hexadecimal c.length ++ crlf ++ c ++ crlf := by
    apply List.flatMap_congr
    intro c hc
    rw [serializeChunkFrame, if_neg (h c hc)]
  rw [serializeChunkedBody, serializeTrailerFrame, hframes, List.append_assoc, List.append_assoc,
    List.append_assoc]

end Sizes

section Hexadecimal

theorem hexDigit_digitChar (h : n < 16) : hexDigit (UInt8.ofNat n.digitChar.toNat) = some n := by
  have hall : ∀ k < 16, hexDigit (UInt8.ofNat (Nat.digitChar k).toNat) = some k := by decide
  exact hall n h

theorem hexadecimal_step (n : Nat) : hexadecimal n =
    if n < 16 then [UInt8.ofNat n.digitChar.toNat]
    else hexadecimal (n / 16) ++ [UInt8.ofNat (n % 16).digitChar.toNat] := by
  rw [hexadecimal, Nat.toDigits_eq_if (by decide)]
  split
  · rfl
  · rw [List.map_append]
    rfl

theorem hexadecimal_spec (n : Nat) : IsHex (hexadecimal n) ∧ hexValue 0 (hexadecimal n) = n := by
  induction n using Nat.strongRecOn with
  | ind n ih =>
    rw [hexadecimal_step]
    split
    · next hn =>
      have hd := hexDigit_digitChar hn
      apply And.intro
      · exact ⟨List.cons_ne_nil _ _, fun b hb => by rw [List.mem_singleton.1 hb, hd]; rfl⟩
      · rw [hexValue, List.foldl_cons, List.foldl_nil, hd, Nat.zero_mul, Nat.zero_add, Option.getD_some]
    · next hn =>
      have hd := hexDigit_digitChar (Nat.mod_lt n (by decide : 0 < 16))
      obtain ⟨⟨-, hall⟩, hvalue⟩ := ih (n / 16) (by omega)
      apply And.intro
      · apply And.intro
        · exact List.append_ne_nil_of_right_ne_nil _ (List.cons_ne_nil _ _)
        · intro b hb
          rcases List.mem_append.1 hb with hb | hb
          · exact hall b hb
          · rw [List.mem_singleton.1 hb, hd]
            rfl
      · rw [hexValue] at hvalue
        rw [hexValue, List.foldl_append, hvalue, List.foldl_cons, List.foldl_nil, hd, Option.getD_some]
        exact Nat.div_add_mod' n 16

end Hexadecimal

section Decoding

/-- A front part of one kind and what follows it are determined by the whole. -/
theorem front_unique {P : UInt8 → Bool} {a a' s s' : Bytes} (ha : ∀ b ∈ a, P b = true)
    (ha' : ∀ b ∈ a', P b = true) (hs : ∀ b ∈ s.head?, P b = false) (hs' : ∀ b ∈ s'.head?, P b = false)
    (h : a ++ s = a' ++ s') : a = a' ∧ s = s' := by
  induction a generalizing a' with
  | nil =>
    cases a' with
    | nil => exact ⟨rfl, h⟩
    | cons b a' =>
      subst h
      have hb := hs b rfl
      rw [ha' b (List.mem_cons_self ..)] at hb
      cases hb
  | cons b a ih =>
    cases a' with
    | nil =>
      subst h
      have hb := hs' b rfl
      rw [ha b (List.mem_cons_self ..)] at hb
      cases hb
    | cons c a' =>
      obtain ⟨rfl, htail⟩ := List.cons.inj h
      obtain ⟨rfl, rfl⟩ := ih (fun d hd => ha d (List.mem_cons_of_mem _ hd))
        (fun d hd => ha' d (List.mem_cons_of_mem _ hd)) htail
      exact ⟨rfl, rfl⟩

theorem ext_head {ext : Bytes} (he : IsExt ext) (s : Bytes) :
    ∀ b ∈ (ext ++ crlf ++ s).head?, (hexDigit b).isSome = false := by
  intro b hb
  cases ext with
  | nil =>
    cases hb
    rfl
  | cons c ext =>
    cases hb
    rw [hexDigit_of_endsChunkSize (he.1 b rfl)]
    rfl

theorem sizeLine_unique {size size' ext ext' s s' : Bytes} (hsize : IsHex size) (hsize' : IsHex size')
    (hext : IsExt ext) (hext' : IsExt ext')
    (h : size ++ (ext ++ crlf ++ s) = size' ++ (ext' ++ crlf ++ s')) : size = size' ∧ s = s' := by
  obtain ⟨rfl, hrest⟩ := front_unique hsize.2 hsize'.2 (ext_head hext s) (ext_head hext' s') h
  have hcut := congrArg (cut CR) hrest
  rw [List.append_assoc, List.append_assoc] at hcut
  obtain ⟨-, htail⟩ := Prod.mk.inj
    ((cut_append_sep hext.2.1 (LF :: s)).symm.trans (hcut.trans (cut_append_sep hext'.2.1 (LF :: s'))))
  exact ⟨rfl, (List.cons.inj (Option.some.inj htail)).2⟩

theorem chunks_cons (c : Chunk) (cs : List Chunk) (s : Bytes) : (c :: cs).flatMap Chunk.wire ++ s =
    c.size ++ (c.ext ++ crlf ++ (c.data ++ (crlf ++ (cs.flatMap Chunk.wire ++ s)))) := by
  simp only [List.flatMap_cons, Chunk.wire, List.append_assoc]

theorem chunks_unique {cs ds : List Chunk} {last ext last' ext' s s' : Bytes} (hlast : IsHex last)
    (hlast' : IsHex last') (hext : IsExt ext) (hext' : IsExt ext') (hzero : hexValue 0 last = 0)
    (hzero' : hexValue 0 last' = 0)
    (h : cs.flatMap Chunk.wire ++ (last ++ (ext ++ crlf ++ s)) =
      ds.flatMap Chunk.wire ++ (last' ++ (ext' ++ crlf ++ s'))) :
    cs.flatMap Chunk.data = ds.flatMap Chunk.data ∧ s = s' := by
  induction cs generalizing ds with
  | nil =>
    cases ds with
    | nil => exact ⟨rfl, (sizeLine_unique hlast hlast' hext hext' h).2⟩
    | cons d ds =>
      rw [chunks_cons] at h
      obtain ⟨rfl, -⟩ := sizeLine_unique hlast d.isHex hext d.isExt h
      exact absurd (List.length_eq_zero_iff.1 (d.size_eq.symm.trans hzero)) d.nonempty
  | cons c cs ih =>
    rw [chunks_cons] at h
    cases ds with
    | nil =>
      obtain ⟨heq, -⟩ := sizeLine_unique c.isHex hlast' c.isExt hext' h
      have hlen := c.size_eq
      rw [heq, hzero'] at hlen
      exact absurd (List.length_eq_zero_iff.1 hlen.symm) c.nonempty
    | cons d ds =>
      rw [chunks_cons] at h
      obtain ⟨hsize, hdata⟩ := sizeLine_unique c.isHex d.isHex c.isExt d.isExt h
      have hlen : c.data.length = d.data.length := by rw [← c.size_eq, ← d.size_eq, hsize]
      obtain ⟨heq, hrest⟩ := List.append_inj hdata hlen
      obtain ⟨hmore, hs⟩ := ih (List.append_cancel_left hrest)
      rw [List.flatMap_cons, List.flatMap_cons, heq, hmore]
      exact ⟨rfl, hs⟩

theorem isFieldLine_line {l : Bytes} (h : isFieldLine l = true) : l ≠ [] ∧ CR ∉ l ∧ LF ∉ l := by
  rw [isFieldLine] at h
  split at h
  · cases h
  · next name value hcut =>
    obtain ⟨rfl, -⟩ := cut_some hcut
    rw [Bool.and_eq_true, Bool.and_eq_true, List.all_eq_true, List.all_eq_true] at h
    obtain ⟨⟨-, hname⟩, hvalue⟩ := h
    have hno : ∀ b, tokenChar b = false → isCtl b = true → b ≠ colon → b ∉ name ++ colon :: value := by
      intro b htoken hctl hcolon hmem
      rcases List.mem_append.1 hmem with hmem | hmem
      · rw [hname b hmem] at htoken
        cases htoken
      · rcases List.mem_cons.1 hmem with rfl | hmem
        · exact hcolon rfl
        · have hb := hvalue b hmem
          rw [hctl] at hb
          cases hb
    exact ⟨List.append_ne_nil_of_right_ne_nil _ (List.cons_ne_nil _ _), hno CR rfl rfl (by decide),
      hno LF rfl rfl (by decide)⟩

def trailerOf (l : Bytes) (h : isFieldLine l = true) : TrailerLine :=
  ⟨l, (isFieldLine_line h).1, (isFieldLine_line h).2.1, (isFieldLine_line h).2.2⟩

def chunkOf (data : Bytes) (h : data ≠ []) : Chunk where
  size := hexadecimal data.length
  ext := []
  data := data
  isHex := (hexadecimal_spec _).1
  isExt := isExt_nil
  nonempty := h
  size_eq := (hexadecimal_spec _).2

theorem flatMap_pmap {α β γ : Type} {P : α → Prop} (f : ∀ a, P a → β) (g : β → List γ) (k : α → List γ)
    (hk : ∀ a h, g (f a h) = k a) (l : List α) (h : ∀ a ∈ l, P a) : (l.pmap f h).flatMap g = l.flatMap k := by
  induction l with
  | nil => rfl
  | cons a l ih => rw [List.pmap_cons, List.flatMap_cons, List.flatMap_cons, hk, ih]

theorem trailerSection_unlines (m : ChunkedMessage) : m.trailerSection = unlines (m.trailers.map TrailerLine.line) := by
  rw [unlines, List.flatMap_map]
  rfl

theorem serialize_append (b : ChunkedBody) : serializeChunkedBody b =
    b.chunks.flatMap (fun c => hexadecimal c.length ++ crlf ++ c ++ crlf) ++
      (bytes "0" ++ ([] ++ crlf ++ (unlines (b.trailers.map Field.text) ++ crlf))) := by
  have hfields : b.trailers.flatMap Response.fieldWire = unlines (b.trailers.map Field.text) := by
    rw [unlines, List.flatMap_map]
    rfl
  have hlast : bytes "0\r\n" = bytes "0" ++ crlf := by decide
  rw [serializeChunkedBody, hfields, hlast]
  simp only [List.append_assoc, List.nil_append]

theorem message_append (m : ChunkedMessage) : m.wire =
    m.chunks.flatMap Chunk.wire ++
      (m.last ++ (m.lastExt ++ crlf ++ (unlines (m.trailers.map TrailerLine.line) ++ crlf))) := by
  rw [ChunkedMessage.wire, ChunkedMessage.lastChunk, trailerSection_unlines]
  simp only [List.append_assoc]

def messageOf (b : ChunkedBody) (h : ∀ c ∈ b.chunks, c ≠ [])
    (hlines : ∀ l ∈ (b.trailers.map Field.text).flatMap lines, isFieldLine l = true) : ChunkedMessage where
  chunks := b.chunks.pmap chunkOf h
  last := bytes "0"
  lastExt := []
  trailers := ((b.trailers.map Field.text).flatMap lines).pmap trailerOf hlines
  isHex := isHex_zero
  isExt := isExt_nil
  last_eq := hexValue_zero

theorem unlines_texts (ts : List Bytes) : unlines (ts.flatMap lines) = unlines ts := by
  induction ts with
  | nil => rfl
  | cons t ts ih =>
    rw [List.flatMap_cons, unlines_append, unlines_lines, ih, unlines_cons, List.append_assoc]

/-- A body is read back, with this content and no other, when its trailers are field lines. -/
theorem decodesTo_iff {b : ChunkedBody} (h : ∀ c ∈ b.chunks, c ≠ []) (data : Bytes) :
    DecodesTo (serializeChunkedBody b) data ↔
      data = b.chunks.flatten ∧ ∀ t ∈ b.trailers, t.WellFormed := by
  have hchunks := flatMap_pmap chunkOf Chunk.wire (fun c => hexadecimal c.length ++ crlf ++ c ++ crlf)
    (fun c hc => by simp only [Chunk.wire, chunkOf, List.append_assoc, List.nil_append]) b.chunks h
  have hdata := flatMap_pmap chunkOf Chunk.data id (fun c hc => rfl) b.chunks h
  rw [List.flatMap_id] at hdata
  constructor
  · rintro ⟨m, hlines, hwire, rfl⟩
    rw [message_append, serialize_append, ← hchunks] at hwire
    obtain ⟨heq, htrailers⟩ := chunks_unique m.isHex isHex_zero m.isExt isExt_nil m.last_eq hexValue_zero hwire
    apply And.intro
    · rw [ChunkedMessage.data, heq, hdata]
    · have hno : ∀ l ∈ m.trailers.map TrailerLine.line, CR ∉ l := by
        intro l hl
        obtain ⟨line, -, rfl⟩ := List.mem_map.1 hl
        exact line.noCr
      have hread := lines_unlines hno []
      rw [List.append_cancel_right htrailers, lines_texts] at hread
      intro t ht l hl
      have hmem : l ∈ m.trailers.map TrailerLine.line := by
        rw [← List.append_cancel_right hread]
        exact List.mem_flatMap.2 ⟨t.text, List.mem_map_of_mem ht, hl⟩
      obtain ⟨line, hline, rfl⟩ := List.mem_map.1 hmem
      exact hlines line hline
  · rintro ⟨rfl, htrailers⟩
    have hfields : ∀ l ∈ (b.trailers.map Field.text).flatMap lines, isFieldLine l = true := by
      intro l hl
      obtain ⟨text, htext, hl⟩ := List.mem_flatMap.1 hl
      obtain ⟨t, ht, rfl⟩ := List.mem_map.1 htext
      exact htrailers t ht l hl
    refine ⟨messageOf b h hfields, ?_, ?_, hdata⟩
    · intro t ht
      obtain ⟨l, hl, rfl⟩ := List.mem_pmap.1 ht
      exact hfields l hl
    · have hmap : (messageOf b h hfields).trailers.map TrailerLine.line =
          (b.trailers.map Field.text).flatMap lines := by
        rw [messageOf, List.map_pmap]
        exact List.pmap_eq_self.2 fun _ _ => rfl
      rw [message_append, serialize_append, hmap, unlines_texts, ← hchunks]
      rfl

end Decoding

/-- A chunked body has the predicted length, is the concatenation of its frames, and is read back as
what was written before `end` and nothing else, exactly when what its trailers are written as are
field lines. -/
theorem chunked_encoding_iff (calls : List ChunkedBody.Call) :
    let b := (ChunkedBody.collect calls).toChunkedBody
    ((serializeChunkedBody b).length = chunkedBodyWireSize b ∧
        serializeChunkedBody b = b.chunks.flatMap serializeChunkFrame ++ serializeTrailerFrame b.trailers ∧
        ∀ data, DecodesTo (serializeChunkedBody b) data ↔ data = ChunkedBody.written calls) ↔
      ∀ t ∈ ChunkedBody.ends calls, t.WellFormed := by
  intro b
  have hne : ∀ c ∈ b.chunks, c ≠ [] := chunk_ne_nil calls
  have hdecodes := decodesTo_iff hne
  have htrailers : b.trailers = ChunkedBody.ends calls := collect_trailers calls
  have hdata : b.chunks.flatten = ChunkedBody.written calls := flatten_chunks calls
  rw [htrailers, hdata] at hdecodes
  constructor
  · rintro ⟨-, -, hall⟩
    exact ((hdecodes _).1 ((hall _).2 rfl)).2
  · intro hfields
    apply And.intro (length_serializeChunkedBody b)
    apply And.intro (serializeChunkedBody_frames b hne)
    intro data
    rw [hdecodes]
    exact and_iff_left hfields

/-- A trailer whose value holds an empty line ends the body early. -/
theorem chunked_trailer_splits :
    let b := (ChunkedBody.collect [.write (bytes "a"), .endWith [⟨bytes "X", bytes "1\r\n\r\nHTTP/1.1 200 OK"⟩]])
    serializeChunkedBody b.toChunkedBody = bytes "1\r\na\r\n0\r\nX: 1\r\n\r\nHTTP/1.1 200 OK\r\n\r\n" ∧
      ¬ DecodesTo (serializeChunkedBody b.toChunkedBody) (bytes "a") := by
  intro b
  apply And.intro (by decide)
  intro h
  have hfields := ((decodesTo_iff (chunk_ne_nil _) _).1 h).2
  have hline := hfields ⟨bytes "X", bytes "1\r\n\r\nHTTP/1.1 200 OK"⟩ (List.mem_cons_self ..) [] (by decide)
  cases hline

end Hical
