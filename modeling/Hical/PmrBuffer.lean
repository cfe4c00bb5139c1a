import Hical.Bytes
import Hical.Lib.Buffer
import Mathlib.Logic.Function.Basic

/-! A byte queue in a vector that grows, moves its bytes down and shrinks. -/

namespace Hical

/-- `initialCapacity_` decides when the vector shrinks. -/
structure PmrBuffer where
  buffer_ : Bytes
  capacity : Nat
  allocator : Nat
  initialCapacity_ : Nat
  readIndex_ : Nat
  writeIndex_ : Nat

namespace PmrBuffer

def hPrependSize : Nat := 8

/-- The most bytes that a vector can hold. -/
def kMaxSize : Nat := 2 ^ 63 - 1

inductive Fault where
  | outOfRange (what : Bytes)
  | logicError (what : Bytes)
  | lengthError
  | badAlloc

/-- A call that throws leaves the buffer as it is then. -/
abbrev Outcome (α : Type) := PmrBuffer × Except Fault α

def readableBytes (b : PmrBuffer) : Nat := b.writeIndex_ - b.readIndex_

def writableBytes (b : PmrBuffer) : Nat := b.buffer_.length - b.writeIndex_

/-- From `peek` to `beginWrite`. -/
def readable (b : PmrBuffer) : Bytes := Buffer.slice b.buffer_ b.readIndex_ b.readableBytes

/-- `buffer_.resize`; an allocation fails, or gives so much more than is asked for. -/
def resize (memory : Option Nat) (newLen : Nat) (b : PmrBuffer) : Outcome Unit :=
  let resized := { b with buffer_ := Buffer.resize 0 b.buffer_ newLen }
  if newLen ≤ b.capacity then (resized, .ok ())
  else if kMaxSize < newLen then (b, .error .lengthError)
  else
    match memory with
    | none => (b, .error .badAlloc)
    | some more => ({ resized with capacity := min (newLen + more) kMaxSize }, .ok ())

/-- The vector is to grow; the sums are those of `size_t`. -/
def grows (b : PmrBuffer) (len : Nat) : Bool :=
  (b.writableBytes + b.readIndex_) % 2 ^ 64 < (len + hPrependSize) % 2 ^ 64

def newLen (b : PmrBuffer) (len : Nat) : Nat :=
  if (b.buffer_.length * 2) % 2 ^ 64 > (b.writeIndex_ + len) % 2 ^ 64 then (b.buffer_.length * 2) % 2 ^ 64
  else (b.writeIndex_ + len) % 2 ^ 64

def compact (b : PmrBuffer) : PmrBuffer :=
  { b with
    buffer_ := Buffer.copy b.buffer_ hPrependSize b.readable
    readIndex_ := hPrependSize
    writeIndex_ := hPrependSize + b.readableBytes }

def makeSpace (memory : Option Nat) (len : Nat) (b : PmrBuffer) : Outcome Unit :=
  if b.grows len then b.resize memory (b.newLen len) else (b.compact, .ok ())

def ensureWritableBytes (memory : Option Nat) (len : Nat) (b : PmrBuffer) : Outcome Unit :=
  if b.writableBytes < len then b.makeSpace memory len else (b, .ok ())

/-- Bytes that are put where `beginWrite` points to. -/
def write (data : Bytes) (b : PmrBuffer) : PmrBuffer :=
  { b with buffer_ := Buffer.copy b.buffer_ b.writeIndex_ data }

def hasWritten (len : Nat) (b : PmrBuffer) : Outcome Unit :=
  if b.writableBytes < len then
    (b, .error (.outOfRange (bytes "PmrBuffer::hasWritten: len exceeds writable bytes")))
  else ({ b with writeIndex_ := b.writeIndex_ + len }, .ok ())

/-- What is appended: bytes from elsewhere, or what the buffer itself holds. -/
inductive Source where
  | outside (data : Bytes)
  | itself

def Source.length (b : PmrBuffer) : Source → Nat
  | .outside data => data.length
  | .itself => b.readableBytes

/-- What the pointer to the source gives after `ensureWritableBytes`: nothing that is defined where the
vector has moved away, or where `std::copy` would write over what it has still to read. -/
def Source.read (b b' : PmrBuffer) : Source → Option Bytes
  | .outside data => some data
  | .itself =>
    if b.capacity < b'.buffer_.length then none
    else if b.readIndex_ ≤ b'.writeIndex_ ∧ b'.writeIndex_ < b.readIndex_ + b.readableBytes then none
    else some (Buffer.slice b'.buffer_ b.readIndex_ b.readableBytes)

/-- `none` is undefined behaviour. -/
def append (memory : Option Nat) (source : Source) (b : PmrBuffer) : Option (Outcome Unit) :=
  match b.ensureWritableBytes memory (source.length b) with
  | (b', .error e) => some (b', .error e)
  | (b', .ok ()) =>
    match source.read b b' with
    | none => none
    | some data =>
      if b'.writableBytes < data.length then none
      else some ((b'.write data).hasWritten data.length)

def retrieveAll (memory : Option Nat) (b : PmrBuffer) : Outcome Unit :=
  let shrunk :=
    if b.buffer_.length > (b.initialCapacity_ + hPrependSize) * 2 % 2 ^ 64 then
      b.resize memory (b.initialCapacity_ + hPrependSize)
    else (b, .ok ())
  match shrunk with
  | (b', .error e) => (b', .error e)
  | (b', .ok ()) => ({ b' with readIndex_ := hPrependSize, writeIndex_ := hPrependSize }, .ok ())

def retrieve (memory : Option Nat) (len : Nat) (b : PmrBuffer) : Outcome Unit :=
  if b.readableBytes < len then
    (b, .error (.outOfRange (bytes "PmrBuffer::retrieve: len exceeds readable bytes")))
  else if len < b.readableBytes then ({ b with readIndex_ := b.readIndex_ + len }, .ok ())
  else b.retrieveAll memory

/-- `end` is given by its distance from `peek`. -/
def retrieveUntil (memory : Option Nat) (distance : Int) (b : PmrBuffer) : Outcome Unit :=
  if distance < 0 ∨ (b.readableBytes : Int) < distance then
    (b, .error (.outOfRange (bytes "PmrBuffer::retrieveUntil: invalid end pointer")))
  else b.retrieve memory distance.toNat

/-- The string is made before anything is retrieved. -/
def read (memory : Option Nat) (len : Nat) (b : PmrBuffer) : Outcome Bytes :=
  if b.readableBytes < len then (b, .error (.outOfRange (bytes "PmrBuffer::read: len exceeds readable bytes")))
  else if memory.isNone then (b, .error .badAlloc)
  else
    match b.retrieve memory len with
    | (b', .error e) => (b', .error e)
    | (b', .ok ()) => (b', .ok (Buffer.slice b.buffer_ b.readIndex_ len))

def readAll (memory : Option Nat) (b : PmrBuffer) : Outcome Bytes := b.read memory b.readableBytes

/-- The vector and the indices of another buffer; the initial capacity stays. -/
def exchanged (b rhs : PmrBuffer) : PmrBuffer :=
  { b with buffer_ := rhs.buffer_, capacity := rhs.capacity, readIndex_ := rhs.readIndex_, writeIndex_ := rhs.writeIndex_ }

/-- The constructor. -/
def construct (allocator initialSize more : Nat) : Option PmrBuffer :=
  let size := (hPrependSize + initialSize) % 2 ^ 64
  if kMaxSize < size then none
  else some ⟨List.replicate size 0, min (size + more) kMaxSize, allocator, initialSize, hPrependSize, hPrependSize⟩

/-- The calls on one of several buffers. -/
inductive Op (ι : Type) where
  | append (data : Bytes)
  | appendBuffer (other : ι)
  | ensureWritableBytes (len : Nat)
  /-- After the bytes are written at `beginWrite`, where they fit. -/
  | hasWritten (data : Bytes)
  | retrieve (len : Nat)
  | retrieveUntil (distance : Int)
  | retrieveAll
  | read (len : Nat)
  | readAll
  | swap (rhs : ι)

/-- What an allocation during the call gives is up to the memory resource. -/
structure Call (ι : Type) where
  buffer : ι
  op : Op ι
  memory : Option Nat

section Calls
variable {ι : Type} [DecidableEq ι]

/-- A call that gives no bytes back. -/
def quiet (out : Outcome Unit) : Outcome Bytes := (out.1, out.2.map fun _ => [])

/-- A call on one of the buffers. -/
def apply (s : ι → PmrBuffer) (i : ι) (out : Outcome Bytes) : (ι → PmrBuffer) × Except Fault Bytes :=
  (Function.update s i out.1, out.2)

def step (s : ι → PmrBuffer) (c : Call ι) : Option ((ι → PmrBuffer) × Except Fault Bytes) :=
  let b := s c.buffer
  match c.op with
  | .append data => (b.append c.memory (.outside data)).map fun out => apply s c.buffer (quiet out)
  | .appendBuffer other =>
    (b.append c.memory (if other = c.buffer then .itself else .outside (s other).readable)).map
      fun out => apply s c.buffer (quiet out)
  | .ensureWritableBytes len => some (apply s c.buffer (quiet (b.ensureWritableBytes c.memory len)))
  | .hasWritten data =>
    let written := if b.writableBytes < data.length then b else b.write data
    some (apply s c.buffer (quiet (written.hasWritten data.length)))
  | .retrieve len => some (apply s c.buffer (quiet (b.retrieve c.memory len)))
  | .retrieveUntil distance => some (apply s c.buffer (quiet (b.retrieveUntil c.memory distance)))
  | .retrieveAll => some (apply s c.buffer (quiet (b.retrieveAll c.memory)))
  | .read len => some (apply s c.buffer (b.read c.memory len))
  | .readAll => some (apply s c.buffer (b.readAll c.memory))
  | .swap rhs =>
    if b.allocator ≠ (s rhs).allocator then
      some (s, .error (.logicError (bytes "PmrBuffer::swap: cannot swap buffers with different allocators")))
    else
      some (Function.update (Function.update s c.buffer (b.exchanged (s rhs))) rhs ((s rhs).exchanged b), .ok [])

end Calls

/-- What a call does to queues of bytes, and what it gives back; `none` where it is refused. -/
def Op.queue {ι : Type} [DecidableEq ι] (q : ι → Bytes) (i : ι) : Op ι → Option ((ι → Bytes) × Bytes)
  | .append data => some (Function.update q i (q i ++ data), [])
  | .appendBuffer other => some (Function.update q i (q i ++ q other), [])
  | .ensureWritableBytes _ => some (q, [])
  | .hasWritten data => some (Function.update q i (q i ++ data), [])
  | .retrieve len => if len ≤ (q i).length then some (Function.update q i ((q i).drop len), []) else none
  | .retrieveUntil distance =>
    if 0 ≤ distance ∧ distance ≤ (q i).length then some (Function.update q i ((q i).drop distance.toNat), []) else none
  | .retrieveAll => some (Function.update q i [], [])
  | .read len =>
    if len ≤ (q i).length then some (Function.update q i ((q i).drop len), (q i).take len) else none
  | .readAll => some (Function.update q i [], q i)
  | .swap rhs => some (Function.update (Function.update q i (q rhs)) rhs (q i), [])

/-- What every buffer keeps. -/
structure Valid (b : PmrBuffer) : Prop where
  prepend : hPrependSize ≤ b.readIndex_
  order : b.readIndex_ ≤ b.writeIndex_
  inside : b.writeIndex_ ≤ b.buffer_.length
  stored : b.buffer_.length ≤ b.capacity
  most : b.capacity ≤ kMaxSize
  initial : b.initialCapacity_ + hPrependSize ≤ kMaxSize

structure Holds (b : PmrBuffer) (q : Bytes) : Prop where
  valid : b.Valid
  readable : b.readable = q

/-- No sum of `makeSpace` leaves the range of `size_t`. -/
def Fits (b : PmrBuffer) (len : Nat) : Prop := len ≤ b.writableBytes ∨ b.writeIndex_ + len < 2 ^ 64

/-- The vector has to grow for so many bytes, and it cannot. -/
def Denies (b : PmrBuffer) (memory : Option Nat) (len : Nat) (e : Fault) : Prop :=
  b.writableBytes < len ∧ b.capacity < b.newLen len ∧
    (e = .badAlloc ∧ memory = none ∨ e = .lengthError ∧ kMaxSize < b.newLen len)

/-- What the buffer holds stays where it is when as much is to be written. -/
def Stays (b : PmrBuffer) : Prop :=
  b.readableBytes ≤ b.writableBytes ∨
    if b.grows b.readableBytes then b.newLen b.readableBytes ≤ b.capacity
    else hPrependSize + b.readableBytes < b.readIndex_

section Buffer
variable {b b' : PmrBuffer} {q : Bytes} {source : Source}

theorem length_readable (h : Valid b) : b.readable.length = b.readableBytes := by
  apply Buffer.slice_length
  rw [readableBytes, Nat.add_sub_cancel' h.order]
  exact h.inside

theorem Holds.length (h : Holds b q) : q.length = b.readableBytes := by
  rw [← h.readable]
  exact length_readable h.valid

theorem length_compact (h : Valid b) : b.compact.buffer_.length = b.buffer_.length := by
  apply Buffer.copy_length
  rw [length_readable h, readableBytes]
  obtain ⟨hprepend, horder, hinside, -⟩ := h
  omega

/-- How room is made. -/
inductive Made (b : PmrBuffer) (memory : Option Nat) (len : Nat) : Outcome Unit → Prop where
  | room (hroom : len ≤ b.writableBytes) : Made b memory len (b, .ok ())
  | refused (e : Fault) (hdenied : b.Denies memory len e) : Made b memory len (b, .error e)
  | grown (more capacity : Nat) (hlen : b.buffer_.length + more = b.newLen len)
      (hroom : b.writeIndex_ + len ≤ b.buffer_.length + more) (hstored : b.buffer_.length + more ≤ capacity)
      (hmost : capacity ≤ kMaxSize) (hgrows : b.grows len = true) (hfull : b.writableBytes < len) :
      Made b memory len ({ b with buffer_ := b.buffer_ ++ List.replicate more 0, capacity }, .ok ())
  | moved (hroom : len + hPrependSize ≤ b.writableBytes + b.readIndex_) (hgrows : b.grows len = false)
      (hfull : b.writableBytes < len) :
      Made b memory len (b.compact, .ok ())

theorem newLen_room (h : Valid b) (hfull : b.writableBytes < len) (hfit : b.writeIndex_ + len < 2 ^ 64) :
    b.writeIndex_ + len ≤ b.newLen len ∧ b.buffer_.length < b.newLen len := by
  obtain ⟨-, -, hinside, hstored, hmost, -⟩ := h
  rw [writableBytes] at hfull
  rw [kMaxSize] at hmost
  rw [newLen, Nat.mod_eq_of_lt hfit, Nat.mod_eq_of_lt (by omega)]
  split
  · omega
  · omega

theorem ensure_made (h : Valid b) (hfit : b.Fits len) (memory : Option Nat) :
    Made b memory len (b.ensureWritableBytes memory len) := by
  rw [ensureWritableBytes]
  split
  · next hfull =>
    have hsum := hfit.resolve_left (Nat.not_le.2 hfull)
    obtain ⟨hroom, hlonger⟩ := newLen_room h hfull hsum
    rw [makeSpace]
    cases hgrows : b.grows len with
    | true =>
      obtain ⟨more, hmore⟩ := Nat.exists_eq_add_of_le (Nat.le_of_lt hlonger)
      have hresize : Buffer.resize 0 b.buffer_ (b.newLen len) = b.buffer_ ++ List.replicate more 0 := by
        rw [hmore]
        exact Buffer.resize_grow ..
      rw [hmore] at hroom
      simp only [if_pos, resize, hresize]
      split
      · next hcapacity =>
        rw [hmore] at hcapacity
        exact .grown more b.capacity hmore.symm hroom hcapacity h.most hgrows hfull
      · next hcapacity =>
        have hcapacity := Nat.lt_of_not_le hcapacity
        split
        · next hlong => exact .refused _ ⟨hfull, hcapacity, .inr ⟨rfl, hlong⟩⟩
        · next hmost =>
          cases memory with
          | none => exact .refused _ ⟨hfull, hcapacity, .inl ⟨rfl, rfl⟩⟩
          | some extra =>
            rw [hmore] at hmost ⊢
            exact .grown more _ hmore.symm hroom (Nat.le_min.2 ⟨Nat.le_add_right .., Nat.le_of_not_lt hmost⟩)
              (Nat.min_le_right ..) hgrows hfull
    | false =>
      rw [if_neg Bool.false_ne_true]
      refine .moved ?_ hgrows hfull
      obtain ⟨hprepend, horder, hinside, hstored, hmost, -⟩ := h
      rw [hPrependSize] at hprepend ⊢
      rw [kMaxSize] at hmost
      rw [grows, decide_eq_false_iff_not, writableBytes, hPrependSize, Nat.mod_eq_of_lt (by omega),
        Nat.mod_eq_of_lt (by omega)] at hgrows
      exact Nat.le_of_not_lt hgrows
  · next hroom => exact .room (Nat.le_of_not_lt hroom)

theorem Holds.grown (h : Holds b q) (hstored : b.buffer_.length + more ≤ cap) (hmost : cap ≤ kMaxSize) :
    Holds { b with buffer_ := b.buffer_ ++ List.replicate more 0, capacity := cap } q := by
  obtain ⟨hprepend, horder, hinside, -, -, hinitial⟩ := h.valid
  refine ⟨⟨hprepend, horder, ?_, ?_, hmost, hinitial⟩, ?_⟩
  · rw [List.length_append]
    exact Nat.le_trans hinside (Nat.le_add_right ..)
  · rw [List.length_append, List.length_replicate]
    exact hstored
  · refine Eq.trans ?_ h.readable
    apply Buffer.slice_append
    rw [readableBytes, Nat.add_sub_cancel' horder]
    exact hinside

theorem Holds.compact (h : Holds b q) : Holds b.compact q := by
  have hlength := length_compact h.valid
  have hbytes := length_readable h.valid
  obtain ⟨hprepend, horder, hinside, hstored, hmost, hinitial⟩ := h.valid
  refine ⟨⟨Nat.le_refl _, Nat.le_add_right .., ?_, Nat.le_trans (Nat.le_of_eq hlength) hstored, hmost, hinitial⟩, ?_⟩
  · rw [hlength]
    show hPrependSize + (b.writeIndex_ - b.readIndex_) ≤ b.buffer_.length
    omega
  · show Buffer.slice _ hPrependSize (hPrependSize + b.readableBytes - hPrependSize) = q
    rw [Nat.add_sub_cancel_left, ← hbytes, ← h.readable]
    apply Buffer.slice_copy
    omega

theorem length_write (h : Valid b) (hroom : data.length ≤ b.writableBytes) :
    (b.write data).buffer_.length = b.buffer_.length := by
  apply Buffer.copy_length
  have hinside := h.inside
  rw [writableBytes] at hroom
  omega

theorem Holds.pushed (h : Holds b q) (hroom : data.length ≤ b.writableBytes) :
    Holds { b.write data with writeIndex_ := b.writeIndex_ + data.length } (q ++ data) := by
  obtain ⟨hprepend, horder, hinside, hstored, hmost, hinitial⟩ := h.valid
  have hlength := length_write h.valid hroom
  refine ⟨⟨hprepend, Nat.le_trans horder (Nat.le_add_right ..), ?_, Nat.le_trans (Nat.le_of_eq hlength) hstored,
    hmost, hinitial⟩, ?_⟩
  · rw [writableBytes] at hroom
    rw [hlength]
    dsimp only
    omega
  · have hbytes : b.writeIndex_ + data.length - b.readIndex_ = b.readableBytes + data.length := by
      rw [readableBytes]
      omega
    have hback : b.readIndex_ + b.readableBytes = b.writeIndex_ := Nat.add_sub_cancel' horder
    show Buffer.slice (Buffer.copy ..) b.readIndex_ (b.writeIndex_ + data.length - b.readIndex_) = q ++ data
    rw [hbytes, Buffer.slice_split, hback, Buffer.slice_copy hinside,
      Buffer.slice_copy_front (Nat.le_of_eq hback) hinside, ← h.readable]
    rfl

theorem Made.holds (hmade : Made b memory len (b', .ok ())) (h : Holds b q) : Holds b' q ∧ len ≤ b'.writableBytes := by
  cases hmade with
  | room hroom => exact ⟨h, hroom⟩
  | grown more capacity _ hroom hstored hmost =>
    refine ⟨h.grown hstored hmost, ?_⟩
    rw [writableBytes, List.length_append, List.length_replicate]
    dsimp only
    omega
  | moved hroom =>
    refine ⟨h.compact, ?_⟩
    rw [writableBytes] at hroom
    rw [writableBytes, length_compact h.valid]
    obtain ⟨hprepend, horder, hinside, -⟩ := h.valid
    show len ≤ b.buffer_.length - (hPrependSize + (b.writeIndex_ - b.readIndex_))
    omega

/-- The call throws one of these and changes nothing, or leaves this queue and gives this back. -/
def Leaves (faults : Fault → Prop) (b : PmrBuffer) (out : Outcome α) (q : Bytes) (a : α) : Prop :=
  (∃ e, out = (b, .error e) ∧ faults e) ∨ ∃ b', out = (b', .ok a) ∧ Holds b' q

theorem ensure_leaves (h : Holds b q) (hfit : b.Fits len) (memory : Option Nat) :
    Leaves (b.Denies memory len) b (b.ensureWritableBytes memory len) q () := by
  have hmade := ensure_made h.valid hfit memory
  cases hout : b.ensureWritableBytes memory len with
  | mk b' result =>
    rw [hout] at hmade
    cases result with
    | error e =>
      cases hmade with
      | refused _ hdenied => exact .inl ⟨e, rfl, hdenied⟩
    | ok => exact .inr ⟨b', rfl, (hmade.holds h).1⟩

theorem hasWritten_pushed (h : Valid b) (hroom : data.length ≤ b.writableBytes) :
    (b.write data).hasWritten data.length =
      ({ b.write data with writeIndex_ := b.writeIndex_ + data.length }, .ok ()) := by
  rw [hasWritten, writableBytes, length_write h hroom]
  exact if_neg (Nat.not_lt.2 hroom)

theorem hasWritten_leaves (h : Holds b q) (data : Bytes) :
    Leaves (fun e => (∃ what, e = .outOfRange what) ∧ b.writableBytes < data.length) b (hasWritten data.length (if b.writableBytes < data.length then b else b.write data)) (q ++ data) () := by
  split
  · next hfull =>
    rw [hasWritten, if_pos hfull]
    exact .inl ⟨_, rfl, ⟨_, rfl⟩, hfull⟩
  · next hroom =>
    have hroom := Nat.le_of_not_lt hroom
    rw [hasWritten_pushed h.valid hroom]
    exact .inr ⟨_, rfl, h.pushed hroom⟩

def Source.data (q : Bytes) : Source → Bytes
  | .outside data => data
  | .itself => q

theorem Made.reads (hmade : Made b memory (source.length b) (b', .ok ())) (h : Holds b q)
    (hstays : source = .itself → b.Stays) : source.read b b' = some (source.data q) := by
  cases source with
  | outside data => rfl
  | itself =>
    have hq := h.length
    have hvalid := h.valid
    have hread (hcapacity : b'.buffer_.length ≤ b.capacity)
        (hapart : ¬(b.readIndex_ ≤ b'.writeIndex_ ∧ b'.writeIndex_ < b.readIndex_ + b.readableBytes))
        (hslice : Buffer.slice b'.buffer_ b.readIndex_ b.readableBytes = b.readable) :
        Source.itself.read b b' = some q := by
      rw [Source.read, if_neg (Nat.not_lt.2 hcapacity), if_neg hapart, hslice, h.readable]
    have hback : b.readIndex_ + b.readableBytes = b.writeIndex_ := Nat.add_sub_cancel' hvalid.order
    have hsame : ¬(b.readIndex_ ≤ b.writeIndex_ ∧ b.writeIndex_ < b.readIndex_ + b.readableBytes) := by
      rw [hback]
      exact fun hboth => Nat.lt_irrefl _ hboth.2
    change Made b memory b.readableBytes (b', .ok ()) at hmade
    cases hmade with
    | room => exact hread hvalid.stored hsame rfl
    | grown more cap hlen _ _ _ hgrows hfull =>
      have hroom := (hstays rfl).resolve_left (Nat.not_le.2 hfull)
      rw [if_pos hgrows, ← hlen] at hroom
      apply hread
      · rw [List.length_append, List.length_replicate]
        exact hroom
      · exact hsame
      · apply Buffer.slice_append
        rw [hback]
        exact hvalid.inside
    | moved _ hgrows hfull =>
      have hclear := (hstays rfl).resolve_left (Nat.not_le.2 hfull)
      rw [hgrows, if_neg Bool.false_ne_true] at hclear
      have hlength := length_readable hvalid
      have hinside := hvalid.inside
      apply hread
      · rw [length_compact hvalid]
        exact hvalid.stored
      · exact fun hboth => absurd hboth.1 (Nat.not_le.2 hclear)
      · apply Buffer.slice_copy_behind
        · rw [hlength]
          exact Nat.le_of_lt hclear
        · omega

theorem append_leaves (source : Source) (h : Holds b q) (hfit : b.Fits (source.length b)) (hstays : source = .itself → b.Stays)
    (memory : Option Nat) :
    ∃ out, b.append memory source = some out ∧
      Leaves (b.Denies memory (source.length b)) b out (q ++ source.data q) () := by
  have hmade := ensure_made h.valid hfit memory
  have hlength : (source.data q).length = source.length b := by
    cases source with
    | outside data => rfl
    | itself => exact h.length
  rw [append]
  cases hout : b.ensureWritableBytes memory (source.length b) with
  | mk b' result =>
    rw [hout] at hmade
    cases result with
    | error e =>
      cases hmade with
      | refused _ hdenied => exact ⟨_, rfl, .inl ⟨e, rfl, hdenied⟩⟩
    | ok =>
      obtain ⟨hholds, hroom⟩ := hmade.holds h
      rw [← hlength] at hroom
      dsimp only
      rw [hmade.reads h hstays]
      dsimp only
      rw [if_neg (Nat.not_lt.2 hroom), hasWritten_pushed hholds.valid hroom]
      exact ⟨_, rfl, .inr ⟨_, rfl, hholds.pushed hroom⟩⟩

theorem retrieveAll_holds (h : Valid b) (memory : Option Nat) :
    ∃ b', b.retrieveAll memory = (b', .ok ()) ∧ Holds b' [] := by
  obtain ⟨hprepend, horder, hinside, hstored, hmost, hinitial⟩ := h
  have hempty (b' : PmrBuffer) (hfront : hPrependSize ≤ b'.buffer_.length) (hstored : b'.buffer_.length ≤ b'.capacity)
      (hmost : b'.capacity ≤ kMaxSize) (hinitial : b'.initialCapacity_ + hPrependSize ≤ kMaxSize) :
      Holds { b' with readIndex_ := hPrependSize, writeIndex_ := hPrependSize } [] := by
    refine ⟨⟨Nat.le_refl _, Nat.le_refl _, hfront, hstored, hmost, hinitial⟩, ?_⟩
    show Buffer.slice _ hPrependSize (hPrependSize - hPrependSize) = []
    rw [Nat.sub_self]
    exact List.take_zero
  have hshrunk : ∃ b', (if b.buffer_.length > (b.initialCapacity_ + hPrependSize) * 2 % 2 ^ 64 then
        b.resize memory (b.initialCapacity_ + hPrependSize)
      else (b, .ok ())) = (b', .ok ()) ∧ hPrependSize ≤ b'.buffer_.length ∧ b'.buffer_.length ≤ b'.capacity ∧
        b'.capacity ≤ kMaxSize ∧ b'.initialCapacity_ + hPrependSize ≤ kMaxSize := by
    split
    · next hlong =>
      rw [Nat.mod_eq_of_lt (by rw [kMaxSize] at hinitial; omega)] at hlong
      have hcapacity : b.initialCapacity_ + hPrependSize ≤ b.capacity := by omega
      have hlength := Buffer.resize_length (0 : UInt8) b.buffer_ (b.initialCapacity_ + hPrependSize)
      refine ⟨_, if_pos hcapacity, ?_, ?_, hmost, hinitial⟩
      · rw [hlength]
        exact Nat.le_add_left ..
      · rw [hlength]
        exact hcapacity
    · exact ⟨b, rfl, by omega, hstored, hmost, hinitial⟩
  obtain ⟨b', hshrunk, hfront, hstored, hmost, hinitial⟩ := hshrunk
  rw [retrieveAll, hshrunk]
  exact ⟨_, rfl, hempty b' hfront hstored hmost hinitial⟩

theorem retrieve_holds (h : Holds b q) (hlen : len ≤ q.length) (memory : Option Nat) :
    ∃ b', b.retrieve memory len = (b', .ok ()) ∧ Holds b' (q.drop len) := by
  have hq := h.length
  rw [hq] at hlen
  rw [retrieve, if_neg (Nat.not_lt.2 hlen)]
  split
  · next hless =>
    obtain ⟨hprepend, horder, hinside, hstored, hmost, hinitial⟩ := h.valid
    rw [readableBytes] at hless
    refine ⟨_, rfl, ⟨Nat.le_trans hprepend (Nat.le_add_right ..), ?_, hinside, hstored, hmost, hinitial⟩, ?_⟩
    · show b.readIndex_ + len ≤ b.writeIndex_
      omega
    · rw [← h.readable]
      rw [readable, readable, Buffer.slice_drop, readableBytes, readableBytes, Nat.sub_sub]
  · next hall =>
    have hdrop : q.drop len = [] := List.drop_eq_nil_of_le (by rw [hq]; exact Nat.le_of_not_lt hall)
    rw [hdrop]
    exact retrieveAll_holds h.valid memory

theorem retrieve_refused (h : Holds b q) (hlen : ¬len ≤ q.length) (memory : Option Nat) :
    ∃ what, b.retrieve memory len = (b, .error (.outOfRange what)) := by
  rw [h.length] at hlen
  exact ⟨_, if_pos (Nat.lt_of_not_le hlen)⟩

theorem retrieveUntil_eq (h : Holds b q) (distance : Int) (memory : Option Nat) :
    (0 ≤ distance ∧ distance ≤ q.length ∧ b.retrieveUntil memory distance = b.retrieve memory distance.toNat) ∨
      (¬(0 ≤ distance ∧ distance ≤ q.length) ∧
        ∃ what, b.retrieveUntil memory distance = (b, .error (.outOfRange what))) := by
  rw [retrieveUntil, h.length]
  split
  · next hout => exact .inr ⟨by omega, _, rfl⟩
  · next hin => exact .inl ⟨by omega, by omega, rfl⟩

theorem read_leaves (h : Holds b q) (hlen : len ≤ q.length) (memory : Option Nat) :
    Leaves (fun e => e = .badAlloc ∧ memory = none) b (b.read memory len) (q.drop len) (q.take len) := by
  obtain ⟨b', hretrieve, hholds⟩ := retrieve_holds h hlen memory
  have hgiven : Buffer.slice b.buffer_ b.readIndex_ len = q.take len := by
    rw [h.length] at hlen
    rw [← h.readable, readable, Buffer.slice_take hlen]
  rw [h.length] at hlen
  rw [read, if_neg (Nat.not_lt.2 hlen)]
  split
  · next hnone => exact .inl ⟨_, rfl, rfl, Option.isNone_iff_eq_none.1 hnone⟩
  · rw [hretrieve, hgiven]
    exact .inr ⟨b', rfl, hholds⟩

theorem read_refused (h : Holds b q) (hlen : ¬len ≤ q.length) (memory : Option Nat) :
    ∃ what, b.read memory len = (b, .error (.outOfRange what)) := by
  rw [h.length] at hlen
  exact ⟨_, if_pos (Nat.lt_of_not_le hlen)⟩

theorem fits_other (h : Valid b) (hb : Holds b' q) : b.Fits q.length := by
  apply Or.inr
  have hlength := hb.length
  obtain ⟨-, -, hinside, hstored, hmost, -⟩ := h
  obtain ⟨-, -, hinside', hstored', hmost', -⟩ := hb.valid
  rw [kMaxSize] at hmost hmost'
  rw [hlength, readableBytes]
  omega

theorem fits_itself (h : Holds b q) : b.Fits b.readableBytes := by
  rw [← h.length]
  exact fits_other h.valid h

theorem Holds.exchanged {rhs : PmrBuffer} (h : Holds b q) (hrhs : Holds rhs q') : Holds (b.exchanged rhs) q' := by
  obtain ⟨hprepend, horder, hinside, hstored, hmost, -⟩ := hrhs.valid
  exact ⟨⟨hprepend, horder, hinside, hstored, hmost, h.valid.initial⟩, hrhs.readable⟩

theorem construct_holds (hsize : hPrependSize + size < 2 ^ 64) (hmade : construct a size more = some b) : Holds b [] := by
  rw [construct, Nat.mod_eq_of_lt hsize] at hmade
  split at hmade
  · cases hmade
  · next hmost =>
    have hmost := Nat.le_of_not_lt hmost
    cases hmade
    refine ⟨⟨Nat.le_refl _, Nat.le_refl _, ?_, ?_, Nat.min_le_right .., ?_⟩, ?_⟩
    · rw [List.length_replicate]
      exact Nat.le_add_right ..
    · rw [List.length_replicate]
      exact Nat.le_min.2 ⟨Nat.le_add_right .., hmost⟩
    · rw [Nat.add_comm]
      exact hmost
    · show Buffer.slice _ hPrependSize (hPrependSize - hPrependSize) = []
      rw [Nat.sub_self]
      exact List.take_zero

end Buffer

section Runs
variable {ι : Type} [DecidableEq ι]

/-- A call that leaves the range of `size_t`, or appends to a buffer what has moved away, is not made. -/
def Allowed (s : ι → PmrBuffer) (c : Call ι) : Prop :=
  match c.op with
  | .append data => (s c.buffer).Fits data.length
  | .appendBuffer other => other = c.buffer → (s c.buffer).Stays
  | .ensureWritableBytes len => (s c.buffer).Fits len
  | _ => True

def AllAllowed (s : ι → PmrBuffer) : List (Call ι) → Prop
  | [] => True
  | c :: calls => Allowed s c ∧ ∀ s' result, step s c = some (s', result) → AllAllowed s' calls

/-- The bytes that a call needs room for. -/
def Op.wanted (q : ι → Bytes) : Op ι → Option Nat
  | .append data => some data.length
  | .appendBuffer other => some (q other).length
  | .ensureWritableBytes len => some len
  | _ => none

/-- What a call on these buffers may throw, where they hold these queues. -/
inductive MayThrow (s : ι → PmrBuffer) (q : ι → Bytes) (c : Call ι) : Fault → Prop where
  | refused (what : Bytes) (hqueue : c.op.queue q c.buffer = none) : MayThrow s q c (.outOfRange what)
  | unfit (what : Bytes) (hop : c.op = .hasWritten data) (hfull : (s c.buffer).writableBytes < data.length) :
      MayThrow s q c (.outOfRange what)
  | unlike (what : Bytes) (hop : c.op = .swap rhs) (hne : (s c.buffer).allocator ≠ (s rhs).allocator) :
      MayThrow s q c (.logicError what)
  | denied (e : Fault) (hop : c.op.wanted q = some len) (hdenied : (s c.buffer).Denies c.memory len e) :
      MayThrow s q c e
  | unread (hop : c.op = .readAll ∨ ∃ len, c.op = .read len) (hmemory : c.memory = none) : MayThrow s q c .badAlloc

/-- Through all calls the buffers hold what the queues do: a call that throws has a reason and changes
nothing, every other one gives what the queues give, and there is as much room as was asked for. -/
inductive Keeps : (ι → PmrBuffer) → (ι → Bytes) → List (Call ι) → Prop where
  | done (hholds : ∀ i, Holds (s i) (q i)) : Keeps s q []
  | throws (hholds : ∀ i, Holds (s i) (q i)) (hstep : step s c = some (s, .error e)) (hmay : MayThrow s q c e)
      (hrest : Keeps s q calls) : Keeps s q (c :: calls)
  | serves (hholds : ∀ i, Holds (s i) (q i)) (hstep : step s c = some (s', .ok given))
      (hqueue : c.op.queue q c.buffer = some (q', given))
      (hroom : ∀ len, c.op = .ensureWritableBytes len → len ≤ (s' c.buffer).writableBytes) (hrest : Keeps s' q' calls) :
      Keeps s q (c :: calls)

def Served (s : ι → PmrBuffer) (q : ι → Bytes) (c : Call ι) : Prop :=
  (∃ e, step s c = some (s, .error e) ∧ MayThrow s q c e) ∨ ∃ s' given q', step s c = some (s', .ok given) ∧
    c.op.queue q c.buffer = some (q', given) ∧
    (∀ len, c.op = .ensureWritableBytes len → len ≤ (s' c.buffer).writableBytes) ∧ ∀ i, Holds (s' i) (q' i)

end Runs

section Steps
variable {ι : Type} [DecidableEq ι] {s : ι → PmrBuffer} {q : ι → Bytes} {c : Call ι}

theorem holds_update (h : ∀ i, Holds (s i) (q i)) (hb : Holds b' bs) (i : ι) :
    ∀ j, Holds (Function.update s i b' j) (Function.update q i bs j) := by
  intro j
  by_cases hj : j = i
  · rw [hj, Function.update_self, Function.update_self]
    exact hb
  · rw [Function.update_of_ne hj, Function.update_of_ne hj]
    exact h j

theorem Leaves.quiet (h : Leaves faults b out bs ()) : Leaves faults b (quiet out) bs [] := by
  rcases h with ⟨e, rfl, he⟩ | ⟨b', rfl, hb⟩
  · exact .inl ⟨e, rfl, he⟩
  · exact .inr ⟨b', rfl, hb⟩

variable {i : ι} {op : Op ι} {memory : Option Nat} {out : Outcome Bytes}

theorem served_throws (hstep : step s ⟨i, op, memory⟩ = some (apply s i out)) (he : out = (s i, .error e))
    (hmay : MayThrow s q ⟨i, op, memory⟩ e) : Served s q ⟨i, op, memory⟩ := by
  rw [he, apply, Function.update_eq_self] at hstep
  exact .inl ⟨e, hstep, hmay⟩

theorem served_leaves (op : Op ι) (h : ∀ i, Holds (s i) (q i)) (hleaves : Leaves faults (s i) out bs a)
    (hmay : ∀ e, faults e → MayThrow s q ⟨i, op, memory⟩ e) (hstep : step s ⟨i, op, memory⟩ = some (apply s i out))
    (hqueue : op.queue q i = some (Function.update q i bs, a))
    (hroom : ∀ len, op = .ensureWritableBytes len → ∀ b', out = (b', .ok a) → len ≤ b'.writableBytes) :
    Served s q ⟨i, op, memory⟩ := by
  rcases hleaves with ⟨e, he, hfault⟩ | ⟨b', rfl, hb⟩
  · exact served_throws hstep he (hmay e hfault)
  · refine .inr ⟨_, _, _, hstep, hqueue, fun len hlen => ?_, holds_update h hb i⟩
    dsimp only
    rw [Function.update_self]
    exact hroom len hlen b' rfl

theorem served_surely (op : Op ι) (h : ∀ i, Holds (s i) (q i)) (hleaves : Leaves (fun _ => False) (s i) out bs a)
    (hstep : step s ⟨i, op, memory⟩ = some (apply s i out))
    (hqueue : op.queue q i = some (Function.update q i bs, a)) (hop : op.wanted q = none) :
    Served s q ⟨i, op, memory⟩ := by
  apply served_leaves op h hleaves (fun _ => False.elim) hstep hqueue
  rintro len rfl
  cases hop

/-- Every call that is allowed throws and changes nothing, or does what it does to the queues. -/
theorem step_served (h : ∀ i, Holds (s i) (q i)) (hc : Allowed s c) : Served s q c := by
  obtain ⟨i, op, memory⟩ := c
  have hi := h i
  cases op with
  | append data =>
    obtain ⟨out, happend, hleaves⟩ := append_leaves (.outside data) hi hc nofun memory
    apply served_leaves (.append data) h hleaves.quiet (fun e he => .denied e rfl he) _ rfl fun _ => nofun
    exact congrArg (Option.map _) happend
  | appendBuffer other =>
    by_cases hother : other = i
    · obtain ⟨out, happend, hleaves⟩ := append_leaves .itself hi (fits_itself hi) (fun _ => hc hother) memory
      have hwanted : (Op.appendBuffer other).wanted q = some (s i).readableBytes := by
        rw [Op.wanted, hother, hi.length]
      apply served_leaves (.appendBuffer other) h hleaves.quiet (fun e he => .denied e hwanted he) _ (by rw [hother]; rfl)
        fun _ => nofun
      rw [step]
      dsimp only
      rw [if_pos hother, happend]
      rfl
    · obtain ⟨out, happend, hleaves⟩ := append_leaves (.outside (q other)) hi
        (fits_other hi.valid (h other)) nofun memory
      apply served_leaves (.appendBuffer other) h hleaves.quiet (fun e he => .denied e rfl he) _ rfl fun _ => nofun
      rw [step]
      dsimp only
      rw [if_neg hother, (h other).readable, happend]
      rfl
  | ensureWritableBytes len =>
    apply served_leaves _ h (ensure_leaves hi hc memory).quiet (fun e he => .denied e rfl he) rfl
    · rw [Function.update_eq_self]
      rfl
    · intro len' hlen b' hout
      cases hlen
      have hmade := ensure_made hi.valid hc memory
      cases hensure : (s i).ensureWritableBytes memory len with
      | mk b₁ result =>
        rw [hensure] at hmade hout
        cases result with
        | error e => cases hout
        | ok =>
          cases hout
          exact (hmade.holds hi).2
  | hasWritten data =>
    refine served_leaves _ h (hasWritten_leaves hi data).quiet ?_ rfl rfl fun _ => nofun
    rintro e ⟨⟨what, rfl⟩, hfull⟩
    exact .unfit what rfl hfull
  | retrieve len =>
    by_cases hlen : len ≤ (q i).length
    · exact served_surely _ h (Leaves.quiet (.inr (retrieve_holds hi hlen memory))) rfl (if_pos hlen) rfl
    · obtain ⟨what, he⟩ := retrieve_refused hi hlen memory
      exact served_throws rfl (congrArg quiet he) (.refused what (if_neg hlen))
  | retrieveUntil distance =>
    rcases retrieveUntil_eq hi distance memory with ⟨hfront, hback, hretrieve⟩ | ⟨hout, what, he⟩
    · have hholds := retrieve_holds hi (Int.toNat_le.2 hback) memory
      rw [← hretrieve] at hholds
      exact served_surely _ h (Leaves.quiet (.inr hholds)) rfl (if_pos ⟨hfront, hback⟩) rfl
    · exact served_throws rfl (congrArg quiet he) (.refused what (if_neg hout))
  | retrieveAll => exact served_surely _ h (Leaves.quiet (.inr (retrieveAll_holds hi.valid memory))) rfl rfl rfl
  | read len =>
    by_cases hlen : len ≤ (q i).length
    · refine served_leaves _ h (read_leaves hi hlen memory) ?_ rfl (if_pos hlen) fun _ => nofun
      rintro e ⟨rfl, hmemory⟩
      exact .unread (.inr ⟨len, rfl⟩) hmemory
    · obtain ⟨what, he⟩ := read_refused hi hlen memory
      exact served_throws rfl he (.refused what (if_neg hlen))
  | readAll =>
    have hleaves := read_leaves hi (Nat.le_refl _) memory
    rw [List.drop_length, List.take_length, hi.length] at hleaves
    refine served_leaves _ h hleaves ?_ rfl rfl fun _ => nofun
    rintro e ⟨rfl, hmemory⟩
    exact .unread (.inl rfl) hmemory
  | swap rhs =>
    by_cases hsame : (s i).allocator = (s rhs).allocator
    · refine .inr ⟨_, _, _, if_neg (not_not_intro hsame), rfl, fun _ => nofun, ?_⟩
      exact holds_update (holds_update h (hi.exchanged (h rhs)) i) ((h rhs).exchanged hi) rhs
    · exact .inl ⟨_, if_pos hsame, .unlike _ rfl hsame⟩

/-- Through any calls that are allowed, the buffers that the constructor gives hold what queues do. -/
theorem keeps_queues (h : ∀ i, ∃ a size more, hPrependSize + size < 2 ^ 64 ∧ construct a size more = some (s i))
    (hcalls : AllAllowed s calls) : Keeps s (fun _ => []) calls := by
  have hkeeps (calls : List (Call ι)) : ∀ s q, (∀ i, Holds (s i) (q i)) → AllAllowed s calls → Keeps s q calls := by
    induction calls with
    | nil => exact fun s q h _ => .done h
    | cons c calls ih =>
      intro s q h hcalls
      obtain ⟨hc, hrest⟩ := hcalls
      rcases step_served h hc with ⟨e, hstep, hmay⟩ | ⟨s', given, q', hstep, hqueue, hroom, hholds⟩
      · exact .throws h hstep hmay (ih s q h (hrest s _ hstep))
      · exact .serves h hstep hqueue hroom (ih s' q' hholds (hrest s' _ hstep))
  apply hkeeps calls s _ _ hcalls
  intro i
  obtain ⟨a, size, more, hsize, hmade⟩ := h i
  exact construct_holds hsize hmade

end Steps

def fresh : PmrBuffer := ⟨List.replicate 16 0, 16, 0, 8, 8, 8⟩

instance (b : PmrBuffer) (len : Nat) : Decidable (b.Fits len) := inferInstanceAs (Decidable (_ ∨ _))

instance (b : PmrBuffer) : Decidable b.Stays := inferInstanceAs (Decidable (_ ∨ ite _ _ _))

instance [DecidableEq ι] (s : ι → PmrBuffer) : (c : Call ι) → Decidable (Allowed s c)
  | ⟨i, .append data, _⟩ => inferInstanceAs (Decidable ((s i).Fits data.length))
  | ⟨i, .appendBuffer other, _⟩ => inferInstanceAs (Decidable (other = i → (s i).Stays))
  | ⟨i, .ensureWritableBytes len, _⟩ => inferInstanceAs (Decidable ((s i).Fits len))
  | ⟨_, .hasWritten _, _⟩ | ⟨_, .retrieve _, _⟩ | ⟨_, .retrieveUntil _, _⟩ | ⟨_, .retrieveAll, _⟩ | ⟨_, .read _, _⟩
  | ⟨_, .readAll, _⟩ | ⟨_, .swap _, _⟩ => .isTrue trivial

instance AllAllowed.decidable [DecidableEq ι] :
    (s : ι → PmrBuffer) → (calls : List (Call ι)) → Decidable (AllAllowed s calls)
  | _, [] => .isTrue trivial
  | s, c :: calls =>
    match hstep : step s c with
    | none => decidable_of_iff (Allowed s c) (by simp [AllAllowed, hstep])
    | some (s', _) =>
      have := AllAllowed.decidable s' calls
      decidable_of_iff (Allowed s c ∧ AllAllowed s' calls) (by simp [AllAllowed, hstep])

/-- Bytes are moved down, the vector grows, is swapped and shrinks again, and two calls throw. -/
def swappedCalls : List (Call Bool) :=
  [⟨false, .append [1, 2, 3, 4, 5, 6, 7, 8], none⟩, ⟨false, .retrieve 6, none⟩, ⟨false, .append [9, 10, 11], none⟩,
    ⟨false, .append (List.replicate 24 0), none⟩, ⟨false, .append (List.replicate 24 0), some 0⟩,
    ⟨false, .swap true, none⟩, ⟨true, .read 4, some 0⟩, ⟨true, .retrieveUntil 30, none⟩,
    ⟨false, .appendBuffer true, some 8⟩, ⟨true, .readAll, some 0⟩, ⟨true, .ensureWritableBytes 9, none⟩]

theorem keeps_queues_swapped : Keeps (fun _ => fresh) (fun _ => []) swappedCalls :=
  keeps_queues (fun _ => ⟨0, 8, 0, by decide, rfl⟩) (by decide +kernel)

/-- The sum of a length and the prepended bytes leaves the range, and no room is made. -/
theorem room_lost : ¬Keeps (fun _ : Unit => fresh) (fun _ => []) [⟨(), .ensureWritableBytes (2 ^ 64 - 1), none⟩] := by
  intro h
  have hstep : step (fun _ : Unit => fresh) ⟨(), .ensureWritableBytes (2 ^ 64 - 1), none⟩ =
      some (fun _ => fresh, .ok []) :=
    congrArg some (Prod.ext (Function.update_eq_self () fun _ => fresh) rfl)
  cases h with
  | throws _ hthrows =>
    rw [hstep] at hthrows
    cases hthrows
  | serves _ hserves _ hroom =>
    rw [hstep] at hserves
    cases hserves
    exact absurd (hroom _ rfl) (by decide)

end PmrBuffer

end Hical
