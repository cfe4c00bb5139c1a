import Hical.Http2.Writer

namespace Hical.Http2

namespace PumpCall

def feeds : PumpCall → Option Int
  | .append streamId _ _ => some streamId
  | .appendChunks streamId _ _ => some streamId
  | .appendReserved streamId _ _ _ => some streamId
  | .finish streamId _ _ => some streamId
  | _ => none

def drops : PumpCall → Option Int
  | .cancel streamId => some streamId
  | .cancelStream streamId => some streamId
  | .streamClose streamId _ => some streamId
  | _ => none

end PumpCall

namespace Http2Connection

/-- The stream is open and not cancelled, and has octets queued and both windows open, or is
finished and drained and its end was not submitted. -/
def canSend (l : Library) (streamId : Int) (p : DataProducer) : Bool :=
  !p.cancelled && decide (l.streamWindow streamId ≠ -1) &&
    (!p.chunks.isEmpty && decide (0 < l.connectionWindow) && decide (0 < l.streamWindow streamId) ||
      p.finished && p.chunks.isEmpty && !p.eofRead)

def Sends (c : Http2Connection) (streamId : Int) : Prop :=
  ∃ p, c.source streamId = some p ∧ canSend c.library streamId p = true

/-- The writer waits, nothing woke it since, and no file job was told to go on. -/
structure Asleep (c : Http2Connection) : Prop where
  writer : c.writer = .waiting false
  readers : ∀ r ∈ c.readers, r.notified = false

/-- Everything sleeps and there is something to send, or a file job may read. -/
def Stuck (c : Http2Connection) : Prop :=
  c.Asleep ∧ (0 < c.library.sendable ∨ (∃ streamId, c.Sends streamId) ∨
    ∃ r ∈ c.readers, c.mayRead r.streamId = true)

def ReadsDeferred : Http2Connection → List SendCallback → Prop
  | _, [] => True
  | c, .read streamId length :: callbacks =>
    (c.read streamId length).2.deferred = true ∧ ReadsDeferred (c.read streamId length).1 callbacks
  | c, .call call :: callbacks => ReadsDeferred (c.call call) callbacks

/-- What goes for a call of `nghttp2_session_mem_send2` that gives no octets: it sent nothing and so
left the windows alone, and there is no frame left that it could send, no producer that it could
still read and no request that it could open. -/
structure Exhausted (c : Http2Connection) (answer : SendAnswer) : Prop where
  reads : ReadsDeferred c answer.callbacks
  sendable : answer.library.sendable = 0
  connectionWindow : answer.library.connectionWindow = c.library.connectionWindow
  streamWindow : ∀ id ∈ (answer.callbacks.foldl callback c).producers.keys,
    answer.library.streamWindow id = c.library.streamWindow id
  active : answer.library.activeLocalStreamCount ≤ c.library.activeLocalStreamCount
  peerMax : answer.library.peerMaxConcurrentStreams = c.library.peerMaxConcurrentStreams
  read : ∀ id ∈ (answer.callbacks.foldl callback c).producers.keys,
    ∀ p ∈ (answer.callbacks.foldl callback c).source id,
      p.cancelled = false → p.eofRead = false → p.deferred = false →
        ¬(0 < answer.library.connectionWindow ∧ 0 < answer.library.streamWindow id)
  request : ∀ id ∈ (answer.callbacks.foldl callback c).producers.keys,
    ∀ p ∈ (answer.callbacks.foldl callback c).source id,
      p.cancelled = false → p.readStarted = false → answer.library.streamWindow id = -1 →
        mayOpenStream { c with library := answer.library } = false

/-- The call feeds no stream that may then send while none holds the read credit, and does not take
the credit from one stream while another may send. -/
structure Harmless (c : Http2Connection) (call : PumpCall) : Prop where
  feeds : ∀ id ∈ call.feeds, c.readCredit = false → ¬(c.call call).Sends id
  drops : ∀ id ∈ call.drops, c.readCredit = true → c.selectedStream = id →
    ∀ other, other ≠ id → ¬c.Sends other

def HarmlessCallbacks : Http2Connection → List SendCallback → Prop
  | _, [] => True
  | c, .read streamId length :: callbacks =>
    HarmlessCallbacks (c.read streamId length).1 callbacks
  | c, .call call :: callbacks => c.Harmless call ∧ HarmlessCallbacks (c.call call) callbacks

/-- The property holds of the state in which the writer asks for output, and of the answer, if the
answer has no octets. -/
def WhenEmpty (P : Http2Connection → SendAnswer → Prop) (c : Http2Connection) (answer : SendAnswer) :
    Prop :=
  ∀ prepared, { c with writer := .running }.prepare answer = .ok prepared →
    prepared.pendingOutput = [] → answer.bytes = .ok [] → P prepared answer

def StepWhenEmpty (P : Http2Connection → SendAnswer → Prop) (c : Http2Connection) : PumpStep → Prop
  | .writer answer => c.WhenEmpty P answer
  | .written count onWritten answer => (c.acknowledge count onWritten).WhenEmpty P answer
  | _ => True

/-- nghttp2 behaves as documented in this step. -/
def Honest (c : Http2Connection) (s : PumpStep) : Prop := c.StepWhenEmpty Exhausted s

/-- The callbacks under a call of `nghttp2_session_mem_send2` without octets do no harm. -/
def StepHarmless (c : Http2Connection) (s : PumpStep) : Prop :=
  c.StepWhenEmpty (fun c answer => c.HarmlessCallbacks answer.callbacks) s

end Http2Connection

theorem WriterState.woken_ne (w : WriterState) : w.woken ≠ .waiting false := by
  cases w <;> exact nofun

namespace Http2Connection
variable {c c' c'' : Http2Connection} {feeds drops : Int → Prop} {id : Int} {p p' : DataProducer}

@[simp] theorem source_setSource (c : Http2Connection) (id : Int) (p : DataProducer) (id' : Int) :
    (c.setSource id p).source id' = if id' = id then some p else c.source id' := by
  unfold source setSource
  split
  next h => rw [h, AList.lookup_insert]
  next h => rw [AList.lookup_insert_ne h]

@[simp] theorem source_eraseSource (c : Http2Connection) (id id' : Int) :
    (c.eraseSource id).source id' = if id' = id then none else c.source id' := by
  unfold source eraseSource
  split
  next h => rw [h, AList.lookup_erase]
  next h => rw [AList.lookup_erase_ne h]

theorem mem_keys_source : id ∈ c.producers.keys ↔ ∃ p, c.source id = some p := by
  rw [← AList.mem_keys, ← AList.lookup_isSome, Option.isSome_iff_exists]
  rfl

theorem eofRead_false (h : p.finished = false) : p.eofRead = false := by
  apply Bool.eq_false_iff.mpr
  intro he
  rw [(p.drained he).1] at h
  cases h

/-- What a producer is behind octets or an end that were added to it. -/
structure Grown (p p' : DataProducer) : Prop where
  finished : p.finished = false
  cancelled : p'.cancelled = false
  deferred : p'.deferred = false
  eofRead : p'.eofRead = false
  readStarted : p'.readStarted = p.readStarted
  chunks : p.chunks ≠ [] → p'.chunks ≠ []

theorem Grown.trans (h : Grown p p') (h' : Grown p' p'') : Grown p p'' where
  finished := h.finished
  cancelled := h'.cancelled
  deferred := h'.deferred
  eofRead := h'.eofRead
  readStarted := h'.readStarted.trans h.readStarted
  chunks := fun hc => h'.chunks (h.chunks hc)

/-- The file job was told to go on, or it still cannot read. -/
def Waits (c : Http2Connection) (r : FileReader) : Prop :=
  r.notified = true ∨ ∃ p, c.source r.streamId = some p ∧ p.cancelled = false ∧
    ¬(p.chunks = [] ∧ 0 < c.library.connectionWindow ∧ 0 < c.library.streamWindow r.streamId ∧
      0 < c.available)

/-- What a call does on a connection that it leaves open. -/
structure Steady (feeds drops : Int → Prop) (c c' : Http2Connection) : Prop where
  role : c'.role = c.role
  options : c'.options = c.options
  library : ∃ n, c'.library = { c.library with sendable := n }
  sources : ∀ id p', c'.source id = some p' → p'.cancelled = false →
    (p'.chunks = [] ∧ p'.finished = false) ∨ feeds id ∨ c.source id = some p'
  credit : c'.readCredit = true → c.readCredit = true ∧ c'.selectedStream = c.selectedStream ∧
    ∀ p, c.source c.selectedStream = some p → p.cancelled = false →
      ∃ p', c'.source c.selectedStream = some p' ∧ p'.cancelled = false ∧ (p' = p ∨ Grown p p')
  lost : c.readCredit = true → c'.readCredit = true ∨ drops c.selectedStream
  readers : (∀ r ∈ c.readers, c.Waits r) → ∀ r ∈ c'.readers, c'.Waits r

/-- What a call does. It wakes the writer, unless it made nothing that could be sent. -/
structure Moves (feeds drops : Int → Prop) (c c' : Http2Connection) : Prop where
  closed : c.output.closed = true → c'.output.closed = true
  asleep : c'.writer = .waiting false → c.writer = .waiting false ∧
    (c.output.closed = false → c'.output.closed = false ∧ c'.library = c.library ∧
      ∀ id p, c'.source id = some p → p.cancelled = false → c.source id = some p)
  steady : c'.output.closed = false → Steady feeds drops c c'

theorem Steady.refl (c : Http2Connection) : Steady feeds drops c c where
  role := rfl
  options := rfl
  library := ⟨_, rfl⟩
  sources := fun _ _ h _ => .inr (.inr h)
  credit := fun h => ⟨h, rfl, fun p hp hc => ⟨p, hp, hc, .inl rfl⟩⟩
  lost := .inl
  readers := fun h => h

theorem Steady.trans (h : Steady feeds drops c c') (h' : Steady feeds drops c' c'') :
    Steady feeds drops c c'' where
  role := h'.role.trans h.role
  options := h'.options.trans h.options
  library := by
    obtain ⟨n, hn⟩ := h.library
    obtain ⟨m, hm⟩ := h'.library
    exact ⟨m, by rw [hm, hn]⟩
  sources := by
    intro id p'' hp'' hc''
    obtain hnew | hf | hp' := h'.sources id p'' hp'' hc''
    · exact .inl hnew
    · exact .inr (.inl hf)
    · exact h.sources id p'' hp' hc''
  credit := by
    intro hcr
    obtain ⟨hcr', hsel', hkeep'⟩ := h'.credit hcr
    obtain ⟨hcr, hsel, hkeep⟩ := h.credit hcr'
    refine ⟨hcr, hsel'.trans hsel, fun p hp hc => ?_⟩
    obtain ⟨p', hp', hc', hg⟩ := hkeep p hp hc
    rw [hsel] at hkeep'
    obtain ⟨p'', hp'', hc'', hg'⟩ := hkeep' p' hp' hc'
    refine ⟨p'', hp'', hc'', ?_⟩
    obtain rfl | hg' := hg'
    · exact hg
    · obtain rfl | hg := hg
      · exact .inr hg'
      · exact .inr (hg.trans hg')
  lost := by
    intro hcr
    obtain hcr' | hd := h.lost hcr
    · obtain hcr'' | hd := h'.lost hcr'
      · exact .inl hcr''
      · rw [(h.credit hcr').2.1] at hd
        exact .inr hd
    · exact .inr hd
  readers := fun hr => h'.readers (h.readers hr)

theorem Moves.refl (c : Http2Connection) : Moves feeds drops c c where
  closed := fun h => h
  asleep := fun h => ⟨h, fun hc => ⟨hc, rfl, fun _ _ hp _ => hp⟩⟩
  steady := fun _ => .refl c

theorem Moves.trans (h : Moves feeds drops c c') (h' : Moves feeds drops c' c'') :
    Moves feeds drops c c'' where
  closed := fun hc => h'.closed (h.closed hc)
  asleep := by
    intro hw
    obtain ⟨hw', hs'⟩ := h'.asleep hw
    obtain ⟨hw, hs⟩ := h.asleep hw'
    refine ⟨hw, fun hc => ?_⟩
    obtain ⟨hc', hl, hp⟩ := hs hc
    obtain ⟨hc'', hl', hp'⟩ := hs' hc'
    exact ⟨hc'', hl'.trans hl, fun id p hs hcan => hp id p (hp' id p hs hcan) hcan⟩
  steady := by
    intro hc''
    have hc' : c'.output.closed = false := by
      cases hc : c'.output.closed with
      | false => rfl
      | true => rw [h'.closed hc] at hc''; cases hc''
    exact (h.steady hc').trans (h'.steady hc'')

/-- What only writes fields that neither the producers nor the writer look at. -/
theorem Moves.of_eq (hclosed : c'.output.closed = c.output.closed) (hrole : c'.role = c.role)
    (hoptions : c'.options = c.options) (hlibrary : c'.library = c.library)
    (hwriter : c'.writer = c.writer) (hsource : c'.source = c.source)
    (hcredit : c'.readCredit = c.readCredit) (hselected : c'.selectedStream = c.selectedStream)
    (hreaders : (∀ r ∈ c.readers, c.Waits r) → ∀ r ∈ c'.readers, c'.Waits r) :
    Moves feeds drops c c' where
  closed := fun h => hclosed.trans h
  asleep := fun h => ⟨hwriter ▸ h, fun hc =>
    ⟨hclosed.trans hc, hlibrary, fun _ _ hp _ => hsource ▸ hp⟩⟩
  steady := fun _ =>
    { role := hrole
      options := hoptions
      library := ⟨_, hlibrary⟩
      sources := fun _ _ hp _ => .inr (.inr (hsource ▸ hp))
      credit := fun h => ⟨hcredit ▸ h, hselected, fun p hp hc => ⟨p, hsource ▸ hp, hc, .inl rfl⟩⟩
      lost := fun h => .inl (hcredit.trans h)
      readers := hreaders }

theorem Moves.wake (hclosed : c'.output.closed = c.output.closed)
    (hwriter : c'.writer = c.writer)
    (hsteady : c'.output.closed = false → Steady feeds drops c c') :
    Moves feeds drops c c'.wake := by
  unfold Http2Connection.wake
  split
  next h =>
    refine ⟨fun _ => h, fun hw => ⟨hwriter ▸ hw, fun hc => ?_⟩, fun hc => ?_⟩
    · rw [hclosed, hc] at h
      cases h
    · rw [h] at hc
      cases hc
  next h =>
    refine ⟨fun hc => hclosed.trans hc, fun hw => absurd hw (WriterState.woken_ne _), fun hc => ?_⟩
    exact
      { role := (hsteady hc).role
        options := (hsteady hc).options
        library := (hsteady hc).library
        sources := (hsteady hc).sources
        credit := (hsteady hc).credit
        lost := (hsteady hc).lost
        readers := (hsteady hc).readers }

theorem waits_notify (c : Http2Connection) (r : FileReader) (h : r ∈ c.notifyReaders.readers) :
    r.notified = true := by
  obtain ⟨r', -, rfl⟩ := List.mem_map.mp h
  rfl

theorem Waits.of_eq (h : c.Waits r) (hsource : c'.source = c.source) (hlibrary : ∃ n, c'.library = { c.library with sendable := n })
    (hoptions : c'.options = c.options) (hbytes : c.sendBytes ≤ c'.sendBytes) : c'.Waits r := by
  obtain h | ⟨p, hp, hc, hnot⟩ := h
  · exact .inl h
  · refine .inr ⟨p, hsource ▸ hp, hc, fun ⟨he, hw, hs, ha⟩ => hnot ?_⟩
    obtain ⟨n, hn⟩ := hlibrary
    rw [hn] at hw hs
    refine ⟨he, hw, hs, ?_⟩
    unfold available at ha ⊢
    rw [hoptions] at ha
    omega

@[simp] theorem source_replace (c : Http2Connection) (id : Int) (p p' : DataProducer) (id' : Int) :
    (c.replace id p p').source id' = if id' = id then some p' else c.source id' :=
  source_setSource c id p' id'

theorem steady_replace (hp : c.source id = some p) (hg : Grown p p')
    (hq : p'.chunks = [] → p.chunks = []) (hamount : p.amount ≤ p'.amount) (hf : feeds id) :
    Steady feeds drops c (c.replace id p p') where
  role := rfl
  options := rfl
  library := ⟨_, rfl⟩
  sources := by
    intro id' q hq' _
    rw [source_replace] at hq'
    split at hq'
    next h => exact .inr (.inl (h ▸ hf))
    next h => exact .inr (.inr hq')
  credit := by
    intro h
    refine ⟨h, rfl, fun q hq' hc => ?_⟩
    rw [source_replace]
    split
    next h =>
      rw [h, hp] at hq'
      cases hq'
      exact ⟨_, rfl, hg.cancelled, .inr hg⟩
    next h => exact ⟨q, hq', hc, .inl rfl⟩
  lost := .inl
  readers := by
    intro hr r hm
    have hbytes : c.sendBytes ≤ (c.replace id p p').sendBytes := by
      change c.sendBytes ≤ c.sendBytes - p.amount + p'.amount
      omega
    have havail : (c.replace id p p').available ≤ c.available := Nat.sub_le_sub_left hbytes _
    obtain h | ⟨q, hq', hc, hnot⟩ := hr r hm
    · exact .inl h
    · right
      rw [source_replace]
      split
      next h =>
        rw [h, hp] at hq'
        cases hq'
        exact ⟨p', rfl, hg.cancelled, fun ⟨he, hw, hs, ha⟩ =>
          hnot ⟨hq he, hw, hs, ha.trans_le havail⟩⟩
      next h =>
        exact ⟨q, hq', hc, fun ⟨he, hw, hs, ha⟩ => hnot ⟨he, hw, hs, ha.trans_le havail⟩⟩

theorem moves_ready (c : Http2Connection) (id : Int) (p changed : DataProducer)
    (resumed : Option NetworkError) (hp : c.source id = some p)
    (hg : Grown p { changed with deferred := false }) (hq : changed.chunks = [] → p.chunks = [])
    (hamount : p.amount ≤ changed.amount) (hf : feeds id) :
    Moves feeds drops c (c.ready id p changed resumed).1 := by
  unfold ready
  split
  · exact .refl c
  · apply Moves.wake
    · rfl
    · rfl
    · exact fun _ => steady_replace hp hg hq hamount hf

theorem moves_push (c : Http2Connection) (id : Int) (bytes : Bytes) (resumed : Option NetworkError)
    (hf : feeds id) : Moves feeds drops c (c.push id bytes resumed).1 := by
  unfold push
  split
  · exact .refl c
  next p hp =>
    split
    · exact .refl c
    next h =>
      have hcan : p.cancelled = false := by
        cases hc : p.cancelled with
        | false => rfl
        | true => exact absurd (.inl hc) h
      have hfin : p.finished = false := by
        cases hc : p.finished with
        | false => rfl
        | true => exact absurd (.inr hc) h
      split
      · exact .refl c
      · split
        · exact .refl c
        · apply moves_ready c id p _ resumed hp _ _ (Nat.le_add_right _ _) hf
          · refine ⟨hfin, hcan, rfl, eofRead_false hfin, rfl, fun _ => ?_⟩
            exact List.append_ne_nil_of_right_ne_nil _ (List.cons_ne_nil _ _)
          · exact fun he => (List.append_eq_nil_iff.mp he).1

theorem moves_append (c : Http2Connection) (id : Int) (bytes : Bytes) (resumed : Option NetworkError)
    (hf : feeds id) : Moves feeds drops c (c.append id bytes resumed).1 := by
  unfold append
  split
  · exact .refl c
  · exact moves_push c id bytes resumed hf

theorem moves_appendChunks (c : Http2Connection) (id : Int) (chunks : List Bytes)
    (resumed : Option NetworkError) (hf : feeds id) :
    Moves feeds drops c (c.appendChunks id chunks resumed).1 := by
  unfold appendChunks
  split
  · exact .refl c
  · split
    · exact .refl c
    · exact moves_push c id chunks.flatten resumed hf

theorem canProduce_none (hp : c.source id = some p) (h : c.canProduce id = none) :
    p.cancelled = false ∧ p.finished = false := by
  unfold canProduce at h
  rw [hp] at h
  simp only at h
  split at h
  · cases h
  next hc =>
    split at h
    · cases h
    next hf => exact ⟨Bool.eq_false_iff.mpr fun he => hc (.inr he), Bool.eq_false_iff.mpr hf⟩

theorem moves_finish (c : Http2Connection) (id : Int) (trailers : Fields)
    (resumed : Option NetworkError) (hf : feeds id) :
    Moves feeds drops c (c.finish id trailers resumed).1 := by
  unfold finish
  split
  · exact .refl c
  · exact .refl c
  next p hcan hp =>
    obtain ⟨hc, hfin⟩ := canProduce_none hp hcan
    simp only
    split
    · exact .refl c
    · split
      · exact .refl c
      · apply moves_ready c id p _ resumed hp
        · exact ⟨hfin, hc, rfl, eofRead_false (p := p) hfin, rfl, fun h => h⟩
        · exact fun he => he
        · exact Nat.le_add_right _ _
        · exact hf
theorem moves_erasePending (c : Http2Connection) (id : Int) :
    Moves feeds drops c (c.erasePending id) :=
  .of_eq rfl rfl rfl rfl rfl rfl rfl rfl fun h => h

/-- `deselect` is about the credit only. -/
theorem deselect_cases (c : Http2Connection) (id : Int) :
    (c.selectedStream = id ∧ c.deselect id = { c with selectedStream := 0, readCredit := false }) ∨
      (c.selectedStream ≠ id ∧ c.deselect id = c) := by
  unfold deselect
  split
  next h => exact .inl ⟨h, rfl⟩
  next h => exact .inr ⟨h, rfl⟩

theorem deselect_source (c : Http2Connection) (id : Int) : (c.deselect id).source = c.source := by
  obtain ⟨-, h⟩ | ⟨-, h⟩ := deselect_cases c id
  · rw [h]
    rfl
  · rw [h]

/-- The producer is cancelled, and it had the credit if the call may drop it. -/
theorem steady_stop (hd : drops id) :
    Steady feeds drops c
      ((c.deselect id).replace id p (stoppedProducer p)).notifyReaders where
  role := by obtain ⟨-, h⟩ | ⟨-, h⟩ := deselect_cases c id <;> rw [h] <;> rfl
  options := by obtain ⟨-, h⟩ | ⟨-, h⟩ := deselect_cases c id <;> rw [h] <;> rfl
  library := by obtain ⟨-, h⟩ | ⟨-, h⟩ := deselect_cases c id <;> rw [h] <;> exact ⟨_, rfl⟩
  sources := by
    intro id' q hq hc
    change ((c.deselect id).replace id p (stoppedProducer p)).source id' = some q at hq
    rw [source_replace, deselect_source] at hq
    split at hq
    next h => cases hq; cases hc
    next h => exact .inr (.inr hq)
  credit := by
    intro h
    change (c.deselect id).readCredit = true at h
    change _ ∧ (c.deselect id).selectedStream = _ ∧ _
    obtain ⟨-, hd⟩ | ⟨hsel, hd⟩ := deselect_cases c id
    · rw [hd] at h
      cases h
    · rw [hd] at h ⊢
      refine ⟨h, rfl, fun q hq hc => ⟨q, ?_, hc, .inl rfl⟩⟩
      change (c.replace id p (stoppedProducer p)).source c.selectedStream = some q
      rw [source_replace, if_neg hsel]
      exact hq
  lost := by
    intro h
    change (c.deselect id).readCredit = true ∨ _
    obtain ⟨hsel, -⟩ | ⟨-, hd⟩ := deselect_cases c id
    · exact .inr (hsel ▸ hd)
    · rw [hd]
      exact .inl h
  readers := fun _ r hr => .inl (waits_notify _ r hr)

theorem moves_stop (c : Http2Connection) (id : Int) (cancelPending : Bool) (hd : drops id) :
    Moves feeds drops c (c.stop id cancelPending) := by
  unfold stop
  have hfirst : Moves feeds drops c (if cancelPending then c.erasePending id else c) := by
    split
    · exact moves_erasePending c id
    · exact .refl c
  apply hfirst.trans
  generalize (if cancelPending then c.erasePending id else c) = c
  simp only
  split
  · exact .refl c
  next p hp =>
    split
    · exact .refl c
    · apply Moves.wake
      · obtain ⟨-, h⟩ | ⟨-, h⟩ := deselect_cases c id <;> rw [h] <;> rfl
      · obtain ⟨-, h⟩ | ⟨-, h⟩ := deselect_cases c id <;> rw [h] <;> rfl
      · exact fun _ => steady_stop hd

theorem source_stop (c : Http2Connection) (id : Int) (cancelPending : Bool)
    (hp : (c.stop id cancelPending).source id = some p) : p.cancelled = true := by
  unfold stop at hp
  simp only at hp
  generalize (if cancelPending then c.erasePending id else c) = c at hp
  split at hp
  next h => rw [h] at hp; cases hp
  next q h =>
    split at hp
    next hc => rw [h] at hp; cases hp; exact hc
    next hc =>
      have hs : (((c.deselect id).replace id q (stoppedProducer q)).notifyReaders.wake).source id =
          some (stoppedProducer q) := by
        unfold Http2Connection.wake
        split <;> exact (source_replace _ id q _ id).trans (if_pos rfl)
      rw [hs] at hp
      cases hp
      rfl

theorem moves_erase (c : Http2Connection) (id : Int)
    (hc : ∀ p, c.source id = some p → p.cancelled = true) :
    Moves feeds drops c (c.eraseSource id) where
  closed := fun h => h
  asleep := by
    refine fun h => ⟨h, fun hc => ⟨hc, rfl, fun id' q hq hcan => ?_⟩⟩
    rw [source_eraseSource] at hq
    split at hq
    · cases hq
    · exact hq
  steady := by
    refine fun _ => ⟨rfl, rfl, ⟨_, rfl⟩, fun id' q hq hcan => .inr (.inr ?_), fun h =>
      ⟨h, rfl, fun q hq hcan => ⟨q, ?_, hcan, .inl rfl⟩⟩, .inl, fun hr r hm => ?_⟩
    · rw [source_eraseSource] at hq
      split at hq
      · cases hq
      · exact hq
    · rw [source_eraseSource]
      split
      next h =>
        rw [h] at hq
        rw [hc q hq] at hcan
        cases hcan
      next h => exact hq
    · obtain h | ⟨q, hq, hcan, hnot⟩ := hr r hm
      · exact .inl h
      · refine .inr ⟨q, ?_, hcan, hnot⟩
        rw [source_eraseSource]
        split
        next h =>
          rw [h] at hq
          rw [hc q hq] at hcan
          cases hcan
        next h => exact hq

theorem moves_wake (c : Http2Connection) : Moves feeds drops c c.wake :=
  .wake rfl rfl fun _ => .refl c

theorem moves_cancelStream (c : Http2Connection) (id : Int) (hd : drops id) :
    Moves feeds drops c (c.cancelStream id) := by
  unfold cancelStream cancel
  apply (moves_stop c id true hd).trans
  apply (moves_erase _ id _).trans (moves_wake _)
  exact fun p hp => source_stop c id true hp

theorem moves_onClose (c : Http2Connection) (id : Int) (code : Http2Code) (hd : drops id) :
    Moves feeds drops c (c.onClose id code) := by
  unfold onClose
  apply (moves_stop c id _ hd).trans
  apply moves_erase
  exact fun p hp => source_stop c id _ hp

theorem moves_streamClose (c : Http2Connection) (id : Int) (code : Http2Code) (hd : drops id) :
    Moves feeds drops c (c.streamClose id code) := by
  unfold streamClose
  apply (moves_onClose c id code hd).trans
  unfold onStreamClose
  split
  · exact moves_cancelStream _ id hd
  · split
    · exact .refl _
    · exact moves_onClose _ id code hd

theorem moves_release (c : Http2Connection) (permit : Nat) :
    Moves feeds drops c (c.release permit) := by
  unfold release
  split
  · exact .refl c
  next r hr =>
    exact .of_eq rfl rfl rfl rfl rfl rfl rfl rfl fun _ r hm => .inl (waits_notify _ r hm)

theorem waits_reserve (hcan : c.canProduce id = none) (hr : c.mayRead id = false) :
    c.Waits { streamId := id, maximum := n } := by
  right
  cases hp : c.source id with
  | none => simp only [canProduce, hp, reduceCtorEq] at hcan
  | some p =>
    refine ⟨p, rfl, (canProduce_none hp hcan).1, fun ⟨he, hw, hs, ha⟩ => ?_⟩
    simp only [mayRead, hp, Option.all_some, he, List.isEmpty_nil, hw, hs, ha, decide_true,
      Bool.and_self, Bool.true_eq_false] at hr

theorem moves_reserve (c : Http2Connection) (id : Int) (maximum : Nat) (late : Bool) :
    Moves feeds drops c (c.reserve id maximum late) := by
  unfold reserve
  split
  · exact .refl c
  next h =>
    split
    · refine .of_eq rfl rfl rfl rfl rfl rfl rfl rfl fun hr r hm => ?_
      exact (hr r hm).of_eq rfl ⟨_, rfl⟩ rfl (Nat.le_add_right _ _)
    next hm =>
      refine .of_eq rfl rfl rfl rfl rfl rfl rfl rfl fun hr r hr' => ?_
      obtain hr' | hr' := List.mem_append.mp hr'
      · exact (hr r hr').of_eq rfl ⟨_, rfl⟩ rfl (Nat.le_refl _)
      · rw [List.mem_singleton.mp hr']
        have hcan : c.canProduce id = none := by
          cases hc : c.canProduce id with
          | none => rfl
          | some e => exact absurd (.inl (by rw [hc]; rfl)) h
        exact (waits_reserve hcan (Bool.eq_false_iff.mpr hm)).of_eq rfl ⟨_, rfl⟩ rfl (Nat.le_refl _)

theorem moves_appendReserved (c : Http2Connection) (id : Int) (bytes : Bytes) (permit : Nat)
    (resumed : Option NetworkError) (hf : feeds id) :
    Moves feeds drops c (c.appendReserved id bytes permit resumed).1 := by
  unfold appendReserved
  split
  · exact moves_release c permit
  · exact (moves_release c permit).trans (moves_append _ id bytes resumed hf)

theorem steady_register (c : Http2Connection) (id : Int) (hn : c.source id = none) :
    Steady feeds drops c (c.setSource id {}) where
  role := rfl
  options := rfl
  library := ⟨_, rfl⟩
  sources := by
    intro id' q hq hc
    rw [source_setSource] at hq
    split at hq
    next h => cases hq; exact .inl ⟨rfl, rfl⟩
    next h => exact .inr (.inr hq)
  credit := by
    refine fun h => ⟨h, rfl, fun q hq hc => ⟨q, ?_, hc, .inl rfl⟩⟩
    rw [source_setSource]
    split
    next h => rw [h, hn] at hq; cases hq
    next h => exact hq
  lost := .inl
  readers := by
    intro hr r hm
    obtain h | ⟨q, hq, hc, hnot⟩ := hr r hm
    · exact .inl h
    · refine .inr ⟨q, ?_, hc, hnot⟩
      rw [source_setSource]
      split
      next h => rw [h, hn] at hq; cases hq
      next h => exact hq

theorem steady_queue (c : Http2Connection) (output : Output) (sendable : Nat) :
    Steady feeds drops c (c.queue output sendable) where
  role := rfl
  options := rfl
  library := ⟨_, rfl⟩
  sources := fun _ _ h _ => .inr (.inr h)
  credit := fun h => ⟨h, rfl, fun p hp hc => ⟨p, hp, hc, .inl rfl⟩⟩
  lost := .inl
  readers := fun hr r hm => (hr r hm).of_eq rfl ⟨_, rfl⟩ rfl (Nat.le_refl _)

theorem change_submit_closed (o : Output) (id : Int) : (o.change (.submit id)).closed = o.closed := by
  unfold Output.change
  simp only
  split <;> rfl

theorem moves_submit (c : Http2Connection) (id : Int) (sendable : Nat) :
    Moves feeds drops c (c.submit id sendable) := by
  unfold submit
  split
  · exact .refl c
  · have hreg : Steady feeds drops c (c.register id) := by
      unfold register
      split
      · exact .refl c
      next h => exact steady_register c id (Option.not_isSome_iff_eq_none.mp h)
    apply Moves.wake
    · exact change_submit_closed c.output id
    · unfold register
      split <;> rfl
    · exact fun _ => hreg.trans (steady_queue _ _ sendable)

theorem moves_submitResponseHeaders (c : Http2Connection) (id : Int) (sendable : Nat) :
    Moves feeds drops c (c.submitResponseHeaders id sendable) := by
  unfold submitResponseHeaders
  split
  · exact .refl c
  · apply Moves.wake
    · exact change_submit_closed c.output id
    · rfl
    · exact fun _ => steady_queue c _ sendable

theorem moves_control (c : Http2Connection) (sendable : Nat) :
    Moves feeds drops c (c.control sendable) := by
  apply Moves.wake
  · rfl
  · rfl
  · exact fun _ => steady_queue c _ sendable

theorem moves_finishConnection (c : Http2Connection) : Moves feeds drops c c.finishConnection := by
  apply Moves.wake
  · rfl
  · rfl
  · intro _
    exact
      { role := rfl
        options := rfl
        library := ⟨_, rfl⟩
        sources := fun _ _ h _ => .inr (.inr h)
        credit := fun h => ⟨h, rfl, fun p hp hc => ⟨p, hp, hc, .inl rfl⟩⟩
        lost := .inl
        readers := fun hr r hm => (hr r hm).of_eq rfl ⟨_, rfl⟩ rfl (Nat.le_refl _) }

theorem closed_stop (c : Http2Connection) (id : Int) (cancelPending : Bool)
    (h : c.output.closed = true) :
    (c.stop id cancelPending).output.closed = true ∧ (c.stop id cancelPending).writer = c.writer := by
  unfold stop
  simp only
  have hfirst : (if cancelPending then c.erasePending id else c).output.closed = true ∧
      (if cancelPending then c.erasePending id else c).writer = c.writer := by
    split
    · exact ⟨h, rfl⟩
    · exact ⟨h, rfl⟩
  obtain ⟨hc, hw⟩ := hfirst
  rw [← hw]
  generalize (if cancelPending then c.erasePending id else c) = c at hc
  split
  · exact ⟨hc, rfl⟩
  · split
    · exact ⟨hc, rfl⟩
    · have hd : (c.deselect id).output = c.output ∧ (c.deselect id).writer = c.writer := by
        obtain ⟨-, h⟩ | ⟨-, h⟩ := deselect_cases c id <;> rw [h] <;> exact ⟨rfl, rfl⟩
      unfold Http2Connection.wake
      rw [if_pos]
      · exact ⟨(congrArg Output.closed hd.1).trans hc, hd.2⟩
      · exact (congrArg Output.closed hd.1).trans hc

theorem closed_cancels (ids : List Int) (c : Http2Connection) (h : c.output.closed = true) :
    (ids.foldl (fun c id => c.cancel id) c).output.closed = true ∧
      (ids.foldl (fun c id => c.cancel id) c).writer = c.writer := by
  induction ids generalizing c with
  | nil => exact ⟨h, rfl⟩
  | cons id ids ih =>
    obtain ⟨hc, hw⟩ := closed_stop c id true h
    obtain ⟨hc', hw'⟩ := ih (c.cancel id) hc
    exact ⟨hc', hw'.trans hw⟩

theorem closeOutput_closed (c : Http2Connection) :
    c.closeOutput.output.closed = true ∧ c.closeOutput.writer = c.writer := by
  unfold closeOutput
  split
  next h => exact ⟨h, rfl⟩
  next h =>
    have hchange : (c.output.change .close).closed = true := by
      unfold Output.change
      simp only
      rw [if_neg h]
    exact closed_cancels c.producers.keys { c with output := c.output.change .close } hchange

theorem close_closed (c : Http2Connection) : c.close.output.closed = true := by
  unfold close
  split
  next h => exact h
  next h => exact (closeOutput_closed _).1

theorem moves_close (c : Http2Connection) : Moves feeds drops c c.close := by
  refine ⟨fun _ => close_closed c, fun hw => ?_, fun hc => ?_⟩
  · unfold close at hw
    split at hw
    next h => exact ⟨hw, fun hc => by rw [h] at hc; cases hc⟩
    next h =>
      rw [(closeOutput_closed _).2] at hw
      exact absurd hw (WriterState.woken_ne _)
  · rw [close_closed] at hc
    cases hc

theorem moves_call (c : Http2Connection) (call : PumpCall) :
    Moves (call.feeds = some ·) (call.drops = some ·) c (c.call call) := by
  cases call with
  | append id bytes resumed => exact moves_append c id bytes resumed rfl
  | appendChunks id chunks resumed => exact moves_appendChunks c id chunks resumed rfl
  | reserveRead id maximum late =>
    change Moves _ _ c (c.reserveRead id maximum late)
    unfold reserveRead
    split
    · exact .refl c
    · exact moves_reserve c id maximum late
  | appendReserved id bytes permit resumed =>
    exact moves_appendReserved c id bytes permit resumed rfl
  | release permit => exact moves_release c permit
  | finish id trailers resumed => exact moves_finish c id trailers resumed rfl
  | cancel id => exact moves_stop c id true rfl
  | cancelStream id => exact moves_cancelStream c id rfl
  | streamClose id code => exact moves_streamClose c id code rfl
  | submit id sendable => exact moves_submit c id sendable
  | submitResponseHeaders id sendable => exact moves_submitResponseHeaders c id sendable
  | control sendable => exact moves_control c sendable
  | finishConnection => exact moves_finishConnection c
  | close => exact moves_close c

theorem source_drops (c : Http2Connection) (call : PumpCall) (hd : call.drops = some id)
    (hp : (c.call call).source id = some p) : p.cancelled = true := by
  have hcancelStream : ∀ c : Http2Connection, (c.cancelStream id).source id = none := by
    intro c
    unfold cancelStream Http2Connection.wake
    split <;> exact (source_eraseSource _ id id).trans (if_pos rfl)
  have honClose : ∀ (c : Http2Connection) code, (c.onClose id code).source id = none := by
    intro c code
    exact (source_eraseSource _ id id).trans (if_pos rfl)
  cases call with
  | cancel id' =>
    cases hd
    exact source_stop c id true hp
  | cancelStream id' =>
    cases hd
    change (c.cancelStream id).source id = some p at hp
    rw [hcancelStream] at hp
    cases hp
  | streamClose id' code =>
    cases hd
    change ((c.onClose id code).onStreamClose id code).source id = some p at hp
    unfold onStreamClose at hp
    split at hp
    · rw [hcancelStream] at hp
      cases hp
    · rw [honClose] at hp
      simp only at hp
      rw [honClose] at hp
      cases hp
  | _ => cases hd

end Http2Connection

end Hical.Http2
