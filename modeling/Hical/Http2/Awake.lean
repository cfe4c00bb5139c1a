import Hical.Http2.Wakes
import Hical.Lib.Runs

namespace Hical.Http2

namespace Http2Connection
variable {c c' s : Http2Connection} {feeds drops : Int → Prop} {id : Int} {p p' : DataProducer}
  {answer : SendAnswer}

def Credit (c : Http2Connection) : Prop :=
  c.readCredit = true → ∃ p, c.source c.selectedStream = some p ∧ p.cancelled = false ∧
    p.deferred = false ∧ (p.chunks ≠ [] ∨ p.finished = true)

/-- There is nothing to send, and no file job may read that was not told to. -/
structure Quiet (c : Http2Connection) : Prop where
  sendable : c.library.sendable = 0
  sends : ∀ id, ¬c.Sends id
  readers : ∀ r ∈ c.readers, c.Waits r

structure Inv (c : Http2Connection) : Prop where
  credit : c.output.closed = false → c.Credit
  asleep : c.writer = .waiting false → c.output.closed = false ∧ c.Quiet

theorem credit_steady (h : c.Credit) (hs : Steady feeds drops c c') : c'.Credit := by
  intro hcr
  obtain ⟨hcr', hsel, hkeep⟩ := hs.credit hcr
  obtain ⟨p, hp, hc, hd, hq⟩ := h hcr'
  obtain ⟨p', hp', hc', rfl | hg⟩ := hkeep p hp hc
  · exact ⟨p', hsel ▸ hp', hc', hd, hq⟩
  · refine ⟨p', hsel ▸ hp', hc', hg.deferred, .inl (hg.chunks ?_)⟩
    apply hq.resolve_right
    rw [hg.finished]
    exact Bool.false_ne_true

theorem Moves.open_of (hm : Moves feeds drops c c') (h : c'.output.closed = false) :
    c.output.closed = false := by
  cases hc : c.output.closed with
  | false => rfl
  | true => rw [hm.closed hc] at h; cases h

theorem inv_moves (h : c.Inv) (hm : Moves feeds drops c c') : c'.Inv where
  credit := fun hc => credit_steady (h.credit (hm.open_of hc)) (hm.steady hc)
  asleep := by
    intro hw
    obtain ⟨hw', hs⟩ := hm.asleep hw
    obtain ⟨hc, hq⟩ := h.asleep hw'
    obtain ⟨hc', hl, hp⟩ := hs hc
    refine ⟨hc', ⟨hl ▸ hq.sendable, fun id ⟨p, hp', hcan⟩ => ?_, (hm.steady hc').readers hq.readers⟩⟩
    apply hq.sends id
    refine ⟨p, hp id p hp' ?_, hl ▸ hcan⟩
    simp only [canSend, Bool.and_eq_true, Bool.not_eq_true'] at hcan
    exact hcan.1.1

theorem inv_calls (calls : List PumpCall) (h : c.Inv) : (calls.foldl call c).Inv := by
  induction calls generalizing c with
  | nil => exact h
  | cons a calls ih => exact ih (inv_moves h (moves_call c a))

/-- Both windows of the stream are open, or its request is still to be opened. -/
def Opens (c : Http2Connection) (id : Int) (p : DataProducer) : Prop :=
  (0 < c.library.connectionWindow ∧ 0 < c.library.streamWindow id) ∨
    (c.library.streamWindow id = -1 ∧ p.readStarted = false ∧ c.mayOpenStream = true)

/-- What holds of a connection while nghttp2 is asked for output: if a stream can send, then one
holds the credit that nghttp2 could read or open. -/
structure Inside (s c : Http2Connection) : Prop where
  role : c.role = s.role
  library : ∃ n, c.library = { s.library with sendable := n }
  credit : c.readCredit = true → ∃ p, c.source c.selectedStream = some p ∧ p.cancelled = false ∧
    p.deferred = false ∧ p.eofRead = false ∧ (p.chunks ≠ [] ∨ p.finished = true) ∧
    c.Opens c.selectedStream p
  served : c.readCredit = false → ∀ id, ¬c.Sends id
  readers : ∀ r ∈ c.readers, c.Waits r

theorem opens_congr (hrole : c'.role = c.role)
    (hlibrary : ∃ n, c'.library = { c.library with sendable := n })
    (hr : p'.readStarted = p.readStarted) (h : c.Opens id p) : c'.Opens id p' := by
  obtain ⟨n, hn⟩ := hlibrary
  unfold Opens mayOpenStream at h ⊢
  rw [hn, hrole, hr]
  exact h

theorem sends_congr (hlibrary : ∃ n, c'.library = { c.library with sendable := n })
    (hp : c.source id = some p) (hcan : canSend c'.library id p = true) : c.Sends id := by
  obtain ⟨n, hn⟩ := hlibrary
  rw [hn] at hcan
  exact ⟨p, hp, hcan⟩

theorem canSend_cancelled {l : Library} (h : canSend l id p = true) : p.cancelled = false := by
  simp only [canSend, Bool.and_eq_true, Bool.not_eq_true'] at h
  exact h.1.1

theorem canSend_chunks {l : Library} (h : canSend l id p = true) :
    ¬(p.chunks = [] ∧ p.finished = false) := by
  rintro ⟨he, hf⟩
  simp only [canSend, he, hf, List.isEmpty_nil, Bool.not_true, Bool.false_and, Bool.or_false,
    Bool.and_false] at h
  cases h

theorem inside_call (h : s.Inside c) (hh : c.Harmless a) (hopen : (c.call a).output.closed = false) :
    s.Inside (c.call a) := by
  have hm := moves_call c a
  have hs := hm.steady hopen
  refine ⟨hs.role.trans h.role, ?_, fun hcr => ?_, fun hcr id ⟨p, hp, hcan⟩ => ?_,
    hs.readers h.readers⟩
  · obtain ⟨n, hn⟩ := h.library
    obtain ⟨m, hm⟩ := hs.library
    exact ⟨m, by rw [hm, hn]⟩
  · obtain ⟨hcr', hsel, hkeep⟩ := hs.credit hcr
    obtain ⟨p, hp, hc, hd, he, hq, ho⟩ := h.credit hcr'
    rw [hsel]
    obtain ⟨p', hp', hc', rfl | hg⟩ := hkeep p hp hc
    · exact ⟨p', hp', hc', hd, he, hq, opens_congr hs.role hs.library rfl ho⟩
    · refine ⟨p', hp', hc', hg.deferred, hg.eofRead, .inl (hg.chunks ?_),
        opens_congr hs.role hs.library hg.readStarted ho⟩
      apply hq.resolve_right
      rw [hg.finished]
      exact Bool.false_ne_true
  · obtain hnone | hf | hp' := hs.sources id p hp (canSend_cancelled hcan)
    · exact canSend_chunks hcan hnone
    · cases hcr' : c.readCredit with
      | false => exact hh.feeds id hf hcr' ⟨p, hp, hcan⟩
      | true =>
        obtain hkept | hd := hs.lost hcr'
        · rw [hcr] at hkept
          cases hkept
        · cases a <;> cases hf <;> cases hd
    · cases hcr' : c.readCredit with
      | false => exact h.served hcr' id (sends_congr hs.library hp' hcan)
      | true =>
        obtain hkept | hd := hs.lost hcr'
        · rw [hcr] at hkept
          cases hkept
        · by_cases hid : id = c.selectedStream
          · rw [← hid] at hd
            have hcancelled := source_drops c a hd hp
            rw [canSend_cancelled hcan] at hcancelled
            cases hcancelled
          · exact hh.drops _ hd hcr' rfl id hid (sends_congr hs.library hp' hcan)

theorem readCredited_spec (c : Http2Connection) (id : Int) (p : DataProducer) (n : Nat) :
    (c.readCredited id p n).2.deferred = false ∧ (c.readCredited id p n).1.readCredit = false ∧
      (c.readCredited id p n).1.output = c.output := by
  unfold readCredited
  simp only
  split
  · split <;> exact ⟨rfl, rfl, rfl⟩
  · split
    · exact ⟨rfl, rfl, rfl⟩
    · split <;> exact ⟨rfl, rfl, rfl⟩

theorem read_cases (c : Http2Connection) (id : Int) (n : Nat) :
    ((c.read id n).1 = c ∧ (c.read id n).2.deferred = false) ∨
      (∃ p, c.source id = some p ∧ (c.read id n).1 = c.setSource id { p with deferred := true } ∧
        ((p.chunks = [] ∧ p.finished = false) ∨ c.selectedStream ≠ id ∨ c.readCredit = false)) ∨
      ∃ p, c.read id n = c.readCredited id p n := by
  unfold read
  split
  · exact .inl ⟨rfl, rfl⟩
  next p hp =>
    split
    · exact .inl ⟨rfl, rfl⟩
    · split
      next hcond => exact .inr (.inl ⟨p, hp, rfl, hcond⟩)
      · exact .inr (.inr ⟨p, rfl⟩)

theorem read_deferred (h : (c.read id n).2.deferred = true) :
    ∃ p, c.source id = some p ∧ (c.read id n).1 = c.setSource id { p with deferred := true } ∧
      ((p.chunks = [] ∧ p.finished = false) ∨ c.selectedStream ≠ id ∨ c.readCredit = false) := by
  obtain ⟨-, hd⟩ | hd | ⟨p, hr⟩ := read_cases c id n
  · rw [h] at hd; cases hd
  · exact hd
  · rw [hr, (readCredited_spec c id p n).1] at h
    cases h

theorem ne_of_deferred (hcr : c.readCredit = true) (hsel : c.source c.selectedStream = some p')
    (hready : p'.chunks ≠ [] ∨ p'.finished = true) (hp : c.source id = some p)
    (hcond : (p.chunks = [] ∧ p.finished = false) ∨ c.selectedStream ≠ id ∨ c.readCredit = false) :
    c.selectedStream ≠ id := by
  rintro rfl
  rw [hp] at hsel
  cases hsel
  obtain ⟨hnil, hf⟩ | hne | hno := hcond
  · obtain hready | hready := hready
    · exact hready hnil
    · rw [hf] at hready; cases hready
  · exact hne rfl
  · rw [hcr] at hno; cases hno

theorem inside_read (h : s.Inside c) (hd : (c.read id n).2.deferred = true) :
    s.Inside (c.read id n).1 := by
  obtain ⟨p, hp, heq, hcond⟩ := read_deferred hd
  rw [heq]
  refine ⟨h.role, h.library, fun hcr => ?_, fun hcr id' ⟨q, hq, hcan⟩ => ?_, fun r hr => ?_⟩
  · obtain ⟨q, hq, hc, hdef, he, hready, ho⟩ := h.credit hcr
    refine ⟨q, ?_, hc, hdef, he, hready, ho⟩
    change (c.setSource id _).source c.selectedStream = some q
    rw [source_setSource, if_neg (ne_of_deferred (c := c) hcr hq hready hp hcond)]
    exact hq
  · rw [source_setSource] at hq
    split at hq
    next hid =>
      cases hq
      exact h.served hcr id' ⟨p, hid ▸ hp, hcan⟩
    next hid => exact h.served hcr id' ⟨q, hq, hcan⟩
  · obtain hn | ⟨q, hq, hc, hnot⟩ := h.readers r hr
    · exact .inl hn
    · right
      rw [source_setSource]
      split
      next hid =>
        rw [hid, hp] at hq
        cases hq
        exact ⟨_, rfl, hc, hnot⟩
      next hid => exact ⟨q, hq, hc, hnot⟩
theorem closed_read (c : Http2Connection) (id : Int) (n : Nat) : (c.read id n).1.output = c.output := by
  obtain ⟨h, -⟩ | ⟨p, -, h, -⟩ | ⟨p, h⟩ := read_cases c id n
  · rw [h]
  · rw [h]
    rfl
  · rw [h]
    exact (readCredited_spec c id p n).2.2

theorem credit_read (h : c.Credit) : (c.read id n).1.Credit := by
  obtain ⟨heq, -⟩ | ⟨p, hp, heq, hcond⟩ | ⟨p, heq⟩ := read_cases c id n
  · rw [heq]
    exact h
  · rw [heq]
    intro hcr
    obtain ⟨q, hq, hc, hd, hready⟩ := h hcr
    refine ⟨q, ?_, hc, hd, hready⟩
    change (c.setSource id _).source c.selectedStream = some q
    rw [source_setSource, if_neg (ne_of_deferred (c := c) hcr hq hready hp hcond)]
    exact hq
  · rw [heq]
    intro hcr
    rw [(readCredited_spec c id p n).2.1] at hcr
    cases hcr

theorem open_of_callback (cb : SendCallback) (h : (c.callback cb).output.closed = false) :
    c.output.closed = false := by
  cases cb with
  | read id n => exact (congrArg Output.closed (closed_read c id n)).symm.trans h
  | call a => exact (moves_call c a).open_of h

theorem open_of_callbacks (cbs : List SendCallback)
    (h : (cbs.foldl callback c).output.closed = false) : c.output.closed = false := by
  induction cbs generalizing c with
  | nil => exact h
  | cons cb cbs ih => exact open_of_callback cb (ih h)

theorem credit_callbacks (cbs : List SendCallback)
    (h : (cbs.foldl callback c).output.closed = false) (hc : c.Credit) :
    (cbs.foldl callback c).Credit := by
  induction cbs generalizing c with
  | nil => exact hc
  | cons cb cbs ih =>
    apply ih h
    cases cb with
    | read id n => exact credit_read hc
    | call a => exact credit_steady hc ((moves_call c a).steady (open_of_callbacks cbs h))

theorem inside_callbacks (cbs : List SendCallback)
    (h : (cbs.foldl callback c).output.closed = false) (hc : s.Inside c)
    (hr : c.ReadsDeferred cbs) (hh : c.HarmlessCallbacks cbs) : s.Inside (cbs.foldl callback c) := by
  induction cbs generalizing c with
  | nil => exact hc
  | cons cb cbs ih =>
    cases cb with
    | read id n => exact ih h (inside_read hc hr.1) hr.2 hh
    | call a => exact ih h (inside_call hc hh.1 (open_of_callbacks cbs h)) hr hh.2

theorem quiet_of_exhausted (h : s.Inside c) (hcb : answer.callbacks.foldl callback s = c)
    (he : s.Exhausted answer) : Quiet { c with library := answer.library } := by
  obtain ⟨n, hn⟩ := h.library
  have hkeys : ∀ {id p}, c.source id = some p →
      id ∈ (answer.callbacks.foldl callback s).producers.keys := by
    intro id p hp
    rw [hcb]
    exact mem_keys_source.mpr ⟨p, hp⟩
  have hwindow : ∀ {id p}, c.source id = some p →
      answer.library.streamWindow id = c.library.streamWindow id := by
    intro id p hp
    rw [he.streamWindow id (hkeys hp), hn]
  have hconn : answer.library.connectionWindow = c.library.connectionWindow := by
    rw [he.connectionWindow, hn]
  have hsends : ∀ id p, c.source id = some p → canSend answer.library id p = true → c.Sends id := by
    intro id p hp hcan
    refine ⟨p, hp, ?_⟩
    unfold canSend at hcan ⊢
    rw [← hwindow hp, ← hconn]
    exact hcan
  refine ⟨he.sendable, fun id ⟨p, hp, hcan⟩ => ?_, fun r hr => ?_⟩
  · cases hcr : c.readCredit with
    | false => exact h.served hcr id (hsends id p hp hcan)
    | true =>
      obtain ⟨q, hq, hc, hd, heof, -, ho⟩ := h.credit hcr
      have hq' : q ∈ (answer.callbacks.foldl callback s).source c.selectedStream := by
        rw [hcb]
        exact hq
      obtain ⟨hw, hsw⟩ | ⟨hunknown, hstarted, hmay⟩ := ho
      · apply he.read _ (hkeys hq) q hq' hc heof hd
        rw [hconn, hwindow hq]
        exact ⟨hw, hsw⟩
      · have hno := he.request _ (hkeys hq) q hq' hc hstarted ((hwindow hq).trans hunknown)
        simp only [mayOpenStream, hn, h.role, Bool.or_eq_true, bne_iff_ne, ne_eq,
          decide_eq_true_eq] at hmay
        simp only [mayOpenStream, he.peerMax, Bool.or_eq_false_iff, bne_eq_false_iff_eq,
          decide_eq_false_iff_not] at hno
        have hactive := he.active
        obtain hmay | hmay := hmay
        · exact hmay hno.1
        · omega
  · obtain hnot | ⟨p, hp, hc, hnot⟩ := h.readers r hr
    · exact .inl hnot
    · refine .inr ⟨p, hp, hc, fun ⟨hnil, hw, hs, ha⟩ => hnot ⟨hnil, ?_, ?_, ha⟩⟩
      · rw [← hconn]
        exact hw
      · rw [← hwindow hp]
        exact hs
theorem endsByHeaders_congr (hrole : c'.role = c.role)
    (hlibrary : ∃ n, c'.library = { c.library with sendable := n }) :
    c'.endsByHeaders id p = c.endsByHeaders id p := by
  obtain ⟨n, hn⟩ := hlibrary
  unfold endsByHeaders
  rw [hn, hrole]

/-- What a turn of `prepareFinalHeaders` leaves alone, and that its stream is dealt with. -/
structure Prepared (ids : List Int) (c c' : Http2Connection) : Prop where
  role : c'.role = c.role
  library : ∃ n, c'.library = { c.library with sendable := n }
  output : c'.output = c.output
  readers : c'.readers = c.readers
  credit : c.Credit → c'.Credit
  isSome : ∀ id, (c'.source id).isSome = (c.source id).isSome
  done : ∀ id ∈ ids, ∀ p, c'.source id = some p → c.endsByHeaders id p = false
  kept : ∀ id p', c'.source id = some p' → c.source id = some p' ∨ c.endsByHeaders id p' = false

theorem prepared_refl (c : Http2Connection) : Prepared [] c c where
  role := rfl
  library := ⟨_, rfl⟩
  output := rfl
  readers := rfl
  credit := fun h => h
  isSome := fun _ => rfl
  done := fun _ h => nomatch h
  kept := fun _ _ h => .inl h

/-- A turn of the loop either finds nothing to do, or marks the end of the producer as read. -/
theorem prepareFinal_cases (c : Http2Connection) (id : Int) :
    (c.prepareFinal id = c ∧ ∀ p, c.source id = some p → c.endsByHeaders id p = false) ∨
      ∃ p p', c.source id = some p ∧ p'.eofRead = true ∧ c.prepareFinal id =
        ((c.setSource id p').queue c.output (c.library.sendable + 1)).deselect id := by
  unfold prepareFinal
  split
  next hp => exact .inl ⟨rfl, fun p hp' => by rw [hp] at hp'; cases hp'⟩
  next p hp =>
    split
    next hends => exact .inr ⟨p, _, hp, rfl, rfl⟩
    next hends =>
      refine .inl ⟨rfl, fun q hq => ?_⟩
      rw [hp] at hq
      cases hq
      exact Bool.eq_false_iff.mpr hends

theorem endsByHeaders_eofRead (h : p.eofRead = true) : c.endsByHeaders id p = false := by
  unfold endsByHeaders
  rw [h, Bool.not_true, Bool.and_false, Bool.false_and]

theorem prepared_final (c : Http2Connection) (id : Int) : Prepared [id] c (c.prepareFinal id) := by
  obtain ⟨heq, hdone⟩ | ⟨p, p', hp, heof, heq⟩ := prepareFinal_cases c id
  · rw [heq]
    refine { prepared_refl c with done := fun id' hid q hq => ?_ }
    rw [List.mem_singleton.mp hid] at hq ⊢
    exact hdone q hq
  · have hsource : ∀ id', (c.prepareFinal id).source id' =
        if id' = id then some p' else c.source id' := by
      intro id'
      rw [heq, deselect_source]
      exact source_setSource c id p' id'
    constructor
    case role => rw [heq]; obtain ⟨-, h⟩ | ⟨-, h⟩ := deselect_cases _ id <;> rw [h] <;> rfl
    case library => rw [heq]; obtain ⟨-, h⟩ | ⟨-, h⟩ := deselect_cases _ id <;> rw [h] <;> exact ⟨_, rfl⟩
    case output => rw [heq]; obtain ⟨-, h⟩ | ⟨-, h⟩ := deselect_cases _ id <;> rw [h] <;> rfl
    case readers => rw [heq]; obtain ⟨-, h⟩ | ⟨-, h⟩ := deselect_cases _ id <;> rw [h] <;> rfl
    case credit =>
      intro hc hcr
      have hsel : c.selectedStream ≠ id ∧ (c.prepareFinal id).selectedStream = c.selectedStream ∧
          c.readCredit = true := by
        rw [heq] at hcr ⊢
        obtain ⟨-, h⟩ | ⟨hne, h⟩ := deselect_cases _ id
        · rw [h] at hcr
          cases hcr
        · rw [h] at hcr ⊢
          exact ⟨hne, rfl, hcr⟩
      obtain ⟨q, hq, hrest⟩ := hc hsel.2.2
      refine ⟨q, ?_, hrest⟩
      rw [hsel.2.1, hsource, if_neg hsel.1]
      exact hq
    case isSome =>
      intro id'
      rw [hsource]
      split
      next h => rw [h, hp]; rfl
      next h => rfl
    case done =>
      intro id' hid q hq
      rw [hsource, if_pos (List.mem_singleton.mp hid)] at hq
      cases hq
      exact endsByHeaders_eofRead heof
    case kept =>
      intro id' q hq
      rw [hsource] at hq
      split at hq
      · cases hq
        exact .inr (endsByHeaders_eofRead heof)
      · exact .inl hq

theorem prepared_loop (ids : List Int) (c : Http2Connection) :
    Prepared ids c (ids.foldl prepareFinal c) := by
  induction ids generalizing c with
  | nil => exact prepared_refl c
  | cons id ids ih =>
    have h := prepared_final c id
    have h' := ih (c.prepareFinal id)
    rw [List.foldl_cons]
    generalize ids.foldl prepareFinal (c.prepareFinal id) = c' at h'
    have hends : ∀ id' q, (c.prepareFinal id).endsByHeaders id' q = c.endsByHeaders id' q :=
      fun _ _ => endsByHeaders_congr h.role h.library
    constructor
    case role => exact h'.role.trans h.role
    case library =>
      obtain ⟨n, hn⟩ := h.library
      obtain ⟨m, hm⟩ := h'.library
      exact ⟨m, by rw [hm, hn]⟩
    case output => exact h'.output.trans h.output
    case readers => exact h'.readers.trans h.readers
    case credit => exact fun hc => h'.credit (h.credit hc)
    case isSome => exact fun id' => (h'.isSome id').trans (h.isSome id')
    case done =>
      intro id' hid q hq
      obtain hkept | hdone := h'.kept id' q hq
      · obtain rfl | hid := List.mem_cons.mp hid
        · exact h.done id' (List.mem_singleton_self _) q hkept
        · rw [← hends]
          exact h'.done id' hid q hq
      · rw [← hends]
        exact hdone
    case kept =>
      intro id' q hq
      obtain hkept | hdone := h'.kept id' q hq
      · exact h.kept id' q hkept
      · exact .inr (hends id' q ▸ hdone)

theorem prepareFinalHeaders_ok (h : c.prepareFinalHeaders error = .ok c') :
    c'.role = c.role ∧ (∃ n, c'.library = { c.library with sendable := n }) ∧
      c'.output = c.output ∧ c'.readers = c.readers ∧ (c.Credit → c'.Credit) ∧
      ∀ id p, c'.source id = some p → c'.endsByHeaders id p = false := by
  cases error with
  | none =>
    cases h
    have hp := prepared_loop c.producers.keys c
    refine ⟨hp.role, hp.library, hp.output, hp.readers, hp.credit, fun id p hs => ?_⟩
    rw [endsByHeaders_congr hp.role hp.library]
    apply hp.done id _ p hs
    apply mem_keys_source.mpr
    apply Option.isSome_iff_exists.mp
    rw [← hp.isSome, hs]
    rfl
  | some e =>
    unfold prepareFinalHeaders at h
    simp only at h
    split at h
    · cases h
    next hnone =>
      cases h
      refine ⟨rfl, ⟨_, rfl⟩, rfl, rfl, fun hc => hc, fun id p hs => ?_⟩
      apply Bool.eq_false_iff.mpr
      intro hends
      apply hnone
      apply List.any_eq_true.mpr
      exact ⟨id, mem_keys_source.mpr ⟨p, hs⟩, by rw [hs]; exact hends⟩

theorem isReady_of_canSend (hends : c.endsByHeaders id p = false)
    (hcan : canSend c.library id p = true) : c.isReady id p = true := by
  simp only [canSend, Bool.and_eq_true, Bool.or_eq_true, Bool.not_eq_true', decide_eq_true_eq] at hcan
  obtain ⟨⟨hc, hw⟩, ⟨⟨hq, hconn⟩, hstream⟩ | ⟨⟨hf, hq⟩, he⟩⟩ := hcan
  · have heof : p.eofRead = false := by
      apply Bool.eq_false_iff.mpr
      intro he
      rw [(p.drained he).2] at hq
      cases hq
    simp only [isReady, hc, heof, hq, hw, hconn, hstream, decide_true, decide_false, Bool.false_and,
      Bool.or_self, Bool.false_eq_true, if_false, Bool.or_false, Bool.and_self, Bool.or_true]
  · simp only [endsByHeaders, hc, hf, hq, he, hw, decide_false, Bool.not_false, Bool.and_self,
      Bool.and_false, Bool.false_and, Bool.true_eq_false] at hends

theorem opens_of_isReady (hends : c.endsByHeaders id p = false) (h : c.isReady id p = true) :
    p.cancelled = false ∧ p.eofRead = false ∧ (p.chunks ≠ [] ∨ p.finished = true) ∧
      c.Opens id p := by
  unfold isReady at h
  split at h
  · cases h
  next hidle =>
    simp only [Bool.or_eq_true, Bool.and_eq_true, Bool.not_eq_true', not_or, not_and,
      Bool.not_eq_true, Bool.not_eq_false] at hidle
    obtain ⟨⟨hc, he⟩, hq⟩ := hidle
    have hready : p.chunks ≠ [] ∨ p.finished = true := by
      by_cases hnil : p.chunks = []
      · exact .inr (hq (List.isEmpty_iff.mpr hnil))
      · exact .inl hnil
    refine ⟨hc, he, hready, ?_⟩
    simp only at h
    split at h
    · cases h
    next hopen =>
      have hunknown : c.library.streamWindow id = -1 → p.readStarted = false →
          c.mayOpenStream = true := by
        intro hw hs
        simpa only [hw, hs, decide_true, Bool.not_false, Bool.true_and, Bool.not_eq_true',
          Bool.not_eq_false] using hopen
      obtain hnil | hnil := Bool.eq_false_or_eq_true p.chunks.isEmpty
      · have hf := hready.resolve_left fun hne => hne (List.isEmpty_iff.mp hnil)
        simp only [endsByHeaders, hc, hf, hnil, he, Bool.not_false, Bool.and_self, Bool.true_and,
          Bool.not_eq_false', Bool.and_eq_true, decide_eq_true_eq, Bool.not_eq_true'] at hends
        exact .inr ⟨hends.1.2, hends.2, hunknown hends.1.2 hends.2⟩
      · simp only [hnil, Bool.false_or, Bool.and_eq_true, Bool.or_eq_true, decide_eq_true_eq,
          Bool.not_eq_true'] at h
        obtain ⟨hconn, hw | ⟨hw, hs⟩⟩ := h
        · exact .inl ⟨hconn, hw⟩
        · exact .inr ⟨hw, hs, hunknown hw hs⟩

theorem nextStream_none (h : c.nextStream = none) (hp : c.source id = some p) :
    c.isReady id p = false := by
  unfold nextStream at h
  have hnil : c.readyStreams = [] := by
    rw [Option.orElse_eq_none] at h
    exact List.min?_eq_none_iff.mp h.2
  apply Bool.eq_false_iff.mpr
  intro hready
  apply List.ne_nil_of_mem (a := id) _ hnil
  apply List.mem_filter.mpr
  exact ⟨mem_keys_source.mpr ⟨p, hp⟩, by rw [hp]; exact hready⟩

theorem nextStream_some (h : c.nextStream = some id) :
    ∃ p, c.source id = some p ∧ c.isReady id p = true := by
  have hmem : id ∈ c.readyStreams := by
    unfold nextStream at h
    cases hf : (c.readyStreams.filter fun id => decide (c.lastReadStream < id)).min? with
    | none =>
      rw [hf] at h
      exact List.min?_mem h
    | some id' =>
      rw [hf] at h
      cases h
      exact List.mem_of_mem_filter (List.min?_mem hf)
  obtain ⟨-, hready⟩ := List.mem_filter.mp hmem
  cases hp : c.source id with
  | none => rw [hp] at hready; cases hready
  | some p => rw [hp] at hready; exact ⟨p, rfl, hready⟩

theorem inside_granted (hends : c.endsByHeaders id p = false)
    (hready : c.isReady id p = true) (hreaders : ∀ r ∈ c.readers, r.notified = true) :
    Inside (c.granted id p) (c.granted id p) ∧ (c.granted id p).Credit := by
  obtain ⟨hc, he, hq, ho⟩ := opens_of_isReady hends hready
  have hself : (c.granted id p).source id = some { p with deferred := false } := by
    change (c.setSource id _).source id = _
    rw [source_setSource, if_pos rfl]
  refine ⟨⟨rfl, ⟨_, rfl⟩, fun _ => ⟨_, hself, hc, rfl, he, hq, ho⟩, fun hno => ?_,
    fun r hr => .inl (hreaders r hr)⟩, fun _ => ⟨_, hself, hc, rfl, hq⟩⟩
  cases hno

/-- Behind `selectProducer` the credit is held by a stream that nghttp2 could read or open, unless
nothing can be sent. -/
theorem selectProducer_ok (h : c.selectProducer error = .ok s) (hc : c.Credit)
    (hends : ∀ id p, c.source id = some p → c.endsByHeaders id p = false)
    (hreaders : ∀ r ∈ c.readers, r.notified = true) :
    s.Inside s ∧ s.Credit ∧ s.output = c.output := by
  unfold selectProducer at h
  split at h
  next hkeep =>
    cases h
    rw [Bool.and_eq_true] at hkeep
    obtain ⟨hcr, hready⟩ := hkeep
    refine ⟨⟨rfl, ⟨_, rfl⟩, fun _ => ?_, fun hno => ?_, fun r hr => .inl (hreaders r hr)⟩, hc, rfl⟩
    · obtain ⟨p, hp, hcan, hd, -⟩ := hc hcr
      rw [hp] at hready
      obtain ⟨-, he, hq, ho⟩ := opens_of_isReady (hends _ p hp) hready
      exact ⟨p, hp, hcan, hd, he, hq, ho⟩
    · rw [hcr] at hno
      cases hno
  next =>
    simp only at h
    split at h
    next hnone =>
      cases h
      refine ⟨⟨rfl, ⟨_, rfl⟩, fun hcr => (by cases hcr), fun _ id hid => ?_,
        fun r hr => .inl (hreaders r hr)⟩, fun hcr => (by cases hcr), rfl⟩
      obtain ⟨p, hp, hcan⟩ := hid
      have hready := isReady_of_canSend (hends id p hp) hcan
      rw [show c.isReady id p = false from nextStream_none hnone hp] at hready
      cases hready
    next id hsome =>
      obtain ⟨p, hp, hready⟩ := nextStream_some hsome
      unfold grant at h
      rw [hp] at h
      simp only at h
      split at h
      · cases h
      · cases h
        have hin := inside_granted (hends id p hp) hready hreaders
        exact ⟨hin.1, hin.2, rfl⟩

theorem prepare_ok (h : c.prepare answer = .ok s) (hc : c.Credit) :
    s.Inside s ∧ s.Credit ∧ s.output = c.output := by
  unfold prepare at h
  split at h
  · cases h
  next prepared hprepared =>
    obtain ⟨-, -, houtput, hreaders, hcredit, hends⟩ := prepareFinalHeaders_ok hprepared
    have hsel := selectProducer_ok h (hcredit hc) hends (by
      intro r hr
      rw [hreaders] at hr
      exact waits_notify c r hr)
    exact ⟨hsel.1, hsel.2.1, hsel.2.2.trans houtput⟩

/-- What `memSend` gives without octets comes from nghttp2, which gave none. -/
theorem memSend_cases (answer : SendAnswer) (hc : c.Credit) :
    (∃ error, (c.memSend answer).2 = .error error) ∨
    (∃ bytes, (c.memSend answer).2 = .ok bytes ∧ bytes ≠ [] ∧
      ((c.memSend answer).1.output.closed = false → (c.memSend answer).1.Credit)) ∨
    ((c.memSend answer).2 = .ok [] ∧ c.pendingOutput = [] ∧ answer.bytes = .ok [] ∧
      (c.memSend answer).1 = { answer.callbacks.foldl callback c with
        library := answer.library, pendingOutput := [] }) := by
  have hlimit := Http2Options.maxOutputBatchBytes_pos c.valid
  have htake : ∀ {bytes : Bytes}, bytes ≠ [] → bytes.take c.options.maxOutputBatchBytes.toNat ≠ [] := by
    intro bytes hb he
    obtain h | h := List.take_eq_nil_iff.mp he
    · omega
    · exact hb h
  unfold memSend
  simp only
  rw [if_neg (Nat.pos_iff_ne_zero.mp hlimit)]
  split
  · exact .inl ⟨_, rfl⟩
  · split
    next hpending => exact .inr (.inl ⟨_, rfl, htake hpending, fun _ => hc⟩)
    next hpending =>
      split
      · exact .inl ⟨_, rfl⟩
      next bytes hbytes =>
        split
        · exact .inl ⟨_, rfl⟩
        · by_cases hnil : bytes = []
          · subst hnil
            refine .inr (.inr ⟨congrArg Except.ok List.take_nil, not_not.mp hpending, hbytes, ?_⟩)
            rw [List.drop_nil]
          · refine .inr (.inl ⟨_, rfl, htake hnil, fun hopen => ?_⟩)
            exact credit_callbacks (c := c) answer.callbacks hopen hc

theorem nextBatch_spec {bytes : Bytes} (hc : c.Credit)
    (honest : ∀ prepared, c.prepare answer = .ok prepared → prepared.pendingOutput = [] →
      answer.bytes = .ok [] → prepared.Exhausted answer)
    (harmless : ∀ prepared, c.prepare answer = .ok prepared → prepared.pendingOutput = [] →
      answer.bytes = .ok [] → prepared.HarmlessCallbacks answer.callbacks)
    (hn : c.nextBatch answer = (c', .ok bytes)) (hopen : c'.output.closed = false) :
    c'.Credit ∧ (bytes = [] → c'.Quiet) := by
  unfold nextBatch at hn
  split at hn
  · cases hn
  · split at hn
    next hoffset =>
      cases hn
      refine ⟨hc, fun hnil => ?_⟩
      have hlen := congrArg List.length hnil
      simp only [Output.remaining, List.length_drop, List.length_nil] at hlen
      omega
    · split at hn
      · cases hn
      next prepared hprepared =>
        obtain ⟨hin, hcredit, -⟩ := prepare_ok hprepared hc
        obtain ⟨error, he⟩ | ⟨sent, hsent, hne, hkeep⟩ | ⟨hsent, hpending, hbytes, heq⟩ :=
          memSend_cases answer hcredit
        · split at hn
          · cases hn
          next hok => rw [hok] at he; cases he
        · split at hn
          · cases hn
          next s' bytes' hok =>
            rw [hok] at hsent hkeep
            cases hsent
            cases hn
            exact ⟨hkeep hopen, fun hnil => absurd hnil hne⟩
        · split at hn
          · cases hn
          next s' bytes' hok =>
            rw [hok] at hsent heq
            cases hsent
            cases heq
            cases hn
            refine ⟨credit_callbacks (c := prepared) answer.callbacks hopen hcredit, fun _ => ?_⟩
            have hex := honest prepared hprepared hpending hbytes
            have hquiet := quiet_of_exhausted (inside_callbacks answer.callbacks hopen hin hex.reads
              (harmless prepared hprepared hpending hbytes)) rfl hex
            exact ⟨hquiet.sendable, hquiet.sends, hquiet.readers⟩

theorem inv_closed (h : c.output.closed = true) (hw : c.writer ≠ .waiting false) : c.Inv where
  credit := fun hc => by rw [h] at hc; cases hc
  asleep := fun hs => absurd hs hw

theorem inv_writeLoop (hc : c.output.closed = false → c.Credit)
    (honest : c.WhenEmpty Exhausted answer)
    (harmless : c.WhenEmpty (fun c answer => c.HarmlessCallbacks answer.callbacks) answer) :
    (c.writeLoop answer).Inv := by
  unfold writeLoop
  split
  next h => exact inv_closed h WriterState.noConfusion
  next h =>
    have hcredit : { c with writer := .running }.Credit := hc (Bool.eq_false_iff.mpr h)
    split
    · exact inv_closed (close_closed _) WriterState.noConfusion
    next c' bytes hn =>
      have hspec := nextBatch_spec hcredit honest harmless hn
      split
      next hnil =>
        split
        · exact inv_closed (close_closed _) WriterState.noConfusion
        next hwant =>
          have hopen : c'.output.closed = false := by
            simp only [wantRead, Bool.or_eq_true, Bool.not_eq_true', Bool.and_eq_false_iff, not_or,
              Bool.not_eq_false, Bool.not_eq_false'] at hwant
            exact Bool.eq_false_iff.mpr hwant.2.1
          obtain ⟨hcr, hquiet⟩ := hspec hopen
          have hq := hquiet hnil
          exact ⟨fun _ => hcr, fun _ => ⟨hopen, ⟨hq.sendable, hq.sends, hq.readers⟩⟩⟩
      next hne =>
        split
        next hclosed => exact inv_closed hclosed WriterState.noConfusion
        next hopen =>
          exact ⟨fun _ => (hspec (Bool.eq_false_iff.mpr hopen)).1, fun hw => (by cases hw)⟩

theorem acknowledge_closed (o : Output) (n : Nat) : (o.acknowledge n).1.closed = o.closed := by
  unfold Output.acknowledge
  split
  · rfl
  · simp only
    split <;> rfl

theorem inv_acknowledge (h : c.Inv) (hw : c.writer = .writing) (n : Nat) (calls : List PumpCall) :
    (c.acknowledge n calls).Inv := by
  apply inv_calls
  constructor
  case credit => exact fun hopen => h.credit ((acknowledge_closed c.output n).symm.trans hopen)
  case asleep =>
    intro hs
    rw [show c.writer = .waiting false from hs] at hw
    cases hw

theorem inv_received (h : c.Inv) (calls : List PumpCall) (library : Library) (failed : Bool) :
    (c.received calls library failed).Inv := by
  unfold received
  split
  · exact h
  · have hcalls := inv_calls calls h
    generalize calls.foldl call c = c' at hcalls
    simp only
    split
    · apply inv_closed (close_closed _)
      intro hw
      have hm : Moves (fun _ => False) (fun _ => False) { c' with library := library }
        (close { c' with library := library }) := moves_close _
      obtain ⟨hw', hs⟩ := hm.asleep hw
      have hopen := (hs (hcalls.asleep hw').1).1
      rw [close_closed] at hopen
      cases hopen
    · unfold Http2Connection.wake
      split
      next hclosed =>
        refine ⟨fun hopen => absurd hclosed (Bool.eq_false_iff.mp hopen), fun hw => ?_⟩
        rw [(hcalls.asleep hw).1] at hclosed
        cases hclosed
      next hopen =>
        exact ⟨hcalls.credit, fun hw => absurd hw (WriterState.woken_ne _)⟩

theorem inv_resumeReader (h : c.Inv) (i : Nat) (late : Bool) : (c.resumeReader i late).Inv := by
  unfold resumeReader
  split
  · exact h
  · split
    · have hm : Moves (fun _ => False) (fun _ => False) c { c with readers := c.readers.eraseIdx i } := by
        exact .of_eq rfl rfl rfl rfl rfl rfl rfl rfl
          fun hr r hmem => hr r (List.mem_of_mem_eraseIdx hmem)
      exact inv_moves h (hm.trans (moves_reserve _ _ _ late))
    · exact h

theorem inv_step (h : c.Inv) (e : PumpStep) (honest : c.Honest e) (harmless : c.StepHarmless e) :
    (c.step e).Inv := by
  cases e with
  | writer answer =>
    change (if _ then _ else _ : Http2Connection).Inv
    split
    · exact inv_writeLoop h.credit honest harmless
    · exact h
  | written count onWritten answer =>
    change (if _ then _ else _ : Http2Connection).Inv
    split
    next hw =>
      unfold written
      split
      · exact inv_closed (close_closed _) WriterState.noConfusion
      · have hack := inv_acknowledge h hw count onWritten
        simp only
        split
        · exact inv_writeLoop hack.credit honest harmless
        · exact hack
    · exact h
  | received during library failed => exact inv_received h during library failed
  | reader i late => exact inv_resumeReader h i late
  | call a => exact inv_moves h (moves_call c a)

theorem inv_start (role : Role) (options : Http2Options) (valid : options.validationError = none)
    (library : Library) : (start role options valid library).Inv where
  credit := fun _ hcr => nomatch hcr
  asleep := fun hw => (nomatch hw)

theorem not_stuck (h : c.Inv) : ¬c.Stuck := by
  rintro ⟨hasleep, hstuck⟩
  obtain ⟨-, hq⟩ := h.asleep hasleep.writer
  obtain hs | ⟨id, hs⟩ | ⟨r, hr, hm⟩ := hstuck
  · rw [hq.sendable] at hs
    cases hs
  · exact hq.sends id hs
  · obtain hn | ⟨p, hp, hc, hnot⟩ := hq.readers r hr
    · rw [hasleep.readers r hr] at hn
      cases hn
    · apply hnot
      simpa only [mayRead, hp, Option.all_some, Bool.and_eq_true, List.isEmpty_iff,
        decide_eq_true_eq, and_assoc] using hm

/-- As long as nghttp2 behaves as documented and no callback under a call of
`nghttp2_session_mem_send2` without octets takes the read credit from others or feeds them, the
writer never sleeps on output. -/
theorem writer_awake (role : Role) (options : Http2Options) (valid : options.validationError = none)
    (library : Library) (steps : List PumpStep)
    (honest : Runs.Along step Honest (start role options valid library) steps)
    (harmless : Runs.Along step StepHarmless (start role options valid library) steps) (n : Nat) :
    ¬((start role options valid library).run (steps.take n)).Stuck := by
  apply not_stuck
  have hboth := honest.and harmless
  exact hboth.invariant (inv_start role options valid library)
    (fun _ e h hP => inv_step h e hP.1 hP.2) n

/-- A library with so many frames to send, for which these streams are open. -/
def peer (opened : List Int) (sendable : Nat) : Library where
  connectionWindow := 65535
  streamWindow := fun id => if id ∈ opened then 65535 else -1
  activeLocalStreamCount := opened.length
  peerMaxConcurrentStreams := 100
  sendable := sendable
  wantRead := true
  wantWrite := false

def client : Http2Connection := start .hClient {} Http2Options.validationError_default (peer [] 1)

def prefaceStep : PumpStep := .writer { bytes := .ok (List.replicate 24 80), library := peer [] 1 }

/-- A client sends its preface and the head of one request. While that is written, another request
waits to be opened, the peer goes away and the first one gets its body. -/
def goingAway (last : SendAnswer) : List PumpStep :=
  [prefaceStep, .written 24 [] { bytes := .ok [], library := peer [] 0 },
    .call (.submit 1 1), .call (.submit 3 2), .call (.finish 3 [] none),
    .writer { bytes := .ok [0, 0, 1, 1, 4, 0, 0, 0, 1, 130], library := peer [1] 1 },
    .received [] (peer [1] 1) false, .call (.append 1 [7] none), .written 10 [] last]

def opening : SendAnswer where
  bytes := .ok [0, 0, 1, 1, 4, 0, 0, 0, 3, 130]
  library := peer [1, 3] 0

/-- nghttp2 refuses the second request, whose stream holds the read credit, and defers the first. -/
def refusal : SendAnswer where
  callbacks := [.call (.streamClose 3 .hRefusedStream), .read 1 16384]
  bytes := .ok []
  library := peer [1] 0

theorem whenEmpty_bytes {P : Http2Connection → SendAnswer → Prop} (h : answer.bytes ≠ .ok []) :
    c.WhenEmpty P answer :=
  fun _ _ _ hb => absurd hb h

theorem whenEmpty_prepared {P : Http2Connection → SendAnswer → Prop}
    (h : { c with writer := .running }.prepare answer = .ok s) (hP : P s answer) :
    c.WhenEmpty P answer := by
  intro prepared hp _ _
  rw [h] at hp
  cases hp
  exact hP

/-- The steps in front of the last one meet a condition that goes for all but empty answers. -/
theorem along_goingAway {P : Http2Connection → SendAnswer → Prop}
    (hfirst : ((client.step prefaceStep).acknowledge 24 []).WhenEmpty P
      { bytes := .ok [], library := peer [] 0 })
    (hlast : ((client.run ((goingAway last).take 8)).acknowledge 10 []).WhenEmpty P last) :
    Runs.Along step (StepWhenEmpty P) client (goingAway last) :=
  ⟨whenEmpty_bytes (by decide), hfirst, trivial, trivial, trivial, whenEmpty_bytes (by decide),
    trivial, trivial, hlast, trivial⟩

theorem honest_goingAway
    (hlast : ((client.run ((goingAway last).take 8)).acknowledge 10 []).WhenEmpty Exhausted last) :
    Runs.Along step Honest client (goingAway last) := by
  apply along_goingAway _ hlast
  apply whenEmpty_prepared
  · rfl
  · constructor
    · trivial
    all_goals decide

theorem writer_awake_waiting :
    (client.run ((goingAway opening).take 2)).writer = .waiting false ∧
      ¬(client.run ((goingAway opening).take 2)).Stuck := by
  refine ⟨by decide, ?_⟩
  apply writer_awake .hClient {} (by decide) (peer [] 1) (goingAway opening)
  · exact honest_goingAway (whenEmpty_bytes (by decide))
  · apply along_goingAway
    · apply whenEmpty_prepared
      · rfl
      · trivial
    · exact whenEmpty_bytes (by decide)

/-- The writer sleeps, and the first request waits for what its body is answered. -/
theorem writer_sleeps :
    ¬∀ (role : Role) (options : Http2Options) (valid : options.validationError = none)
      (library : Library) (steps : List PumpStep),
      Runs.Along step Honest (start role options valid library) steps →
        ¬((start role options valid library).run steps).Stuck := by
  intro h
  apply h .hClient {} (by decide) (peer [] 1) (goingAway refusal)
  · apply honest_goingAway
    apply whenEmpty_prepared
    · rfl
    · constructor
      · exact ⟨rfl, trivial⟩
      all_goals decide
  · refine ⟨⟨by decide, by decide⟩, .inr (.inl ⟨1, ?_⟩)⟩
    exact ⟨_, rfl, by decide⟩

end Http2Connection

end Hical.Http2
