import Hical.Http2.Gate

namespace Hical.Http2

namespace Receive
variable {H : Type} {r r' : Receive H} {e e' : Entry H}

def terms (r : Receive H) (i : Nat) : Terms := ⟨decide (r.role = .hClient), (r.objects i).headResponse⟩

/-- No key is in the table twice. -/
def Listed (r : Receive H) : Prop := ∀ x ∈ r.streams, r.find x.1 = some x.2

def phase (r : Receive H) (i : Nat) : Option Phase := (r.terms i).phase (r.objects i).log

end Receive

/-- The body up to here, and what the entry knows of its end. -/
structure Taken (t : Terms) (e : Entry H) (s : Http2Stream) (f : Final) (got : Bytes) : Prop where
  forbidden : e.bodyForbidden = t.bodyless f
  expected : e.expectedLength = t.declared f
  stored : s.stored = got
  received : s.receivedBytes = got.length

/-- Nothing of the body is there. -/
structure Empty (e : Entry H) (s : Http2Stream) : Prop where
  initialSealed : s.initialSealed = false
  trailersSealed : s.trailersSealed = false
  expected : e.expectedLength = none
  stored : s.stored = []
  received : s.receivedBytes = 0

/-- How the entry and the stream stand for the phase of the message. -/
def Fits (t : Terms) (e : Entry H) (s : Http2Stream) : Phase → Prop
  | .idle => Empty e s ∧ e.pendingHeaders = none
  | .heading => Empty e s ∧ e.pendingHeaders.isSome = true ∧ e.pendingKind = t.kind
  | .body f got => Taken t e s f got ∧ s.initialSealed = true ∧ s.trailersSealed = false ∧
      e.pendingHeaders = none
  | .trailing f got => Taken t e s f got ∧ s.initialSealed = true ∧ s.trailersSealed = false ∧
      e.pendingHeaders.isSome = true ∧ e.pendingKind = .hTrailers
  | .trailed f got => Taken t e s f got ∧ s.initialSealed = true ∧ s.trailersSealed = true ∧
      e.pendingHeaders = none
  | .complete _ got => s.stored = got ∧ s.bodyComplete = true ∧ s.initialSealed = true ∧
      e.pendingHeaders = none

theorem Taken.quiet (h : Taken t e s f got) (hq : Quiet s s') : Taken t e s' f got :=
  ⟨h.forbidden, h.expected, hq.stored.trans h.stored,
    (congrArg Lease.amount hq.receive).trans h.received⟩

theorem Empty.quiet (h : Empty e s) (hq : Quiet s s') : Empty e s' :=
  ⟨hq.initialSealed.trans h.initialSealed, hq.trailersSealed.trans h.trailersSealed, h.expected,
    hq.stored.trans h.stored, (congrArg Lease.amount hq.receive).trans h.received⟩

theorem Fits.quiet (h : Fits t e s ph) (hq : Quiet s s') : Fits t e s' ph := by
  cases ph with
  | idle => exact ⟨h.1.quiet hq, h.2⟩
  | heading => exact ⟨h.1.quiet hq, h.2⟩
  | body f got | trailing f got | trailed f got =>
    exact ⟨h.1.quiet hq, hq.initialSealed.trans h.2.1, hq.trailersSealed.trans h.2.2.1, h.2.2.2⟩
  | complete f got =>
    exact ⟨hq.stored.trans h.1, hq.complete h.2.1, hq.initialSealed.trans h.2.2.1, h.2.2.2⟩

structure Matches (r : Receive H) (e : Entry H) : Prop where
  phase : ∃ ph, r.phase e.stream = some ph ∧ Fits (r.terms e.stream) e (r.stream e.stream) ph ∧
    ((r.stream e.stream).passed = true → ∃ f got, ph = .complete f got)
  settled : (r.stream e.stream).Settled
  policy : e.headResponse = (r.objects e.stream).headResponse

/-- A stream that nothing was received on. -/
structure Unused (o : Object) : Prop where
  log : o.log = []
  initialSealed : o.stream.initialSealed = false
  trailersSealed : o.stream.trailersSealed = false
  stored : o.stream.stored = []
  received : o.stream.receivedBytes = 0

/-- The lease of a stream for its body can shrink. -/
structure Lease.Shrinks (l : Lease) : Prop where
  held : l.held = true
  bytes : l.resource.isSlot = false
  within : l.amount ≤ l.limit

/-- The table, the streams and what was taken fit together. -/
structure Inv (r : Receive H) : Prop where
  entries : ∀ id e, r.find id = some e →
    e.stream < r.made ∧ (r.stream e.stream).id = id ∧ Matches r e
  gate : ∀ i, (r.stream i).passed = true → ∃ f, r.phase i = some (.complete f (r.stream i).stored)
  published : ∀ i, (r.stream i).bodyPublished = true → (r.stream i).bodyComplete = true
  unused : ∀ i, (r.stream i).protocol.held = true →
    (∃ e, r.find (r.stream i).id = some e ∧ e.stream = i) ∨ Unused (r.objects i)
  blank : ∀ i, r.made ≤ i → r.objects i = .none
  dead : r.connectionError.isError = true → r.streams = []
  listed : r.Listed
  leased : ∀ i, i < r.made → (r.stream i).receive.Shrinks

section Table
variable {H : Type} (r : Receive H)

theorem lookup_filter (l : List (Int × β)) (id id' : Int) :
    (l.filter fun e => e.1 != id).lookup id' = if id' = id then none else l.lookup id' := by
  induction l with
  | nil =>
    split
    · rfl
    · rfl
  | cons x l ih =>
    obtain ⟨k, e⟩ := x
    rw [List.filter_cons]
    by_cases hk : k = id
    · subst hk
      rw [bne_self_eq_false, if_neg Bool.false_ne_true, ih]
      split
      · rfl
      · next hn => rw [List.lookup_cons, beq_eq_false_iff_ne.2 hn]
    · rw [if_pos (bne_iff_ne.2 hk), List.lookup_cons, List.lookup_cons, ih]
      by_cases hid : id' = k
      · subst hid
        rw [if_neg hk, if_neg hk, beq_self_eq_true]
      · rw [beq_eq_false_iff_ne.2 hid]

theorem find_erase (id id' : Int) : (r.erase id).find id' = if id' = id then none else r.find id' :=
  lookup_filter r.streams id id'

theorem find_put (id : Int) (e : Entry H) (id' : Int) :
    (r.put id e).find id' = if id' = id then some e else r.find id' := by
  rw [Receive.find, Receive.put, List.lookup_cons, lookup_filter]
  by_cases h : id' = id
  · rw [beq_iff_eq.2 h, if_pos h, if_pos h]
  · rw [beq_eq_false_iff_ne.2 h, if_neg h, if_neg h]
    rfl

theorem listed_erase (h : r.Listed) (id : Int) : (r.erase id).Listed := by
  intro x hx
  obtain ⟨hx, hne⟩ := List.mem_filter.1 hx
  rw [find_erase, if_neg (bne_iff_ne.1 hne)]
  exact h x hx

theorem listed_put (h : r.Listed) (id : Int) (e : Entry H) : (r.put id e).Listed := by
  intro x hx
  rw [find_put]
  rcases List.mem_cons.1 hx with rfl | hx
  · exact if_pos rfl
  · obtain ⟨hx, hne⟩ := List.mem_filter.1 hx
    rw [if_neg (bne_iff_ne.1 hne)]
    exact h x hx

theorem objects_settle (i : Nat) (x : OnStream) (j : Nat) :
    (r.settle i x).objects j =
      if j = i then { r.objects i with stream := x.stream } else r.objects j :=
  Function.update_apply _ _ _ _

theorem stream_settle (i : Nat) (x : OnStream) (j : Nat) :
    (r.settle i x).stream j = if j = i then x.stream else r.stream j := by
  rw [Receive.stream, objects_settle]
  split
  · rfl
  · rfl

end Table

section Keeps
variable {H : Type} {r r' : Receive H} {id : Int}

/-- What happens to the streams when nothing is received: none is heard of, and who leaves the table is
closed. -/
structure Silent (r r' : Receive H) : Prop where
  role : r'.role = r.role
  made : r'.made = r.made
  heard : ∀ i, (r'.objects i).log = (r.objects i).log ∧
    (r'.objects i).headResponse = (r.objects i).headResponse
  quiet : ∀ i, Quiet (r.stream i) (r'.stream i)
  settled : ∀ id e, r'.find id = some e → (r.stream e.stream).Settled → (r'.stream e.stream).Settled
  kept : ∀ id e, r'.find id = some e → r.find id = some e
  gone : ∀ id e, r.find id = some e →
    r'.find id = some e ∨ (r'.stream e.stream).protocol.held = false
  blank : ∀ i, r.made ≤ i → r'.objects i = r.objects i
  dead : r'.connectionError.isError = true → r.streams = [] ∨ r'.streams = []
  listed : r.Listed → r'.Listed

theorem Silent.phase (h : Silent r r') (i : Nat) : r'.phase i = r.phase i ∧ r'.terms i = r.terms i := by
  obtain ⟨hl, hh⟩ := h.heard i
  have ht : r'.terms i = r.terms i := by
    rw [Receive.terms, Receive.terms, h.role, hh]
  rw [Receive.phase, Receive.phase, hl, ht]
  exact ⟨rfl, rfl⟩

theorem Silent.empty (h : Silent r r') (hs : r.streams = []) : r'.streams = [] := by
  cases hl : r'.streams with
  | nil => rfl
  | cons x l =>
    have hf : r'.find x.1 = some x.2 := by
      rw [Receive.find, hl, List.lookup_cons, beq_self_eq_true]
    have := h.kept _ _ hf
    rw [Receive.find, hs] at this
    cases this

theorem Inv.silent (h : Inv r) (hs : Silent r r') : Inv r' := by
  refine ⟨?_, ?_, ?_, ?_, ?_, ?_, hs.listed h.listed, ?_⟩
  · intro id e hf
    obtain ⟨hlt, hid, ⟨⟨ph, hph, hfits, hpassed⟩, hset, hpol⟩⟩ := h.entries id e (hs.kept id e hf)
    obtain ⟨hphase, hterms⟩ := hs.phase e.stream
    have hq := hs.quiet e.stream
    refine ⟨hs.made ▸ hlt, hq.id.trans hid, ⟨ph, hphase.trans hph, ?_, fun hp => hpassed (hq.passed hp)⟩,
      hs.settled id e hf hset, hpol.trans (hs.heard e.stream).2.symm⟩
    rw [hterms]
    exact hfits.quiet hq
  · intro i hp
    obtain ⟨f, hf⟩ := h.gate i ((hs.quiet i).passed hp)
    exact ⟨f, by rw [(hs.phase i).1, hf, (hs.quiet i).stored]⟩
  · intro i
    exact (hs.quiet i).published (h.published i)
  · intro i hheld
    have hq := hs.quiet i
    rcases h.unused i (hq.held hheld) with ⟨e, hf, he⟩ | hu
    · rcases hs.gone _ e hf with hf' | hc
      · exact .inl ⟨e, by rw [hq.id]; exact hf', he⟩
      · rw [he, hheld] at hc
        cases hc
    · refine .inr ⟨(hs.heard i).1.trans hu.log, hq.initialSealed.trans hu.initialSealed,
        hq.trailersSealed.trans hu.trailersSealed, hq.stored.trans hu.stored, ?_⟩
      exact (congrArg Lease.amount hq.receive).trans hu.received
  · intro i hi
    rw [hs.made] at hi
    exact (hs.blank i hi).trans (h.blank i hi)
  · intro hd
    rcases hs.dead hd with hd | hd
    · exact hs.empty hd
    · exact hd
  · intro i hi
    rw [(hs.quiet i).receive]
    exact h.leased i (hs.made ▸ hi)

theorem Inv.entry (h : Inv r) {e e' : Entry H} (hf : r.find id = some e) (hs : e'.stream = e.stream)
    (hrole : r'.role = r.role) (hmade : r'.made = r.made)
    (hconn : r'.connectionError = r.connectionError)
    (hother : ∀ j, j ≠ e.stream → r'.objects j = r.objects j)
    (hfind : ∀ id', r'.find id' = if id' = id then some e' else r.find id')
    (hid : (r'.stream e.stream).id = (r.stream e.stream).id) (hm : Matches r' e')
    (hpub : (r'.stream e.stream).bodyPublished = true → (r'.stream e.stream).bodyComplete = true)
    (hlisted : r'.Listed) (hleased : (r'.stream e.stream).receive.Shrinks) : Inv r' := by
  obtain ⟨hlt, hname, -⟩ := h.entries id e hf
  have hstream : ∀ j, j ≠ e.stream → r'.stream j = r.stream j :=
    fun j hj => congrArg Object.stream (hother j hj)
  have hterms : ∀ j, j ≠ e.stream → r'.terms j = r.terms j := by
    intro j hj
    rw [Receive.terms, Receive.terms, hrole, hother j hj]
  have hphase : ∀ j, j ≠ e.stream → r'.phase j = r.phase j := by
    intro j hj
    rw [Receive.phase, Receive.phase, hterms j hj, hother j hj]
  refine ⟨?_, ?_, ?_, ?_, ?_, ?_, hlisted, ?_⟩
  · intro id' e₁ hf₁
    rw [hfind] at hf₁
    split at hf₁
    · next hid' =>
      cases hf₁
      rw [hs, hmade, hid, hname]
      exact ⟨hlt, hid'.symm, hm⟩
    · next hne =>
      obtain ⟨hlt₁, hname₁, ⟨⟨ph, hph, hfits, hpassed⟩, hset, hpol⟩⟩ := h.entries id' e₁ hf₁
      have hj : e₁.stream ≠ e.stream := by
        intro heq
        rw [heq, hname] at hname₁
        exact hne hname₁.symm
      rw [hmade, hstream _ hj]
      refine ⟨hlt₁, hname₁, ⟨ph, (hphase _ hj).trans hph, ?_, ?_⟩, ?_, ?_⟩
      · rw [hterms _ hj, hstream _ hj]
        exact hfits
      · rw [hstream _ hj]
        exact hpassed
      · rw [hstream _ hj]
        exact hset
      · rw [hother _ hj]
        exact hpol
  · intro i hp
    by_cases hi : i = e.stream
    · subst hi
      obtain ⟨ph, hph, hfits, hpassed⟩ := hm.phase
      rw [hs] at hph hfits hpassed
      obtain ⟨f, got, rfl⟩ := hpassed hp
      obtain ⟨rfl, -⟩ := hfits
      exact ⟨f, hph⟩
    · rw [hstream i hi] at hp ⊢
      rw [hphase i hi]
      exact h.gate i hp
  · intro i
    by_cases hi : i = e.stream
    · subst hi
      exact hpub
    · rw [hstream i hi]
      exact h.published i
  · intro i hheld
    by_cases hi : i = e.stream
    · subst hi
      refine .inl ⟨e', ?_, hs⟩
      rw [hid, hname, hfind, if_pos rfl]
    · rw [hstream i hi] at hheld ⊢
      rcases h.unused i hheld with ⟨e₁, hf₁, he₁⟩ | hu
      · refine .inl ⟨e₁, ?_, he₁⟩
        rw [hfind, if_neg]
        · exact hf₁
        · intro heq
          rw [heq, hf] at hf₁
          cases hf₁
          exact hi he₁.symm
      · rw [hother i hi]
        exact .inr hu
  · intro i hi
    rw [hmade] at hi
    rw [hother i (Nat.ne_of_gt (Nat.lt_of_lt_of_le hlt hi))]
    exact h.blank i hi
  · intro hd
    rw [hconn] at hd
    have := h.dead hd
    rw [Receive.find, this] at hf
    cases hf
  · intro i hi
    by_cases hie : i = e.stream
    · subst hie
      exact hleased
    · rw [hstream i hie]
      exact h.leased i (hmade ▸ hi)

end Keeps

section Silence
variable {H : Type} {r r' r'' : Receive H} {id : Int} {e : Entry H}

theorem Silent.frame (hrole : r'.role = r.role) (hmade : r'.made = r.made)
    (hobjects : r'.objects = r.objects) (hstreams : r'.streams = r.streams)
    (hconn : r'.connectionError = r.connectionError)
    (hdead : r.connectionError.isError = true → r.streams = []) : Silent r r' := by
  have hstream : ∀ i, r'.stream i = r.stream i := fun i => by rw [Receive.stream, hobjects]; rfl
  have hfind : ∀ id, r'.find id = r.find id := fun id => by rw [Receive.find, hstreams]; rfl
  refine ⟨hrole, hmade, fun i => ?_, fun i => ?_, fun id e _ => ?_, fun id e hf => ?_,
    fun id e hf => .inl ?_, fun i _ => ?_, fun hd => ?_, fun hl => ?_⟩
  · rw [hobjects]
    exact ⟨rfl, rfl⟩
  · rw [hstream]
    exact .refl _
  · rw [hstream]
    exact fun h => h
  · exact (hfind id).symm.trans hf
  · exact (hfind id).trans hf
  · rw [hobjects]
  · rw [hconn] at hd
    exact .inl (hdead hd)
  · intro x hx
    rw [hstreams] at hx
    rw [hfind]
    exact hl x hx

theorem Silent.trans (h : Silent r r') (h' : Silent r' r'') : Silent r r'' := by
  refine ⟨h'.role.trans h.role, h'.made.trans h.made, fun i => ?_, fun i => ?_, fun id e hf hs => ?_,
    fun id e hf => ?_, fun id e hf => ?_, fun i hi => ?_, fun hd => ?_,
    fun hl => h'.listed (h.listed hl)⟩
  · exact ⟨(h'.heard i).1.trans (h.heard i).1, (h'.heard i).2.trans (h.heard i).2⟩
  · exact (h.quiet i).trans (h'.quiet i)
  · exact h'.settled id e hf (h.settled id e (h'.kept id e hf) hs)
  · exact h.kept id e (h'.kept id e hf)
  · rcases h.gone id e hf with hf' | hc
    · exact h'.gone id e hf'
    · refine .inr (Bool.eq_false_iff.2 fun hheld => ?_)
      have := (h'.quiet e.stream).held hheld
      rw [hc] at this
      cases this
  · rw [h'.blank i (h.made ▸ hi), h.blank i hi]
  · rcases h'.dead hd with he | he
    · exact .inr (h'.empty he)
    · exact .inr he

theorem silent_settle (h : Inv r) (hi : i < r.made) (hq : Quiet (r.stream i) x.stream)
    (hs : (r.stream i).Settled → x.stream.Settled) : Silent r (r.settle i x) := by
  refine ⟨rfl, rfl, fun j => ?_, fun j => ?_, fun id e _ => ?_, fun id e hf => hf,
    fun id e hf => .inl hf, fun j hj => ?_, fun hd => .inl (h.dead hd), fun hl => hl⟩
  · rw [objects_settle]
    split
    · next hj =>
      rw [hj]
      exact ⟨rfl, rfl⟩
    · exact ⟨rfl, rfl⟩
  · rw [stream_settle]
    split
    · next hj =>
      rw [hj]
      exact hq
    · exact .refl _
  · rw [stream_settle]
    split
    · next hj =>
      rw [hj]
      exact hs
    · exact fun h => h
  · rw [objects_settle, if_neg (Nat.ne_of_gt (Nat.lt_of_lt_of_le hi hj))]

theorem silent_close (h : Inv r) (hf : r.find id = some e) (hq : Quiet (r.stream e.stream) x.stream)
    (hheld : x.stream.protocol.held = false) : Silent r ((r.erase id).settle e.stream x) := by
  obtain ⟨hlt, hname, -⟩ := h.entries id e hf
  have hstream : ∀ j, ((r.erase id).settle e.stream x).stream j =
      if j = e.stream then x.stream else r.stream j := stream_settle (r.erase id) e.stream x
  have hother : ∀ id' e', ((r.erase id).settle e.stream x).find id' = some e' →
      id' ≠ id ∧ r.find id' = some e' := by
    intro id' e' hf'
    have := find_erase r id id'
    rw [show ((r.erase id).settle e.stream x).find id' = (r.erase id).find id' from rfl, this] at hf'
    split at hf'
    · cases hf'
    · next hne => exact ⟨hne, hf'⟩
  refine ⟨rfl, rfl, fun j => ?_, fun j => ?_, fun id' e' hf' => ?_, fun id' e' hf' => (hother id' e' hf').2,
    fun id' e' hf' => ?_, fun j hj => ?_, fun hd => .inl (h.dead hd), fun hl => listed_erase r hl id⟩
  · rw [objects_settle]
    split
    · next hj =>
      rw [hj]
      exact ⟨rfl, rfl⟩
    · exact ⟨rfl, rfl⟩
  · rw [hstream]
    split
    · next hj =>
      rw [hj]
      exact hq
    · exact .refl _
  · obtain ⟨hne, hf₀⟩ := hother id' e' hf'
    rw [hstream, if_neg]
    · exact fun h => h
    · intro heq
      have := (h.entries id' e' hf₀).2.1
      rw [heq, hname] at this
      exact hne this.symm
  · by_cases hid : id' = id
    · rw [hid, hf] at hf'
      cases hf'
      refine .inr ?_
      rw [hstream, if_pos rfl]
      exact hheld
    · refine .inl ?_
      rw [show ((r.erase id).settle e.stream x).find id' = (r.erase id).find id' from rfl, find_erase,
        if_neg hid]
      exact hf'
  · rw [objects_settle, if_neg (Nat.ne_of_gt (Nat.lt_of_lt_of_le hlt hj))]
    rfl

theorem silent_reject (h : Inv r) (id : Int) (error : NetworkError) :
    Silent r (r.reject id error).1 := by
  rw [Receive.reject]
  split
  · exact .frame rfl rfl rfl rfl rfl h.dead
  · next e hf => exact silent_close h hf (quiet_fail ((r.erase id).on e.stream) error) (held_fail _ error)

theorem failStreams (error : NetworkError) (l : List (Int × Entry H)) (r : Receive H) :
    let r' := l.foldl (fun r e => r.failStream e.2.stream error) r
    (r'.role = r.role ∧ r'.made = r.made ∧ r'.streams = r.streams ∧
        r'.connectionError = r.connectionError ∧ r'.codec = r.codec) ∧
      (∀ i, ((r'.objects i).log = (r.objects i).log ∧
        (r'.objects i).headResponse = (r.objects i).headResponse) ∧ Quiet (r.stream i) (r'.stream i)) ∧
      (∀ e ∈ l, (r'.stream e.2.stream).protocol.held = false) ∧
      ∀ i, (∀ e ∈ l, e.2.stream ≠ i) → r'.objects i = r.objects i := by
  induction l generalizing r with
  | nil =>
    exact ⟨⟨rfl, rfl, rfl, rfl, rfl⟩, fun i => ⟨⟨rfl, rfl⟩, .refl _⟩,
      fun e he => absurd he List.not_mem_nil, fun i _ => rfl⟩
  | cons x l ih =>
    obtain ⟨⟨h₁, h₂, h₃, h₄, h₅⟩, hq, hheld, hsame⟩ := ih (r.failStream x.2.stream error)
    have hobj := objects_settle r x.2.stream ((r.on x.2.stream).fail error).1
    have hstream := stream_settle r x.2.stream ((r.on x.2.stream).fail error).1
    refine ⟨⟨h₁, h₂, h₃, h₄, h₅⟩, fun i => ?_, fun e he => ?_, fun i hi => ?_⟩
    · obtain ⟨⟨hl, hh⟩, hqi⟩ := hq i
      rw [Receive.failStream, hobj] at hl hh
      rw [Receive.failStream, hstream] at hqi
      split at hqi
      · next hi =>
        subst hi
        rw [if_pos rfl] at hl hh
        exact ⟨⟨hl, hh⟩, (quiet_fail (r.on x.2.stream) error).trans hqi⟩
      · next hi =>
        rw [if_neg hi] at hl hh
        exact ⟨⟨hl, hh⟩, hqi⟩
    · rcases List.mem_cons.1 he with rfl | he
      · refine Bool.eq_false_iff.2 fun hh => ?_
        have := (hq e.2.stream).2.held hh
        rw [Receive.failStream, hstream, if_pos rfl, held_fail] at this
        cases this
      · exact hheld e he
    · refine (hsame i fun e he => hi e (List.mem_cons_of_mem _ he)).trans ?_
      rw [Receive.failStream, hobj, if_neg (hi x List.mem_cons_self).symm]

theorem mem_of_lookup (l : List (Int × Entry H)) (h : l.lookup id = some e) : (id, e) ∈ l := by
  induction l with
  | nil => cases h
  | cons x l ih =>
    rw [List.lookup_cons] at h
    split at h
    · next heq =>
      cases h
      rw [eq_of_beq heq]
      exact List.mem_cons_self
    · exact List.mem_cons_of_mem _ (ih h)

theorem silent_fail (h : Inv r) (error : NetworkError) : Silent r (r.fail error) := by
  rw [Receive.fail]
  split
  · exact .frame rfl rfl rfl rfl rfl h.dead
  · dsimp only
    obtain ⟨⟨h₁, h₂, h₃, h₄, -⟩, hq, hheld, hsame⟩ := failStreams
      (if error.isError = true then error else ⟨.hOperationAborted, "HTTP/2 连接接收已取消", none⟩)
      r.streams { r with
        connectionError := if error.isError = true then error
          else ⟨.hOperationAborted, "HTTP/2 连接接收已取消", none⟩, streams := [] }
    refine ⟨h₁, h₂, fun i => (hq i).1, fun i => (hq i).2, fun id e hf => ?_, fun id e hf => ?_,
      fun id e hf => .inr (hheld (id, e) (mem_of_lookup r.streams hf)), fun i hi => ?_,
      fun _ => .inr h₃, fun _ x hx => ?_⟩
    · rw [Receive.find, h₃] at hf
      cases hf
    · rw [Receive.find, h₃] at hf
      cases hf
    · refine hsame i fun x hx => Nat.ne_of_lt (Nat.lt_of_lt_of_le ?_ hi)
      exact (h.entries x.1 x.2 (h.listed x hx)).1
    · rw [h₃] at hx
      cases hx

theorem silent_checkOperation (h : Inv r) (error : NetworkError) :
    Silent r (r.checkOperation error).1 := by
  rw [Receive.checkOperation]
  split
  · exact silent_fail h _
  · exact .frame rfl rfl rfl rfl rfl h.dead

theorem silent_operation (h : Inv r) (codec : Codec) (error : NetworkError) :
    Silent r ({ r with codec := codec }.checkOperation error).1 := by
  have hframe : Silent r { r with codec := codec } := .frame rfl rfl rfl rfl rfl h.dead
  exact hframe.trans (silent_checkOperation (h.silent hframe) error)

theorem silent_cancel (h : Inv r) (id : Int) (code : Http2Code) (result : Int) :
    Silent r (r.cancel id code result).1 := by
  rw [Receive.cancel]
  split
  · exact .frame rfl rfl rfl rfl rfl h.dead
  · next e hf =>
    have hclose : Silent r ((r.erase id).settle e.stream (((r.erase id).on e.stream).reset code)) :=
      silent_close h hf (quiet_fail ((r.erase id).on e.stream) _) (held_fail _ _)
    exact hclose.trans (silent_operation (h.silent hclose) _ _)

end Silence

section Registered
variable {H : Type} {r r' : Receive H}

/-- A stream that was just made. -/
structure New (s : Http2Stream) : Prop where
  initialSealed : s.initialSealed = false
  trailersSealed : s.trailersSealed = false
  stored : s.stored = []
  received : s.receivedBytes = 0
  complete : s.bodyComplete = false
  published : s.bodyPublished = false
  held : s.protocol.held = true
  leased : s.receive.Shrinks

theorem new_leases {protocol application receive : Lease} (hp : protocol.held = true)
    (hr : receive = ⟨some place, .hReceiveBytes, 0, limit⟩) (id : Int) (kind : HeaderKind)
    (send : Lease) :
    New {
      id := id, incomingKind := kind, protocol := protocol, application := application
      receive := receive, send := send } := by
  subst hr
  exact ⟨rfl, rfl, rfl, rfl, rfl, rfl, hp, ⟨rfl, rfl, Nat.zero_le _⟩⟩

theorem new_create (h : Http2Stream.create b budget config = .ok (b', some s)) :
    New s ∧ s.id = config.streamId := by
  rw [Http2Stream.create] at h
  split at h
  · cases h
  split at h
  · cases h
  have hx := Except.ok.inj h
  rw [Http2Stream.reserve] at hx
  obtain ⟨hp, -, rfl⟩ := reserved_some hx
  have hr : ∀ b, (budget.tryAcquireReceive b 0).2 =
      ⟨some budget.state, .hReceiveBytes, 0, (b.states budget.state).streamReceiveLimit⟩ := by
    intro b
    rw [Http2Budget.tryAcquireReceive, acquire_zero _ _ _ _ (by decide)]
  exact ⟨new_leases hp (hr _) _ _ _, rfl⟩

theorem inv_add (h : Inv r) (hn : New s) : Inv (r.add s) := by
  have hobj : ∀ j, (r.add s).objects j = if j = r.made then ⟨s, false, []⟩ else r.objects j :=
    fun j => Function.update_apply _ _ _ _
  have hsame : ∀ j, j ≠ r.made → (r.add s).objects j = r.objects j := by
    intro j hj
    rw [hobj, if_neg hj]
  have hself : (r.add s).objects r.made = ⟨s, false, []⟩ := by
    rw [hobj, if_pos rfl]
  have hstream : (r.add s).stream r.made = s := congrArg Object.stream hself
  have hkeep : ∀ j, j ≠ r.made → (r.add s).stream j = r.stream j ∧ (r.add s).phase j = r.phase j ∧
      (r.add s).terms j = r.terms j := by
    intro j hj
    have ht : (r.add s).terms j = r.terms j := by
      rw [Receive.terms, Receive.terms, hsame j hj]
      rfl
    rw [Receive.stream, Receive.phase, ht, hsame j hj]
    exact ⟨rfl, rfl, rfl⟩
  refine ⟨?_, ?_, ?_, ?_, ?_, h.dead, h.listed, ?_⟩
  · intro id e hf
    obtain ⟨hlt, hname, ⟨⟨ph, hph, hfits, hpassed⟩, hset, hpol⟩⟩ := h.entries id e hf
    obtain ⟨h₁, h₂, h₃⟩ := hkeep e.stream (Nat.ne_of_lt hlt)
    refine ⟨Nat.lt_succ_of_lt hlt, h₁ ▸ hname, ⟨ph, h₂.trans hph, ?_, ?_⟩, ?_, ?_⟩
    · rw [h₁, h₃]
      exact hfits
    · rw [h₁]
      exact hpassed
    · rw [h₁]
      exact hset
    · rw [hsame _ (Nat.ne_of_lt hlt)]
      exact hpol
  · intro i hp
    by_cases hi : i = r.made
    · subst hi
      rw [hstream, Http2Stream.passed, hn.complete] at hp
      cases hp
    · obtain ⟨h₁, h₂, -⟩ := hkeep i hi
      rw [h₁] at hp ⊢
      rw [h₂]
      exact h.gate i hp
  · intro i hp
    by_cases hi : i = r.made
    · subst hi
      rw [hstream, hn.published] at hp
      cases hp
    · rw [(hkeep i hi).1] at hp ⊢
      exact h.published i hp
  · intro i hheld
    by_cases hi : i = r.made
    · subst hi
      rw [hself]
      exact .inr ⟨rfl, hn.initialSealed, hn.trailersSealed, hn.stored, hn.received⟩
    · rw [(hkeep i hi).1] at hheld ⊢
      rw [hsame i hi]
      exact h.unused i hheld
  · intro i hi
    have hlt : r.made < i := hi
    rw [hsame i (Nat.ne_of_gt hlt)]
    exact h.blank i (Nat.le_of_lt hlt)
  · intro i hi
    by_cases him : i = r.made
    · subst him
      rw [hstream]
      exact hn.leased
    · rw [(hkeep i him).1]
      exact h.leased i (Nat.lt_of_le_of_ne (Nat.le_of_lt_succ hi) him)

theorem Inv.enter (h : Inv r) (hi : i < r.made) (hheld : (r.stream i).protocol.held = true)
    (hu : Unused (r.objects i)) (hnot : r.find (r.stream i).id = none)
    (hlive : r.connectionError.isError = false) (headResponse : Bool) :
    Inv (Receive.put { r with
        objects := Function.update r.objects i { r.objects i with headResponse := headResponse } }
      (r.stream i).id { stream := i, headResponse := headResponse }) := by
  generalize hr' : (Receive.put { r with
        objects := Function.update r.objects i { r.objects i with headResponse := headResponse } }
      (r.stream i).id { stream := i, headResponse := headResponse }) = r'
  have hrole : r'.role = r.role := hr' ▸ rfl
  have hmade : r'.made = r.made := hr' ▸ rfl
  have hconn : r'.connectionError = r.connectionError := hr' ▸ rfl
  have hlisted : r'.Listed := hr' ▸ listed_put _ h.listed _ _
  have hfind : ∀ id', r'.find id' = if id' = (r.stream i).id then
      some { stream := i, headResponse := headResponse } else r.find id' := by
    intro id'
    rw [← hr']
    exact find_put _ _ _ id'
  have hobj : ∀ j, r'.objects j =
      if j = i then { r.objects i with headResponse := headResponse } else r.objects j := by
    intro j
    rw [← hr']
    exact Function.update_apply _ _ _ _
  have hstream : ∀ j, r'.stream j = r.stream j := by
    intro j
    rw [Receive.stream, hobj]
    split
    · next hj => rw [hj]; rfl
    · rfl
  have hself : r'.objects i = { r.objects i with headResponse := headResponse } := by
    rw [hobj, if_pos rfl]
  have hlog : (r'.objects i).log = [] := by
    rw [hself]
    exact hu.log
  have hunpassed : (r.stream i).passed = false := by
    refine Bool.eq_false_iff.2 fun hp => ?_
    obtain ⟨f, hf⟩ := h.gate i hp
    rw [Receive.phase, hu.log] at hf
    cases hf
  have hkeep : ∀ j, j ≠ i → r'.phase j = r.phase j ∧ r'.terms j = r.terms j := by
    intro j hj
    have ht : r'.terms j = r.terms j := by
      rw [Receive.terms, Receive.terms, hobj, if_neg hj, hrole]
    rw [Receive.phase, ht, hobj, if_neg hj]
    exact ⟨rfl, rfl⟩
  refine ⟨?_, ?_, ?_, ?_, ?_, ?_, hlisted, ?_⟩
  · intro id e hf
    rw [hfind] at hf
    split at hf
    · next hid =>
      cases hf
      refine ⟨hmade ▸ hi, (congrArg Http2Stream.id (hstream i)).trans hid.symm,
        ⟨.idle, ?_, ?_, ?_⟩, .inl ?_, ?_⟩
      · rw [Receive.phase, hlog]
        rfl
      · rw [hstream]
        exact ⟨⟨hu.initialSealed, hu.trailersSealed, rfl, hu.stored, hu.received⟩, rfl⟩
      · rw [hstream, hunpassed]
        exact fun hn => absurd hn Bool.false_ne_true
      · rw [hstream]
        exact hheld
      · rw [hself]
    · next hne =>
      obtain ⟨hlt, hname, ⟨⟨ph, hph, hfits, hpassed⟩, hset, hpol⟩⟩ := h.entries id e hf
      have hj : e.stream ≠ i := by
        intro heq
        rw [heq] at hname
        exact hne hname.symm
      obtain ⟨h₁, h₂⟩ := hkeep e.stream hj
      rw [hmade, hstream]
      refine ⟨hlt, hname, ⟨ph, h₁.trans hph, ?_, ?_⟩, ?_, ?_⟩
      · rw [hstream, h₂]
        exact hfits
      · rw [hstream]
        exact hpassed
      · rw [hstream]
        exact hset
      · rw [hobj, if_neg hj]
        exact hpol
  · intro j hp
    rw [hstream] at hp ⊢
    by_cases hj : j = i
    · subst hj
      rw [hunpassed] at hp
      cases hp
    · rw [(hkeep j hj).1]
      exact h.gate j hp
  · intro j
    rw [hstream]
    exact h.published j
  · intro j hj
    rw [hstream] at hj ⊢
    by_cases hji : j = i
    · subst hji
      exact .inl ⟨_, by rw [hfind, if_pos rfl], rfl⟩
    · rcases h.unused j hj with ⟨e, hf, he⟩ | hu'
      · refine .inl ⟨e, ?_, he⟩
        rw [hfind, if_neg]
        · exact hf
        · intro heq
          rw [heq, hnot] at hf
          cases hf
      · rw [hobj, if_neg hji]
        exact .inr hu'
  · intro j hj
    rw [hmade] at hj
    rw [hobj, if_neg (Nat.ne_of_gt (Nat.lt_of_lt_of_le hi hj))]
    exact h.blank j hj
  · intro hd
    rw [hconn, hlive] at hd
    cases hd
  · intro j hj
    rw [hstream]
    exact h.leased j (hmade ▸ hj)

theorem inv_addClientStream (h : Inv r) (i : Nat) (headResponse : Bool) :
    Inv (r.addClientStream i headResponse).1 := by
  rw [Receive.addClientStream]
  split
  · exact h
  next hlive =>
  dsimp only
  split
  · exact h
  next hn =>
  obtain ⟨-, hn⟩ := not_or.1 hn
  obtain ⟨hmade, hn⟩ := not_or.1 hn
  obtain ⟨-, hn⟩ := not_or.1 hn
  obtain ⟨-, hn⟩ := not_or.1 hn
  obtain ⟨hopen, hn⟩ := not_or.1 hn
  obtain ⟨-, hnone⟩ := not_or.1 hn
  have hheld : (r.stream i).protocol.held = true := (Bool.not_eq_false _).mp hopen
  have hnot : r.find (r.stream i).id = none := Option.not_isSome_iff_eq_none.1 hnone
  rcases h.unused i hheld with ⟨e, hf, -⟩ | hu
  · rw [hnot] at hf
    cases hf
  · exact h.enter (Nat.lt_of_not_le hmade) hheld hu hnot (Bool.eq_false_iff.2 hlive) headResponse

theorem inv_act (h : Inv r) (a : Action) : Inv (r.act a) := by
  cases a with
  | cancel id code result => exact h.silent (silent_cancel h id code result)
  | fail error => exact h.silent (silent_fail h error)
  | createStream config =>
    rw [Receive.act]
    split
    · next b s hc =>
      have hframe : Silent r { r with shared := b } := .frame rfl rfl rfl rfl rfl h.dead
      exact inv_add (h.silent hframe) (new_create hc).1
    · exact h.silent (.frame rfl rfl rfl rfl rfl h.dead)
    · exact h
  | addClientStream i headResponse => exact inv_addClientStream h i headResponse
  | onStream i op =>
    rw [Receive.act]
    split
    · next hi =>
      obtain ⟨hq, hs⟩ := quiet_apply (r.on i) op
      exact h.silent (silent_settle h hi hq hs)
    · exact h
  | others shared | clock now | onCodec terminalError marked =>
    exact h.silent (.frame rfl rfl rfl rfl rfl h.dead)

theorem inv_calls (h : Inv r) (callback : List Action) : Inv (r.calls callback) := by
  induction callback generalizing r with
  | nil => exact h
  | cons a callback ih => exact ih (inv_act h a)

end Registered

end Hical.Http2
