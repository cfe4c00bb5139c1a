import Hical.Http2.Delimiting

namespace Hical.Http2

section Heard
variable {H : Type} {r r' : Receive H} {id : Int} {e e' : Entry H} {s' : Http2Stream}

/-- Where a message can go from the phase that an entry and its stream stand for. -/
def Next (t : Terms) (e : Entry H) (s : Http2Stream) (e' : Entry H) (s' : Http2Stream)
    (signal : Signal) : Prop :=
  ∀ ph, Fits t e s ph → (s.passed = true → ∃ f got, ph = .complete f got) →
    ∃ ph', t.advance ph signal = some ph' ∧ Fits t e' s' ph' ∧
      (s'.passed = true → ∃ f got, ph' = .complete f got)

theorem Inv.heard (h : Inv r) (hf : r.find id = some e) (hs : e'.stream = e.stream)
    (hrole : r'.role = r.role) (hmade : r'.made = r.made)
    (hconn : r'.connectionError = r.connectionError)
    (hobj : r'.objects = Function.update r.objects e.stream
      ⟨s', (r.objects e.stream).headResponse, (r.objects e.stream).log ++ [signal]⟩)
    (hfind : ∀ id', r'.find id' = if id' = id then some e' else r.find id') (hlisted : r'.Listed)
    (hid : s'.id = (r.stream e.stream).id) (hset : s'.Settled)
    (hpol : e'.headResponse = e.headResponse)
    (hpub : s'.bodyPublished = true → s'.bodyComplete = true) (hleased : s'.receive.Shrinks)
    (hnext : Next (r.terms e.stream) e (r.stream e.stream) e' s' signal) : Inv r' := by
  have hself : r'.objects e.stream =
      ⟨s', (r.objects e.stream).headResponse, (r.objects e.stream).log ++ [signal]⟩ := by
    rw [hobj, Function.update_self]
  have hstream : r'.stream e.stream = s' := congrArg Object.stream hself
  have hterms : r'.terms e.stream = r.terms e.stream := by
    rw [Receive.terms, Receive.terms, hself, hrole]
  obtain ⟨-, -, ⟨⟨ph, hph, hfits, hpassed⟩, -, hpol₀⟩⟩ := h.entries id e hf
  obtain ⟨ph', hadv, hfits', hpassed'⟩ := hnext ph hfits hpassed
  refine h.entry hf hs hrole hmade hconn (fun j hj => ?_) hfind ?_ ⟨⟨ph', ?_, ?_, ?_⟩, ?_, ?_⟩ ?_ hlisted ?_
  · rw [hobj, Function.update_of_ne hj]
  · rw [hstream, hid]
  · rw [hs, Receive.phase, hterms, hself]
    dsimp only
    rw [phase_append, show (r.terms e.stream).phase (r.objects e.stream).log = some ph from hph]
    exact hadv
  · rw [hs, hterms, hstream]
    exact hfits'
  · rw [hs, hstream]
    exact hpassed'
  · rw [hs, hstream]
    exact hset
  · rw [hs, hself, hpol]
    exact hpol₀
  · rw [hstream]
    exact hpub
  · rw [hstream]
    exact hleased

theorem Inv.record (h : Inv r) (hf : r.find id = some e) (hs : e'.stream = e.stream)
    (hpol : e'.headResponse = e.headResponse)
    (hnext : Next (r.terms e.stream) e (r.stream e.stream) e' (r.stream e.stream) signal) :
    Inv ((r.record e.stream signal).put id e') := by
  obtain ⟨hlt, -, hm⟩ := h.entries id e hf
  exact h.heard hf hs rfl rfl rfl rfl (find_put _ id e') (listed_put _ h.listed id e') rfl hm.settled
    hpol (h.published _) (h.leased _ hlt) hnext

theorem objects_record_settle (r : Receive H) (i : Nat) (x : OnStream) (signal : Signal) :
    ((r.settle i x).record i signal).objects = Function.update r.objects i
      ⟨x.stream, (r.objects i).headResponse, (r.objects i).log ++ [signal]⟩ := by
  have hx : (r.settle i x).objects i = { r.objects i with stream := x.stream } := by
    rw [objects_settle, if_pos rfl]
  rw [Receive.record, hx]
  exact Function.update_idem _ _ _

theorem Inv.settle (h : Inv r) (hf : r.find id = some e) (x : OnStream)
    (hnext : Next (r.terms e.stream) e (r.stream e.stream) e' x.stream signal)
    (hs : e'.stream = e.stream) (hpol : e'.headResponse = e.headResponse)
    (hid : x.stream.id = (r.stream e.stream).id) (hset : x.stream.Settled)
    (hpub : x.stream.bodyPublished = true → x.stream.bodyComplete = true)
    (hleased : x.stream.receive.Shrinks) :
    Inv (((r.settle e.stream x).record e.stream signal).put id e') :=
  h.heard hf hs rfl rfl rfl (objects_record_settle r e.stream x signal) (find_put _ id e')
    (listed_put _ h.listed id e') hid hset hpol hpub hleased hnext

theorem Inv.advance (h : Inv r) (hf : r.find id = some e) (x : OnStream)
    (hnext : Next (r.terms e.stream) e (r.stream e.stream) e x.stream signal)
    (hid : x.stream.id = (r.stream e.stream).id) (hset : x.stream.Settled)
    (hpub : x.stream.bodyPublished = true → x.stream.bodyComplete = true)
    (hleased : x.stream.receive.Shrinks) :
    Inv ((r.settle e.stream x).record e.stream signal) := by
  refine h.heard hf rfl rfl rfl rfl (objects_record_settle r e.stream x signal) (fun id' => ?_) h.listed
    hid hset rfl hpub hleased hnext
  split
  · next heq =>
    rw [heq]
    exact hf
  · rfl

end Heard

section Nexts
variable {H : Type} {t : Terms} {e : Entry H} {s : Http2Stream}

theorem next_begun (hp : e.pendingHeaders = none) (hc : s.bodyComplete = false)
    (ht : s.trailersSealed = false) (h : H) :
    Next t e s { e with
      pendingKind := if s.initialSealed then .hTrailers else t.kind, pendingHeaders := some h }
      s .begun := by
  intro ph hfits hpassed
  have hnot : s.passed = true → False := by
    intro hn
    rw [Http2Stream.passed, hc] at hn
    cases hn
  cases ph with
  | idle =>
    obtain ⟨he, -⟩ := hfits
    refine ⟨.heading, rfl, ⟨⟨he.initialSealed, he.trailersSealed, he.expected, he.stored, he.received⟩,
      rfl, ?_⟩, fun hn => (hnot hn).elim⟩
    dsimp only
    rw [he.initialSealed, if_neg Bool.false_ne_true]
  | heading =>
    rw [Fits, hp] at hfits
    cases hfits.2.1
  | body f got =>
    obtain ⟨hk, hi, hs, -⟩ := hfits
    refine ⟨.trailing f got, rfl, ⟨⟨hk.forbidden, hk.expected, hk.stored, hk.received⟩, hi, hs, rfl, ?_⟩,
      fun hn => (hnot hn).elim⟩
    dsimp only
    rw [hi, if_pos rfl]
  | trailing f got =>
    rw [Fits, hp] at hfits
    cases hfits.2.2.2.1
  | trailed f got =>
    rw [Fits, ht] at hfits
    cases hfits.2.2.1
  | complete f got =>
    rw [Fits, hc] at hfits
    cases hfits.2.1

theorem next_trailers (hp : e.pendingHeaders.isSome = true) (hk : e.pendingKind = .hTrailers) :
    Next t e s { e with pendingHeaders := none } { s with trailersSealed := true }
      (.block .hTrailers status true length) := by
  intro ph hfits hpassed
  cases ph with
  | idle =>
    rw [Fits] at hfits
    rw [hfits.2] at hp
    cases hp
  | heading =>
    obtain ⟨-, -, hkind⟩ := hfits
    rw [hk, Terms.kind] at hkind
    split at hkind
    · cases hkind
    · cases hkind
  | body f got | trailed f got | complete f got =>
    rw [hfits.2.2.2] at hp
    cases hp
  | trailing f got =>
    obtain ⟨ht, hi, -, -⟩ := hfits
    refine ⟨.trailed f got, rfl, ⟨⟨ht.forbidden, ht.expected, ht.stored, ht.received⟩, hi, rfl, rfl⟩,
      fun hn => ?_⟩
    obtain ⟨_, _, heq⟩ := hpassed hn
    cases heq

theorem fits_heading (hp : e.pendingHeaders.isSome = true) (hk : e.pendingKind ≠ .hTrailers)
    (hfits : Fits t e s ph) : ph = .heading := by
  cases ph with
  | idle =>
    rw [hfits.2] at hp
    cases hp
  | heading => rfl
  | body f got | trailed f got | complete f got =>
    rw [hfits.2.2.2] at hp
    cases hp
  | trailing f got => exact absurd hfits.2.2.2.2 hk

theorem next_early (hp : e.pendingHeaders.isSome = true) (hk : e.pendingKind = .hResponse)
    (hstatus : status < 200) :
    Next t e s { e with pendingHeaders := none } s (.block .hResponse status false length) := by
  intro ph hfits hpassed
  have hh := fits_heading hp (by rw [hk]; decide) hfits
  subst hh
  obtain ⟨he, -, hkind⟩ := hfits
  rw [hk, Terms.kind] at hkind
  have hresp : t.response = true := by
    cases hr : t.response with
    | true => rfl
    | false =>
      rw [hr, if_neg Bool.false_ne_true] at hkind
      cases hkind
  refine ⟨.idle, ?_, ⟨⟨he.initialSealed, he.trailersSealed, he.expected, he.stored, he.received⟩, rfl⟩,
    fun hn => ?_⟩
  · rw [Terms.advance, Terms.kind, hresp, if_pos rfl, if_neg (not_not.2 rfl), Bool.true_and,
      decide_eq_true hstatus, if_pos rfl, if_neg Bool.false_ne_true]
  · obtain ⟨_, _, heq⟩ := hpassed hn
    cases heq

theorem next_final {d : Entry H} (hp : e.pendingHeaders.isSome = true) (hk : e.pendingKind ≠ .hTrailers)
    (hlate : ¬(e.pendingKind = .hResponse ∧ status < 200))
    (hlength : ¬(t.response && status == 204 && length.isSome) = true)
    (hf : d.bodyForbidden = t.bodyless ⟨status, length⟩)
    (hx : d.expectedLength = if t.bodyless ⟨status, length⟩ then e.expectedLength else length)
    (hn : d.pendingHeaders = none) :
    Next t e s d { s with initialSealed := true } (.block e.pendingKind status endStream length) := by
  intro ph hfits hpassed
  have hh := fits_heading hp hk hfits
  subst hh
  obtain ⟨he, -, hkind⟩ := hfits
  refine ⟨.body ⟨status, length⟩ [], ?_, ⟨⟨hf, ?_, he.stored, he.received⟩, rfl, he.trailersSealed, hn⟩,
    fun hn => ?_⟩
  · rw [Terms.advance, if_neg (not_not.2 hkind), if_neg, if_neg hlength]
    intro hr
    obtain ⟨hr, hlt⟩ := Bool.and_eq_true_iff.1 hr
    rw [hkind, Terms.kind, hr, if_pos rfl] at hlate
    exact hlate ⟨rfl, of_decide_eq_true hlt⟩
  · rw [hx, Terms.declared, he.expected]
  · obtain ⟨_, _, heq⟩ := hpassed hn
    cases heq

theorem next_data {bytes : Bytes} (hp : e.pendingHeaders.isSome = false) (hi : s.initialSealed = true)
    (ht : s.trailersSealed = false) (hc : s.bodyComplete = false)
    (hpub : s.bodyPublished = false)
    (hforbidden : (e.bodyForbidden && !bytes.isEmpty) = false)
    (hlength : (e.expectedLength.any fun length =>
      s.receivedBytes > length || bytes.length > length - s.receivedBytes) = false) :
    Next t e s e { s with
      receive := { s.receive with amount := s.receive.amount + bytes.length }
      pendingBody := s.pendingBody ++ bytes } (.data bytes) := by
  intro ph hfits hpassed
  cases ph with
  | idle | heading =>
    rw [hfits.1.initialSealed] at hi
    cases hi
  | body f got =>
    obtain ⟨hk, -, -, hnone⟩ := hfits
    have hstored : s.stored = s.pendingBody := if_neg (by rw [hpub]; exact Bool.false_ne_true)
    have hgot : s.pendingBody = got := hstored.symm.trans hk.stored
    have hadmits : t.admits f got.length bytes.length = true := by
      rw [Terms.admits]
      split
      · next hb =>
        rw [hk.forbidden, hb, Bool.true_and, Bool.not_eq_false'] at hforbidden
        rw [List.isEmpty_iff.1 hforbidden]
        rfl
      · rw [hk.expected] at hlength
        cases hd : t.declared f with
        | none => rfl
        | some length =>
          rw [hd, Option.any_some, hk.received, Bool.or_eq_false_iff, decide_eq_false_iff_not,
            decide_eq_false_iff_not] at hlength
          rw [Option.all_some, decide_eq_true_iff]
          omega
    refine ⟨.body f (got ++ bytes), ?_, ⟨⟨hk.forbidden, hk.expected, ?_, ?_⟩, hi, ht, hnone⟩, fun hn => ?_⟩
    · rw [Terms.advance, if_pos hadmits]
    · rw [Http2Stream.stored]
      dsimp only
      rw [hpub, if_neg Bool.false_ne_true, hgot]
    · have hr := hk.received
      rw [Http2Stream.receivedBytes] at hr ⊢
      dsimp only
      rw [hr, List.length_append]
    · obtain ⟨_, _, heq⟩ := hpassed hn
      cases heq
  | trailing f got =>
    rw [hfits.2.2.2.1] at hp
    cases hp
  | trailed f got =>
    rw [hfits.2.2.1] at ht
    cases ht
  | complete f got =>
    rw [hfits.2.1] at hc
    cases hc

end Nexts

end Hical.Http2
