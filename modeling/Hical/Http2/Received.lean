import Hical.Http2.Delimited

namespace Hical.Http2

section Body
variable (x : OnStream)

theorem fail_error (error : NetworkError) (h : x.stream.protocol.held = true) :
    (x.fail error).2.isError = true := by
  have h₂ : (x.fail error).2 = (x.fail error).1.stream.error := by
    rw [OnStream.fail]
    split
    · rfl
    · rfl
  rw [h₂]
  exact (failed_fail x error (.inl h)).1

theorem appendBody_cases (maxSize : Nat) (bytes : Bytes) (allocates : Bool)
    (hl : x.stream.receive.Shrinks) :
    ((x.appendBody maxSize bytes allocates).2.2 = false ∧
      (x.appendBody maxSize bytes allocates).2.1.isError = true ∧
      Quiet x.stream (x.appendBody maxSize bytes allocates).1.stream ∧
      (x.stream.Settled → (x.appendBody maxSize bytes allocates).1.stream.Settled)) ∨
    ((x.appendBody maxSize bytes allocates).2.2 = true ∧
      (x.appendBody maxSize bytes allocates).1.stream = x.stream) ∨
    ((x.appendBody maxSize bytes allocates).2 = ({}, false) ∧
      x.stream.receive.amount + bytes.length ≤ x.stream.receive.limit ∧
      (x.appendBody maxSize bytes allocates).1.stream = { x.stream with
        receive := { x.stream.receive with amount := x.stream.receive.amount + bytes.length }
        pendingBody := x.stream.pendingBody ++ bytes }) := by
  have hfail : ∀ (y : OnStream) (error : NetworkError), y.stream = x.stream →
      x.stream.protocol.held = true → (y.fail error).2.isError = true ∧
        Quiet x.stream (y.fail error).1.stream ∧
        (x.stream.Settled → (y.fail error).1.stream.Settled) := by
    intro y error hy hheld
    rw [← hy] at hheld ⊢
    exact ⟨fail_error y error hheld, quiet_fail y error, settled_fail y error⟩
  rw [OnStream.appendBody]
  dsimp only
  split
  · next he => exact .inl ⟨rfl, he, .refl _, fun h => h⟩
  split
  · split
    · next hheld =>
      obtain ⟨h₁, h₂, h₃⟩ := hfail x _ rfl hheld
      exact .inl ⟨rfl, h₁, h₂, h₃⟩
    · exact .inl ⟨rfl, rfl, .refl _, fun h => h⟩
  next hopen =>
  have hheld : x.stream.protocol.held = true := by
    cases hp : x.stream.protocol.held with
    | true => rfl
    | false =>
      rw [hp, Bool.not_false, Bool.or_true, Bool.true_or] at hopen
      exact absurd rfl hopen
  split
  · obtain ⟨h₁, h₂, h₃⟩ := hfail x _ rfl hheld
    exact .inl ⟨rfl, h₁, h₂, h₃⟩
  have hlease := tryResize_lease x.shared x.stream.receive (x.stream.receive.amount + bytes.length)
  generalize x.shared.tryResize x.stream.receive (x.stream.receive.amount + bytes.length) = resized
    at hlease ⊢
  obtain ⟨b, l, ok⟩ := resized
  rcases hlease with hres | ⟨hres, hle⟩
  · cases hres
    obtain ⟨h₁, h₂, h₃⟩ := hfail { x with shared := b } (x.stream.streamError .hResourceLimitExceeded
      "HTTP/2 接收 body 超过流或连接预算" .hEnhanceYourCalm) rfl hheld
    exact .inl ⟨rfl, h₁, h₂, h₃⟩
  · cases hres
    cases allocates with
    | true => exact .inr (.inr ⟨rfl, hle, rfl⟩)
    | false =>
      refine .inr (.inl ⟨rfl, ?_⟩)
      have hback := tryResize_shrink b
        { x.stream.receive with amount := x.stream.receive.amount + bytes.length }
        x.stream.receive.amount hl.held hl.bytes (Nat.le_add_right _ _) hl.within
      exact congrArg (fun l : Lease × Bool => ({ x.stream with receive := l.1 } : Http2Stream)) hback

end Body

section Nexts
variable {H : Type} {t : Terms} {e : Entry H} {s : Http2Stream}

theorem next_ended {u : Http2Stream} (hp : e.pendingHeaders.isSome = false) (hi : s.initialSealed = true)
    (hlength : (e.expectedLength.any fun length => s.receivedBytes != length) = false)
    (hsealed : u.initialSealed = true) (hstored : u.stored = s.stored)
    (hcomplete : u.bodyComplete = true) : Next t e s e u .ended := by
  intro ph hfits hpassed
  have hnone : e.pendingHeaders = none := Option.not_isSome_iff_eq_none.1 (Bool.eq_false_iff.1 hp)
  have hwhole : ∀ f got, Taken t e s f got → t.whole f got.length = true := by
    intro f got hk
    rw [hk.expected, hk.received] at hlength
    rw [Terms.whole]
    cases hd : t.declared f with
    | none => rfl
    | some length =>
      rw [hd, Option.any_some, bne_eq_false_iff_eq] at hlength
      rw [Option.all_some, hlength]
      exact beq_self_eq_true _
  cases ph with
  | idle | heading =>
    rw [hfits.1.initialSealed] at hi
    cases hi
  | body f got | trailed f got =>
    obtain ⟨hk, -, -, -⟩ := hfits
    refine ⟨.complete f got, ?_, ⟨hstored.trans hk.stored, hcomplete, hsealed, hnone⟩,
      fun _ => ⟨f, got, rfl⟩⟩
    rw [Terms.advance, if_pos (hwhole f got hk)]
  | trailing f got =>
    rw [hfits.2.2.2.1] at hp
    cases hp
  | complete f got =>
    exact ⟨.complete f got, rfl, ⟨hstored.trans hfits.1, hcomplete, hsealed, hnone⟩,
      fun _ => ⟨f, got, rfl⟩⟩

end Nexts

section Events
variable {H : Type} {r : Receive H} {id : Int} {e : Entry H} (api : HeadersApi H) (maxSize : Nat)

theorem inv_reject (h : Inv r) (id : Int) (error : NetworkError) : Inv (r.reject id error).1 :=
  h.silent (silent_reject h id error)

theorem kind_terms (r : Receive H) (i : Nat) : r.kind = (r.terms i).kind := by
  rw [Receive.kind, Terms.kind, Receive.terms]
  cases r.role with
  | hClient => rfl
  | hServer => rfl

theorem inv_beginBlock (h : Inv r) (hf : r.find id = some e) : Inv (r.beginBlock api id e).1 := by
  rw [Receive.beginBlock]
  dsimp only
  split
  · exact inv_reject h id _
  split
  · exact inv_reject h id _
  next hn =>
  obtain ⟨hn, htrailers⟩ := Bool.or_eq_false_iff.1 (Bool.eq_false_iff.2 hn)
  obtain ⟨hpending, hcomplete⟩ := Bool.or_eq_false_iff.1 hn
  have hnone : e.pendingHeaders = none :=
    Option.not_isSome_iff_eq_none.1 (Bool.eq_false_iff.1 hpending)
  rw [kind_terms r e.stream]
  exact h.record hf rfl rfl (next_begun hnone hcomplete htrailers _)

theorem inv_enterNew (h : Inv r) (hn : New s) (hid : s.id = id)
    (hlive : r.connectionError.isError = false) (hf : r.find id = none) :
    Inv ((r.add s).put id { stream := r.made }) := by
  have hobj : (r.add s).objects r.made = ⟨s, false, []⟩ := Function.update_self _ _ _
  have hstream : (r.add s).stream r.made = s := congrArg Object.stream hobj
  have henter := (inv_add h hn).enter (Nat.lt_succ_self r.made) (by rw [hstream]; exact hn.held)
    (by rw [hobj]; exact ⟨rfl, hn.initialSealed, hn.trailersSealed, hn.stored, hn.received⟩)
    (by rw [hstream, hid]; exact hf) hlive false
  have hsame : Function.update (r.add s).objects r.made
      { (r.add s).objects r.made with headResponse := false } = (r.add s).objects := by
    rw [hobj]
    exact Function.update_idem _ _ _
  rw [hsame, hstream, hid] at henter
  exact henter

theorem inv_onBeginHeaders (h : Inv r) (id : Int) : Inv (r.onBeginHeaders api id).1 := by
  rw [Receive.onBeginHeaders]
  split
  · exact h
  next hlive =>
  split
  · next e hf => exact inv_beginBlock api h hf
  · next hf =>
    split
    · exact h
    dsimp only
    have hlast : Inv { r with lastServerStreamId := id } :=
      h.silent (.frame rfl rfl rfl rfl rfl h.dead)
    split
    · exact hlast
    · exact h.silent (.frame rfl rfl rfl rfl rfl h.dead)
    · next b s hc =>
      obtain ⟨hnew, hid⟩ := new_create hc
      have hshared : Inv { r with lastServerStreamId := id, shared := b } :=
        h.silent (.frame rfl rfl rfl rfl rfl h.dead)
      exact inv_beginBlock api (inv_enterNew hshared hnew hid (Bool.eq_false_iff.2 hlive) hf)
        (by rw [find_put, if_pos rfl])

theorem Fits.pending {t : Terms} {s : Http2Stream} (h : Fits t e s ph)
    (hp : e.pendingHeaders.isSome = true) (x : H) :
    Fits t { e with pendingHeaders := some x } s ph := by
  cases ph with
  | idle =>
    rw [h.2] at hp
    cases hp
  | heading =>
    exact ⟨⟨h.1.initialSealed, h.1.trailersSealed, h.1.expected, h.1.stored, h.1.received⟩, rfl, h.2.2⟩
  | body f got | trailed f got | complete f got =>
    rw [h.2.2.2] at hp
    cases hp
  | trailing f got =>
    exact ⟨⟨h.1.forbidden, h.1.expected, h.1.stored, h.1.received⟩, h.2.1, h.2.2.1, rfl, h.2.2.2.2⟩

theorem Inv.put {f : Entry H} (h : Inv r) (hf : r.find id = some e) (hs : f.stream = e.stream)
    (hpol : f.headResponse = e.headResponse)
    (hfits : ∀ ph, Fits (r.terms e.stream) e (r.stream e.stream) ph →
      Fits (r.terms e.stream) f (r.stream e.stream) ph) : Inv (r.put id f) := by
  obtain ⟨hlt, -, ⟨⟨ph, hph, hfits₀, hpassed⟩, hset, hpol₀⟩⟩ := h.entries id e hf
  refine h.entry hf hs rfl rfl rfl (fun _ _ => rfl) (find_put r id f) rfl ⟨⟨ph, ?_, ?_, ?_⟩, ?_, ?_⟩
    (h.published _) (listed_put r h.listed id f) (h.leased _ hlt)
  · rw [hs]
    exact hph
  · rw [hs]
    exact hfits ph hfits₀
  · rw [hs]
    exact hpassed
  · rw [hs]
    exact hset
  · rw [hs, hpol]
    exact hpol₀

theorem inv_onHeader (h : Inv r) (id : Int) (name value : Bytes) :
    Inv (r.onHeader api id name value).1 := by
  rw [Receive.onHeader]
  split
  · exact h
  next e hf =>
  split
  · exact inv_reject h id _
  next x hx =>
  have hput := h.put hf (f := { e with pendingHeaders := some (api.append x name value).1 }) rfl rfl
    fun ph hfits => hfits.pending (by rw [hx]; rfl) _
  dsimp only
  split
  · exact inv_reject hput id _
  · exact hput

theorem inv_finishInitial (h : Inv r) (block : HeaderBlock) (hf : r.find block.streamId = some e)
    (hp : e.pendingHeaders.isSome = true) (hk : e.pendingKind = block.kind)
    (ht : block.kind ≠ .hTrailers)
    (hlate : ¬(block.kind = .hResponse ∧ block.statusCode < 200)) (x : H) (callback : List Action) :
    Inv (r.finishInitial api e x block callback).1 := by
  obtain ⟨hlt, -, hm⟩ := h.entries _ e hf
  rw [Receive.finishInitial]
  dsimp only
  split
  · exact inv_reject h _ _
  next hlength =>
  generalize (if decide (r.role = .hClient) = true then r.options.maxResponseBytes.toNat
    else r.options.maxBodyBytes.toNat) = limit
  split
  · exact inv_reject h _ _
  apply inv_calls
  have hterms : r.terms e.stream = ⟨decide (r.role = .hClient), e.headResponse⟩ := by
    rw [Receive.terms, hm.policy]
  rw [← hk]
  refine h.settle hf { r.on e.stream with
    stream := { r.stream e.stream with initialSealed := true } }
    (next_final hp (hk ▸ ht) (hk ▸ hlate) ?_ ?_ ?_ rfl) rfl rfl rfl hm.settled (h.published _)
    (h.leased _ hlt)
  · rw [hterms]
    exact hlength
  · rw [hterms]
    rfl
  · rw [hterms]
    rfl

theorem inv_onEndHeaders (h : Inv r) (block : HeaderBlock) (callback : List Action) :
    Inv (r.onEndHeaders api block callback).1 := by
  rw [Receive.onEndHeaders]
  dsimp only
  split
  · exact h
  next e hf =>
  obtain ⟨hlt, -, hm⟩ := h.entries _ e hf
  split
  · exact inv_reject h _ _
  next x hx =>
  have hp : e.pendingHeaders.isSome = true := by
    rw [hx]
    rfl
  split
  · exact inv_reject h _ _
  next hk =>
  have hk' : e.pendingKind = block.kind := not_not.1 hk
  split
  · exact inv_reject h _ _
  split
  · next ht =>
    split
    · exact inv_reject h _ _
    next hend =>
    have hend' : block.endStream = true := by
      cases hb : block.endStream with
      | true => rfl
      | false =>
        rw [hb] at hend
        exact absurd rfl hend
    rw [hend', ht]
    exact h.settle hf { r.on e.stream with
      stream := { r.stream e.stream with trailersSealed := true } }
      (next_trailers hp (hk'.trans ht)) rfl rfl rfl hm.settled (h.published _) (h.leased _ hlt)
  next ht =>
  split
  · exact inv_reject h _ _
  split
  · next hearly =>
    split
    · exact inv_reject h _ _
    next hend =>
    apply inv_calls
    rw [hearly.1, Bool.eq_false_iff.2 hend]
    exact h.record hf rfl rfl (next_early hp (hk'.trans hearly.1) hearly.2)
  · next hlate => exact inv_finishInitial api h block hf hp hk' ht hlate _ callback

theorem inv_onData (h : Inv r) (id : Int) (data : Bytes) (allocates : Bool) (result : Int) :
    Inv (r.onData maxSize id data allocates result).1 := by
  rw [Receive.onData]
  split
  · exact h
  next e hf =>
  obtain ⟨hlt, -, hm⟩ := h.entries _ e hf
  dsimp only
  split
  · exact inv_reject h _ _
  split
  · exact inv_reject h _ _
  next hstate =>
  split
  · exact inv_reject h _ _
  next hlength =>
  obtain ⟨hstate, hforbidden⟩ := Bool.or_eq_false_iff.1 (Bool.eq_false_iff.2 hstate)
  obtain ⟨hstate, hcomplete⟩ := Bool.or_eq_false_iff.1 hstate
  obtain ⟨hstate, htrailers⟩ := Bool.or_eq_false_iff.1 hstate
  obtain ⟨hinitial, hpending⟩ := Bool.or_eq_false_iff.1 hstate
  rw [Bool.not_eq_false'] at hinitial
  rcases appendBody_cases (r.on e.stream) maxSize data allocates (h.leased _ hlt) with
    ⟨hthrew, herror, hq, hs⟩ | ⟨hthrew, hsame⟩ | ⟨hok, hle, hstored⟩
  · rw [hthrew, herror, if_neg Bool.false_ne_true, if_pos rfl]
    exact inv_reject (h.silent (silent_settle h hlt hq hs)) id _
  · rw [hthrew, if_pos rfl]
    refine h.silent (silent_settle h hlt ?_ ?_)
    · rw [hsame]
      exact .refl _
    · rw [hsame]
      exact fun h => h
  · have hpub : (r.stream e.stream).bodyPublished = false := by
      refine Bool.eq_false_iff.2 fun hp => ?_
      rw [h.published _ hp] at hcomplete
      cases hcomplete
    have hthrew : ((r.on e.stream).appendBody maxSize data allocates).2.2 = false := by rw [hok]
    have herror : ((r.on e.stream).appendBody maxSize data allocates).2.1.isError = false := by
      rw [hok]
      rfl
    rw [hthrew, herror, if_neg Bool.false_ne_true, if_neg Bool.false_ne_true]
    generalize ((r.on e.stream).appendBody maxSize data allocates).1 = x at hstored
    have hrecord : Inv ((r.settle e.stream x).record e.stream (.data data)) := by
      refine h.advance hf x ?_ ?_ ?_ ?_ ?_
      · rw [hstored]
        exact next_data hpending hinitial htrailers hcomplete hpub hforbidden
          (Bool.eq_false_iff.2 hlength)
      · rw [hstored]
        rfl
      · rw [hstored]
        exact hm.settled
      · rw [hstored]
        exact h.published _
      · rw [hstored]
        exact ⟨(h.leased _ hlt).held, (h.leased _ hlt).bytes, hle⟩
    exact hrecord.silent (silent_operation hrecord _ _)

theorem inv_refuse (h : Inv r) (id : Int) (error : NetworkError) (result : Int) :
    Inv (Receive.checkOperation { (r.reject id error).1 with
        codec := ((r.reject id error).1.codec.reset id result).1 }
      ((r.reject id error).1.codec.reset id result).2).1 := by
  have hreject := inv_reject h id error
  exact hreject.silent (silent_operation hreject _ _)

theorem inv_onEndStream (h : Inv r) (id : Int) (result : Int) : Inv (r.onEndStream id result).1 := by
  rw [Receive.onEndStream]
  split
  · exact h
  next e hf =>
  obtain ⟨hlt, -, hm⟩ := h.entries _ e hf
  dsimp only
  split
  · split
    · exact inv_refuse h id _ result
    · exact h
  next hopen =>
  split
  · exact inv_refuse h id _ result
  next hstate =>
  obtain ⟨hstate, hlength⟩ := Bool.or_eq_false_iff.1 (Bool.eq_false_iff.2 hstate)
  obtain ⟨hinitial, hpending⟩ := Bool.or_eq_false_iff.1 hstate
  rw [Bool.not_eq_false'] at hinitial
  have hon : (r.on e.stream).stream = r.stream e.stream := rfl
  rw [OnStream.completeBody, hon]
  split
  · next hcomplete =>
    have hsettle : Silent r (r.settle e.stream (r.on e.stream)) :=
      silent_settle h hlt (.refl _) fun h => h
    dsimp only
    generalize (if (r.stream e.stream).bodyFailed = true then (r.stream e.stream).error
      else ({} : NetworkError)) = error
    split
    · exact inv_refuse (h.silent hsettle) id _ result
    · exact h.advance hf (r.on e.stream)
        (next_ended hpending hinitial hlength hinitial rfl hcomplete) rfl hm.settled (h.published _)
        (h.leased _ hlt)
  next hcomplete =>
  rw [hinitial, Bool.not_true, if_neg Bool.false_ne_true]
  dsimp only
  rw [show ({} : NetworkError).isError = false from rfl, if_neg Bool.false_ne_true]
  have hstream : ((r.on e.stream).completeBodyOnce false).stream =
      { r.stream e.stream with
        bodyCompletedAt := r.now, bodyFailed := false, bodyComplete := true } := by
    rw [OnStream.completeBodyOnce, hon, if_neg hcomplete]
    rfl
  refine h.advance hf _ (next_ended hpending hinitial hlength ?_ ?_ ?_) ?_ ?_ ?_ ?_
  · rw [hstream]
    exact hinitial
  · rw [hstream]
    rfl
  · rw [hstream]
  · rw [hstream]
  · rw [hstream]
    exact hm.settled.imp (fun h => h) fun h => ⟨h.1, rfl⟩
  · rw [hstream]
    exact fun _ => rfl
  · rw [hstream]
    exact h.leased _ hlt

theorem inv_onStreamClose (h : Inv r) (id : Int) (code : Http2Code) :
    Inv (r.onStreamClose id code) := by
  rw [Receive.onStreamClose]
  split
  · exact h
  next e hf =>
  dsimp only
  split
  · obtain ⟨hq, hheld⟩ := quiet_closeProtocol ((r.erase id).on e.stream)
    exact h.silent (silent_close h hf hq hheld)
  · exact h.silent (silent_close h hf (quiet_fail ((r.erase id).on e.stream) _) (held_fail _ _))

theorem inv_onError (h : Inv r) (error : NetworkError) : Inv (r.onError error) := by
  rw [Receive.onError]
  split
  · exact h
  split
  · split
    · exact inv_reject h _ _
    · exact h.silent (silent_fail h error)
  · exact h.silent (silent_fail h error)

theorem inv_step (h : Inv r) (event : Event) : Inv (r.step api maxSize event) := by
  cases event with
  | beginHeaders id => exact inv_onBeginHeaders api h id
  | header id name value => exact inv_onHeader api h id name value
  | endHeaders block callback => exact inv_onEndHeaders api h block callback
  | data id data allocates result => exact inv_onData maxSize h id data allocates result
  | endStream id result => exact inv_onEndStream h id result
  | streamClose id code => exact inv_onStreamClose h id code
  | error error => exact inv_onError h error
  | action a => exact inv_act h a

theorem inv_run (h : Inv r) (events : List Event) : Inv (r.run api maxSize events) := by
  induction events generalizing r with
  | nil => exact h
  | cons event events ih => exact ih (inv_step api maxSize h event)

end Events

end Hical.Http2
