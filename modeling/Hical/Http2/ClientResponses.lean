import Hical.Http2.ClientTurns

namespace Hical.Http2
open Hical.Client

namespace ClientSession
variable {H : Type} {g : Ground H} {api : ResponseApi H} {s s' : ClientSession H} {id : Int} {c c' : Context H}

theorem ContextOk.setContext (h : ContextOk api g s k c) (j : Nat) (d : Context H)
    (hlt : (s.receive.stream c.stream).id < s.nextStreamId) :
    ContextOk api g (s.setContext j d) k c :=
  h.steady { Steady.refl s with } hlt (.refl _ c) fun _ hf => hf

section Headers

/-- What is kept of the header blocks where one ends: the blocks of a stream that has its header and
those of a stream on which none is open stay. -/
theorem keepHeaders_eq (api : ResponseApi H) (s : ClientSession H) (id : Int) (r : Receive H) :
    ∃ I T, s.keepHeaders api id r = { s with receive := r, initialHeaders := I, trailers := T } ∧
      (∀ i, (s.receive.stream i).initialSealed = true ∨ (r.stream i).initialSealed = false →
        I i = s.initialHeaders i) ∧
      (∀ i, Still s.receive i → T i = s.trailers i) ∧
      ∀ e h, s.receive.find id = some e → e.pendingHeaders = some h →
        (s.receive.stream e.stream).initialSealed = false →
        (r.stream e.stream).initialSealed = true → I e.stream = some (api.sealBlock h).1 := by
  rw [keepHeaders]
  cases hf : s.receive.find id with
  | none => exact ⟨_, _, rfl, fun _ _ => rfl, fun _ _ => rfl, nofun⟩
  | some e =>
    dsimp only
    cases hp : e.pendingHeaders with
    | none =>
      refine ⟨_, _, rfl, fun _ _ => rfl, fun _ _ => rfl, fun e' h he hh => ?_⟩
      cases he
      rw [hp] at hh
      cases hh
    | some h =>
      refine ⟨_, _, rfl, fun i hi => ?_, fun i hi => ?_, fun e' h' he hh hb hr => ?_⟩
      · split
        · next hc =>
          obtain ⟨hc, hc'⟩ := Bool.and_eq_true_iff.1 hc
          rw [Bool.not_eq_true'] at hc
          refine Function.update_of_ne (fun he => ?_) _ _
          subst he
          rcases hi with hi | hi
          · exact Bool.false_ne_true (hc.symm.trans hi)
          · exact Bool.false_ne_true (hi.symm.trans hc')
        · rfl
      · split
        · refine Function.update_of_ne (fun he => ?_) _ _
          rw [hi id e hf he.symm] at hp
          cases hp
        · rfl
      · cases he
        rw [hp] at hh
        cases hh
        rw [hb, hr, Bool.not_false, Bool.and_true, if_pos rfl]
        exact Function.update_self _ _ _

theorem turn_keepHeaders (s : ClientSession H) (id : Int) {r : Receive H}
    (ha : Ages .nothing s.receive r) (hi : Inv r) : Turn g s (s.keepHeaders api id r) := by
  obtain ⟨I, T, heq, hI, hT, -⟩ := keepHeaders_eq api s id r
  rw [heq]
  have hsame : I = s.initialHeaders := by
    funext i
    refine hI i ?_
    by_cases hlt : i < s.receive.made
    · cases hb : (s.receive.stream i).initialSealed with
      | true => exact .inl rfl
      | false => exact .inr ((ha.older i hlt).initialSealed.trans hb)
    · right
      rw [Receive.stream, hi.blank i (ha.made ▸ Nat.le_of_not_lt hlt)]
      rfl
  subst hsame
  exact { Turn.withReceive (g := g) s ha fun _ => hi with
    trailers := fun i _ _ hi => hT i hi
    noted := fun _ _ _ hm hm' _ _ => noted_same hm hm' }

theorem copyHeader_of_copied (h : Copied api s c) : s.copyHeader api k c = s := by
  rw [copyHeader, if_neg]
  intro hc
  obtain ⟨hsealed, hstatus⟩ := Bool.and_eq_true_iff.1 hc
  exact (h.behind hsealed).2.2 (of_decide_eq_true hstatus)

theorem Based.sealed (hb : Based s) (ha : Ages (.initial i) s.receive r) (hi : Inv r) :
    Based { s with receive := r, initialHeaders := I, trailers := T } := by
  have hmade : r.made = s.receive.made := ha.made
  have hid : ∀ j, j < s.receive.made → (r.stream j).id = (s.receive.stream j).id := by
    intro j hj
    refine (ha.older j hj).id.trans ?_
    rw [Receive.sealing]
    split
    · rfl
    · rfl
  refine ⟨ha.role.trans hb.role, hb.options, hi, ha.terminal hb.terminal, fun he => ha.dead (hb.failed he),
    hb.next, hb.last, fun j hj => ?_, fun j l hj hl hn => ?_, hb.queued⟩
  · have hj' : j < s.receive.made := hmade ▸ hj
    obtain ⟨h₁, h₂, h₃, h₄⟩ := hb.streams j hj'
    have hold := ha.older j hj'
    have hseal : (s.receive.sealing (.initial i) j).incomingKind = .hResponse ∧
        (s.receive.sealing (.initial i) j).Honest := by
      rw [Receive.sealing]
      split
      · exact ⟨h₃, h₄.failed, fun _ => rfl⟩
      · exact ⟨h₃, h₄⟩
    dsimp only
    rw [hid j hj']
    exact ⟨h₁, h₂, hold.kind.trans hseal.1, hold.honest hseal.2⟩
  · have hn' : (r.stream j).id = (r.stream l).id := hn
    rw [hid j (hmade ▸ hj), hid l (hmade ▸ hl)] at hn'
    exact hb.apart j l (hmade ▸ hj) (hmade ▸ hl) hn'

theorem sound_sealed (hs : Sound api g s) {e : Entry H} {h : H} {r : Receive H}
    (hf : s.receive.find id = some e) (hp : e.pendingHeaders = some h)
    (hb : (s.receive.stream e.stream).initialSealed = false)
    (hstatus : 200 ≤ api.status (api.sealBlock h).1) (ha : Ages (.initial e.stream) s.receive r)
    (hi : Inv r) :
    (s.find id = none → Sound api g (s.keepHeaders api id r)) ∧
      ∀ k c, s.find id = some k → s.made[k]? = some c →
        Sound api g ((s.keepHeaders api id r).copyHeader api k c) := by
  obtain ⟨I, T, heq, hI, hT, hself⟩ := keepHeaders_eq api s id r
  rw [heq]
  obtain ⟨hlt, hname, -⟩ := hs.inv.entries id e hf
  have hsealed : (r.stream e.stream).initialSealed = true := by
    rw [(ha.older _ hlt).initialSealed, Receive.sealing, if_pos rfl]
  have hst : Steady (.initial e.stream) s { s with receive := r, initialHeaders := I, trailers := T } :=
    ⟨ha, fun i hi => hI i (.inl hi), fun i _ _ hi => hT i hi, Int.le_refl _, fun _ h => h, fun _ h => h,
      fun _ h => .inl h, fun _ h => .inl h⟩
  have hbased := hs.toBased.sealed ha hi (I := I) (T := T)
  -- A context of the stream is the one that is found.
  have hlink : ∀ (k : Nat) c id', s.find id' = some k → s.made[k]? = some c → c.stream = e.stream →
      id' = id := by
    intro k c id' hfind hm hce
    obtain ⟨c', hm', hid⟩ := hs.linked id' k hfind
    rw [hm] at hm'
    cases hm'
    rw [hce, hname] at hid
    exact hid.symm
  -- The others stay as they are.
  have hother : ∀ (k : Nat) c, s.made[k]? = some c → s.find id ≠ some k →
      ContextOk api g { s with receive := r, initialHeaders := I, trailers := T } k c := by
    intro k c hm hk
    have hok := hs.contexts k c hm
    refine ⟨?_, fun hr => ?_, hok.sent, fun hd => ?_, fun id' hfind => ?_⟩
    · rw [show r.made = s.receive.made from ha.made]
      exact hok.made
    · obtain ⟨x, hx⟩ := hok.ready hr
      exact ⟨x, hx.steady hst hok.made ⟨rfl, rfl, rfl, rfl⟩⟩
    · rw [hst.id hok.made]
      exact g.stays hst (hs.streams _ hok.made).1 (hok.processed hd)
    · have hne : c.stream ≠ e.stream := by
        intro hce
        rw [hlink k c id' hfind hm hce] at hfind
        exact hk hfind
      have hsame : (r.stream c.stream).initialSealed = (s.receive.stream c.stream).initialSealed := by
        rw [(ha.older _ hok.made).initialSealed, Receive.sealing,
          if_neg fun h => hne (Change.initial.inj h).symm]
      obtain ⟨h₁, h₂, h₃⟩ := hok.copied id' hfind
      refine ⟨fun hn => h₁ (hsame ▸ hn), fun hn => ?_, h₃⟩
      have hn' : (s.receive.stream c.stream).initialSealed = true := hsame ▸ hn
      dsimp only
      rw [hI _ (.inl hn')]
      exact h₂ hn'
  refine ⟨fun hnone => ?_, fun k c hk hm => ?_⟩
  · refine hs.change hst hbased rfl (fun _ _ h => h) hs.listed rfl fun k c c' hm hm' => ?_
    rw [hm] at hm'
    cases hm'
    refine ⟨rfl, hother k c hm ?_, fun _ _ => ⟨rfl, rfl, rfl⟩⟩
    rw [hnone]
    exact (Option.some_ne_none _).symm
  · have hok := hs.contexts k c hm
    obtain ⟨c₀, hm₀, hid⟩ := hs.linked id k hk
    rw [hm] at hm₀
    cases hm₀
    have hce : c.stream = e.stream := hs.apart _ _ hok.made hlt (hid.trans hname.symm)
    have hb' : (s.receive.stream c.stream).initialSealed = false := hce ▸ hb
    obtain ⟨hstatus₀, hheaders₀⟩ := (hok.copied id hk).before hb'
    have hheader : I c.stream = some (api.sealBlock h).1 := hce ▸ hself e h hf hp hb hsealed
    have hunready : c.responseReady = false := by
      refine Bool.eq_false_iff.2 fun hr => ?_
      obtain ⟨x, hx⟩ := hok.ready hr
      exact Bool.false_ne_true (hb'.symm.trans hx.initialSealed)
    have hsealed' : (r.stream c.stream).initialSealed = true := hce ▸ hsealed
    rw [copyHeader]
    dsimp only
    rw [hsealed', hstatus₀, decide_eq_true rfl, Bool.and_true, if_pos rfl, hheaders₀, List.nil_append,
      hheader]
    generalize hc' : ({ c with result := { c.result with
      status := statusOf api (some (api.sealBlock h).1)
      headers := fieldsOf api (some (api.sealBlock h).1) } } : Context H) = c'
    have hcopied : ContextOk api g (setContext { s with receive := r, initialHeaders := I, trailers := T }
        k c') k c' := by
      subst hc'
      refine ⟨?_, fun hr => ?_, hok.sent, fun hd => ?_, fun id' hfind => ⟨fun hn => ?_, fun _ => ?_, ?_⟩⟩
      · exact hok.made.trans_eq ha.made.symm
      · exact absurd (hunready.symm.trans hr) Bool.false_ne_true
      · have hid := hst.id hok.made
        dsimp only [setContext] at hid ⊢
        rw [hid]
        exact g.stays { hst with } (hs.streams _ hok.made).1 (hok.processed hd)
      · exact absurd (hn.symm.trans hsealed') Bool.false_ne_true
      · dsimp only [setContext]
        rw [hheader]
        refine ⟨rfl, rfl, ?_⟩
        rw [statusOf, Option.map_some, Option.getD_some]
        omega
      · exact (hok.copied id hk).trailers
    refine hs.change { hst with } { hbased with } rfl (fun _ _ h => h) hs.listed List.length_set
      fun j d d' hj hj' => ?_
    have hset : (s.made.set k c')[j]? = some d' := hj'
    rw [List.getElem?_set] at hset
    split at hset
    · next hkj =>
      subst hkj
      rw [hm] at hj
      cases hj
      split at hset
      · cases hset
        refine ⟨by rw [← hc'], hcopied, fun hr => ?_⟩
        exact absurd (hunready.symm.trans hr) Bool.false_ne_true
      · cases hset
    · next hne =>
      rw [hj] at hset
      cases hset
      have hok' := hother j d hj fun hfj => hne (Option.some.inj (hk.symm.trans hfj))
      have hlt := (hbased.streams _ hok'.made).1
      exact ⟨rfl, hok'.setContext k c' hlt, fun _ _ => ⟨rfl, rfl, rfl⟩⟩

theorem sound_onEndHeaders (hs : Sound api g s) (block : HeaderBlock) :
    Sound api g (s.onEndHeaders api block) ∧ (s.onEndHeaders api block).requests = s.requests := by
  have hi := inv_onEndHeaders api.toHeadersApi hs.inv block []
  obtain ⟨I, T, heq, -, -, -⟩ := keepHeaders_eq api s block.streamId
    (s.receive.onEndHeaders api.toHeadersApi block []).1
  have hrequests : ∀ k c, (copyHeader api (s.keepHeaders api block.streamId
      (s.receive.onEndHeaders api.toHeadersApi block []).1) k c).requests = s.requests := by
    intro k c
    rw [heq, copyHeader]
    split
    · rfl
    · rfl
  have hfind : (s.keepHeaders api block.streamId
      (s.receive.onEndHeaders api.toHeadersApi block []).1).find block.streamId =
        s.find block.streamId := by
    rw [heq]
    rfl
  have hmade : (s.keepHeaders api block.streamId
      (s.receive.onEndHeaders api.toHeadersApi block []).1).made = s.made := by
    rw [heq]
  rw [onEndHeaders, hfind, hmade]
  rcases ages_onEndHeaders api.toHeadersApi hs.inv hs.role block with ha | ⟨e, h, hf, hp, hb, hstatus, ha⟩
  · have hturn := @turn_keepHeaders H g api s block.streamId _ ha hi
    have hkept := hs.turn hturn
    cases hk : s.find block.streamId with
    | none => exact ⟨hkept, hturn.requests⟩
    | some k =>
      dsimp only
      cases hm : s.made[k]? with
      | none => exact ⟨hkept, hturn.requests⟩
      | some c =>
        dsimp only
        rw [copyHeader_of_copied ((hkept.contexts k c (hmade ▸ hm)).copied _ (hfind.trans hk))]
        have hcapture := turn_captureError (g := g) (s.keepHeaders api block.streamId
          (s.receive.onEndHeaders api.toHeadersApi block []).1) k
        exact ⟨hkept.turn hcapture, hcapture.requests.trans hturn.requests⟩
  · obtain ⟨hnone, hsome⟩ := sound_sealed hs hf hp hb hstatus ha hi
    cases hk : s.find block.streamId with
    | none =>
      refine ⟨hnone hk, ?_⟩
      rw [heq]
    | some k =>
      dsimp only
      obtain ⟨c, hm, -⟩ := hs.linked _ k hk
      rw [hm]
      have hcapture := turn_captureError (g := g) (copyHeader api (s.keepHeaders api block.streamId
        (s.receive.onEndHeaders api.toHeadersApi block []).1) k c) k
      exact ⟨(hsome k c hk hm).turn hcapture, hcapture.requests.trans (hrequests k c)⟩

end Headers

section Complete

theorem publishBody_stored (x : OnStream) (hk : x.stream.incomingKind = .hResponse)
    (he : x.publishBody.2.isError = false) :
    x.publishBody.1.stream.error.isError = false ∧
      x.publishBody.1.stream.responseBody = x.publishBody.1.stream.stored := by
  have hkind : x.stream.incomingKind ≠ .hRequest := by
    rw [hk]
    exact HeaderKind.noConfusion
  rw [OnStream.publishBody] at he ⊢
  split at he
  · next herror => exact absurd (herror.symm.trans he) (Bool.false_ne_true ·.symm)
  next herror =>
  have herror' := Bool.eq_false_iff.2 herror
  rw [if_neg herror]
  split at he
  · cases he
  next hc =>
  rw [if_neg hc]
  split
  · next hp =>
    refine ⟨herror', ?_⟩
    rw [Http2Stream.stored, if_pos hp, if_neg hkind]
  · refine ⟨herror', ?_⟩
    rw [Http2Stream.stored]
    dsimp only
    rw [if_pos rfl, if_neg hkind]

theorem ready_complete (now : Nat) (hs : Sound api g s) (hm : s.made[k]? = some c) (hk : s.find id = some k)
    (hr : c.responseReady = false) (hn : c.result.error.isError = false)
    (hc : (s.receive.stream c.stream).bodyComplete = true)
    (he : (s.receive.stream c.stream).error.isError = false)
    (hb : (s.receive.stream c.stream).responseBody = (s.receive.stream c.stream).stored) :
    let h : Heard H := ⟨⟨true, (s.receive.objects c.stream).headResponse⟩,
      (s.receive.objects c.stream).log, s.initialHeaders c.stream, s.trailers c.stream,
      (s.receive.stream c.stream).bodyCompletedAt⟩
    Ready api s { c with
      result := { c.result with
        body := (s.receive.stream c.stream).responseBody
        trailers := c.result.trailers ++ fieldsOf api (s.trailers c.stream) }
      completedAt := now
      responseReady := true
      heard := some h } h := by
  have hok := hs.contexts k c hm
  obtain ⟨-, -, -, hhonest⟩ := hs.streams c.stream hok.made
  have hpassed : (s.receive.stream c.stream).passed = true := by
    rw [Http2Stream.passed, hc, Bool.true_and, Bool.not_eq_true']
    refine Bool.eq_false_iff.2 fun hf => ?_
    exact Bool.false_ne_true (he.symm.trans (hhonest.failed hf))
  have hsealed := hhonest.passed hpassed
  obtain ⟨hstatus, hheaders, -⟩ := (hok.copied id hk).behind hsealed
  obtain ⟨f, hphase⟩ := hs.inv.gate c.stream hpassed
  have hterms : (⟨true, (s.receive.objects c.stream).headResponse⟩ : Terms) =
      s.receive.terms c.stream := by
    rw [Receive.terms, hs.role]
    rfl
  refine ⟨rfl, rfl, hn, ?_, hstatus, hheaders, ?_, hterms, List.prefix_rfl, rfl, rfl, hsealed, hc, rfl,
    fun id' e hf hse => ?_⟩
  · dsimp only
    rw [hb, hterms]
    exact shape_phase _ _ hphase
  · dsimp only
    rw [(hok.copied id hk).trailers hr, List.nil_append]
  · obtain ⟨-, -, ⟨⟨ph, hph, hfits, -⟩, -, -⟩⟩ := hs.inv.entries id' e hf
    have hse' : e.stream = c.stream := hse
    rw [hse', hphase] at hph
    cases hph
    exact hfits.2.2.2

theorem Sound.setContext (hs : Sound api g s) (hm : s.made[k]? = some c) (hstream : c'.stream = c.stream)
    (hok : ContextOk api g s k c')
    (hfree : c.responseReady = true → ∀ (i : Nat) (r : ClientRequest) (result : _),
      s.requests[i]? = some r → r.context = some k → r.progress ≠ .returned result) :
    Sound api g (s.setContext k c') := by
  refine hs.change { Steady.refl s with } { hs.toBased with } rfl (fun _ _ h => h) hs.listed
    List.length_set fun j d d' hj hj' => ?_
  have hset : (s.made.set k c')[j]? = some d' := hj'
  rw [List.getElem?_set] at hset
  split at hset
  · next hkj =>
    subst hkj
    rw [hm] at hj
    cases hj
    split at hset
    · cases hset
      refine ⟨hstream, hok.setContext k c' (hs.streams _ hok.made).1,
        fun hr ⟨i, r, result, hi, hk, hp⟩ => ?_⟩
      exact absurd hp (hfree hr i r result hi hk)
    · cases hset
  · rw [hj] at hset
    cases hset
    have hok' := hs.contexts j d hj
    exact ⟨rfl, hok'.setContext k c' (hs.streams _ hok'.made).1, fun _ _ => ⟨rfl, rfl, rfl⟩⟩

theorem stream_onStream (s : ClientSession H) (i : Nat) (op : AppOp) :
    (s.onStream i op).receive.stream i = (op.apply (s.receive.on i)).stream := by
  rw [onStream]
  dsimp only
  rw [stream_settle, if_pos rfl]

theorem sound_complete (hs : Sound api g s) (hk : s.find id = some k) :
    Sound api g (s.complete api k) ∧ (s.complete api k).requests = s.requests := by
  rw [complete]
  split
  · next c hm =>
    dsimp only
    split
    · next hc =>
      obtain ⟨hc, hcomplete⟩ := Bool.and_eq_true_iff.1 hc
      obtain ⟨hr, hn⟩ := Bool.and_eq_true_iff.1 hc
      rw [Bool.not_eq_true'] at hr hn
      have hlt := (hs.contexts k c hm).made
      obtain ⟨-, -, hkind, -⟩ := hs.streams c.stream hlt
      have hpublish : Turn g s _ := turn_onStream s hlt .publishBody
      have hs' := hs.turn hpublish
      have hold := older_publishBody (s.receive.on c.stream)
      have hstream := stream_onStream s c.stream .publishBody
      split
      · have hnote : Turn g (s.onStream c.stream .publishBody) ((s.onStream c.stream .publishBody).setContext k
            { c with result := { c.result with error := (s.receive.on c.stream).publishBody.2 } }) :=
          .note hm fun _ => noted_error _ c hr _
        exact ⟨hs'.turn hnote, rfl⟩
      · next he =>
        obtain ⟨herror, hbody⟩ := publishBody_stored _ hkind (Bool.eq_false_iff.2 he)
        obtain ⟨hcomplete', hat⟩ := hold.complete hcomplete
        rw [show (s.receive.on c.stream).publishBody.1.stream = _ from hstream.symm] at herror hbody hcomplete' hat
        have hready := ready_complete s.receive.now hs' hm hk hr hn hcomplete' herror hbody
        rw [← show _ = (s.receive.stream c.stream).bodyCompletedAt from hat]
        refine ⟨hs'.setContext hm rfl ?_ fun hr' => absurd (hr.symm.trans hr') Bool.false_ne_true, rfl⟩
        have hok := hs'.contexts k c hm
        refine ⟨hok.made, fun _ => ⟨_, hready⟩, hok.sent, hok.processed, fun id' hf => ?_⟩
        have hcopied := hok.copied id' hf
        exact ⟨hcopied.before, hcopied.behind, nofun⟩
    · exact ⟨hs, rfl⟩
  · exact ⟨hs, rfl⟩

theorem find_captureError (s : ClientSession H) (k : Nat) (id : Int) :
    (s.captureError k).find id = s.find id := by
  rw [captureError]
  split
  · dsimp only
    split
    · rfl
    · rfl
  · rfl

theorem sound_onEndStream (hs : Sound api g s) (id result : Int) :
    Sound api g (s.onEndStream api id result) ∧
      (s.onEndStream api id result).requests = s.requests := by
  have hend : Turn g s { s with receive := (s.receive.onEndStream id result).1 } :=
    Turn.withReceive s (ages_onEndStream s.receive id result) fun h => inv_onEndStream h id result
  have hs' := hs.turn hend
  rw [onEndStream]
  split
  · exact ⟨hs', rfl⟩
  split
  · next k hk =>
    have hcapture := turn_captureError (g := g) { s with receive := (s.receive.onEndStream id result).1 } k
    obtain ⟨h₁, h₂⟩ := sound_complete (hs'.turn hcapture) ((find_captureError _ k id).trans hk)
    exact ⟨h₁, h₂.trans hcapture.requests⟩
  · exact ⟨hs', rfl⟩

end Complete

end ClientSession

end Hical.Http2
