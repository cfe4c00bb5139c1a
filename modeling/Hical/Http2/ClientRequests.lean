import Hical.Http2.ClientSubmit

namespace Hical.Http2
open Hical.Client

namespace ClientSession
variable {H : Type} {g : Ground H} {api : ResponseApi H} {s s' : ClientSession H} {c : Context H} {r : ClientRequest}
  {i k : Nat} {error : NetworkError} {result : HttpClientResult}

/-- A request that has a context to itself and did not return yet. -/
structure Owner (s : ClientSession H) (i : Nat) (r : ClientRequest) (k : Nat) : Prop where
  context : r.context = some k
  linked : ∃ c, s.made[k]? = some c ∧ r.opened = some (s.receive.stream c.stream).id
  alone : ∀ (j : Nat) r', s.requests[j]? = some r' → j ≠ i → r'.context ≠ some k
  waiting : ∃ r', s.requests[i]? = some r' ∧ ∀ result, r'.progress ≠ .returned result

theorem Owner.turn (h : Owner s i r k) (hs : Sound api g s) (ht : Turn g s s') : Owner s' i r k := by
  obtain ⟨c, hm, ho⟩ := h.linked
  have hk := (List.getElem?_eq_some_iff.1 hm).1
  rw [← ht.length] at hk
  have hm' := List.getElem?_eq_getElem hk
  have hlt := (hs.contexts k c hm).made
  refine ⟨h.context, ⟨_, hm', ?_⟩, ?_, ?_⟩
  · rw [(ht.noted k c _ hm hm' hlt (hs.streams _ hlt).1).stream, ht.id hlt]
    exact ho
  · rw [ht.requests]
    exact h.alone
  · rw [ht.requests]
    exact h.waiting

/-- What a step of a request comes to: the others stay where they are. -/
structure Settles (api : ResponseApi H) (g : Ground H) (p : Progress → Prop) (i : Nat) (s s' : ClientSession H) :
    Prop where
  sound : Sound api g s'
  only : ∀ j, j ≠ i → s'.requests[j]? = s.requests[j]?
  progress : ∃ r, s'.requests[i]? = some r ∧ p r.progress

def Returns : Progress → Prop
  | .returned _ => True
  | _ => False

def Goes : Progress → Prop
  | .body _ => True
  | p => Returns p

theorem Settles.goes (h : Settles api g Returns i s s') : Settles api g Goes i s s' := by
  obtain ⟨r, hr, hp⟩ := h.progress
  refine ⟨h.sound, h.only, r, hr, ?_⟩
  cases hprogress : r.progress with
  | body k => exact trivial
  | admission => rwa [hprogress] at hp
  | returned result => exact trivial
  | thrown message => rwa [hprogress] at hp

theorem Settles.behind {s₁ : ClientSession H} (h : Settles api g p i s₁ s')
    (hr : s₁.requests = s.requests) : Settles api g p i s s' :=
  ⟨h.sound, fun j hj => hr ▸ h.only j hj, h.progress⟩

theorem Sound.setRequest (hs : Sound api g s) (hr : RequestOk api g s r)
    (halone : ∀ k, r.context = some k → ∀ (j : Nat) r', s.requests[j]? = some r' → j ≠ i →
      r'.context ≠ some k) : Sound api g (s.setRequest i r) := by
  have hst : Steady .nothing s (s.setRequest i r) := { Steady.refl s with }
  have hget : ∀ (j : Nat) r', (s.setRequest i r).requests[j]? = some r' →
      j = i ∧ r' = r ∨ j ≠ i ∧ s.requests[j]? = some r' := by
    intro j r' hj
    have hset : (s.requests.set i r)[j]? = some r' := hj
    rw [List.getElem?_set] at hset
    split at hset
    · next hij =>
      split at hset
      · cases hset
        exact .inl ⟨hij.symm, rfl⟩
      · cases hset
    · next hij => exact .inr ⟨fun he => hij he.symm, hset⟩
  have hok : ∀ r', RequestOk api g s r' → RequestOk api g (s.setRequest i r) r' := by
    intro r' h
    refine h.steady hst fun k c hk hm => ?_
    exact ⟨(hs.contexts k c hm).made, c, hm, rfl, fun _ _ => ⟨rfl, rfl, rfl⟩⟩
  refine ⟨{ hs.toBased with }, hs.listed, hs.linked, fun k c hm => ?_, fun j r' hj => ?_,
    fun j l r₁ r₂ k hj hl hk₁ hk₂ => ?_⟩
  · have hok := hs.contexts k c hm
    exact hok.steady hst (hs.streams _ hok.made).1 (.refl _ c) fun _ hf => hf
  · rcases hget j r' hj with ⟨-, rfl⟩ | ⟨-, hj⟩
    · exact hok r' hr
    · exact hok r' (hs.requests j r' hj)
  · rcases hget j r₁ hj with ⟨hji, hr₁⟩ | ⟨hji, hj'⟩
    · rcases hget l r₂ hl with ⟨hli, -⟩ | ⟨hli, hl'⟩
      · exact hji.trans hli.symm
      · exact absurd hk₂ (halone k (hr₁ ▸ hk₁) l r₂ hl' hli)
    · rcases hget l r₂ hl with ⟨-, hr₂⟩ | ⟨-, hl'⟩
      · exact absurd hk₁ (halone k (hr₂ ▸ hk₂) j r₁ hj' hji)
      · exact hs.own j l r₁ r₂ k hj' hl' hk₁ hk₂

theorem settles_finish (hs : Sound api g s) (hopened : ∀ id, r.opened = some id → id < s.nextStreamId)
    (hcontext : ∀ k, r.context = some k → Owner s i r k) (hi : i < s.requests.length)
    (ho : Outcome api g s r result) : Settles api g Returns i s (s.finish i r none result) := by
  refine ⟨hs.setRequest ⟨hopened, fun k hk => (hcontext k hk).linked, nofun, nofun, fun result' hr => ?_,
    nofun⟩ fun k hk => (hcontext k hk).alone, fun j hj => ?_, ⟨_, List.getElem?_set_self hi, trivial⟩⟩
  · cases hr
    exact ⟨ho.success, ho.unsent, ho.unprocessed⟩
  · exact List.getElem?_set_ne hj.symm

theorem Owner.opened (h : Owner s i r k) (hs : Sound api g s) :
    ∀ id, r.opened = some id → id < s.nextStreamId := by
  intro id hid
  obtain ⟨c, hm, ho⟩ := h.linked
  rw [hid] at ho
  rw [Option.some.inj ho]
  exact (hs.streams _ (hs.contexts k c hm).made).1

theorem Owner.index (h : Owner s i r k) : i < s.requests.length := by
  obtain ⟨r', hr, -⟩ := h.waiting
  exact (List.getElem?_eq_some_iff.1 hr).1

theorem Owner.only (h : Owner s i r k) : ∀ k', r.context = some k' → Owner s i r k' := by
  intro k' hk'
  rw [h.context] at hk'
  cases hk'
  exact h

theorem outcome_context (hs : Sound api g s) (ho : Owner s i r k) (hm : s.made[k]? = some c)
    (hready : c.result.error.isError = false → c.responseReady = true ∧
      (s.receive.stream c.stream).bodyCompletedAt ≤ r.deadline) : Outcome api g s r c.result := by
  have hok := hs.contexts k c hm
  have hopened : r.opened = some (s.receive.stream c.stream).id := by
    obtain ⟨c', hm', hid⟩ := ho.linked
    rw [hm] at hm'
    cases hm'
    exact hid
  refine ⟨fun he => ?_, fun hd => absurd hd hok.sent, fun hd => ⟨_, hopened, hok.processed hd⟩⟩
  obtain ⟨hr, hle⟩ := hready he
  obtain ⟨h, hh⟩ := hok.ready hr
  exact ⟨k, c, h, ho.context, hm, hopened, rfl, hh, hh.completedAt ▸ hle⟩

theorem settles_giveResult (hs : Sound api g s) (ho : Owner s i r k) (started : Bool)
    (hready : ∀ c, s.made[k]? = some c → c.result.error.isError = false → c.responseReady = true ∧
      (s.receive.stream c.stream).bodyCompletedAt ≤ r.deadline) :
    Settles api g Returns i s (s.giveResult i r k started none) := by
  rw [giveResult]
  split
  · next c hm =>
    have hout := outcome_context hs ho hm (hready c hm)
    have hlt := (hs.contexts k c hm).made
    dsimp only
    split
    · have hfinish : Turn g s _ := turn_onStream s hlt .finishApplication
      have ho' := ho.turn hs hfinish
      refine (settles_finish (hs.turn hfinish) (ho'.opened (hs.turn hfinish)) ho'.only ho'.index
        ?_).behind hfinish.requests
      refine hout.steady hfinish.toSteady (ho.opened hs) fun k' c' hk' hm' => ?_
      exact ⟨(hs.contexts k' c' hm').made, fun _ => ⟨c', hm', rfl, rfl, rfl, rfl⟩⟩
    · exact settles_finish hs (ho.opened hs) ho.only ho.index hout
  · next hnone =>
    obtain ⟨c, hm, -⟩ := ho.linked
    rw [hnone] at hm
    cases hm

theorem made_cancel (s : ClientSession H) (k : Nat) (code : Http2Code) :
    (s.cancel k code).1.made = s.made := by
  rw [cancel]
  split
  · dsimp only
    split
    · split
      · rfl
      · rfl
    split
    · rfl
    · rfl
  · rfl

theorem made_retireUpload (s : ClientSession H) (k : Nat) : (s.retireUpload k).1.made = s.made := by
  rw [retireUpload]
  split
  · split
    · exact made_cancel s k .hNoError
    · rfl
  · rfl

theorem settles_retire (hs : Sound api g s) (ho : Owner s i r k)
    (hready : ∀ c, s.made[k]? = some c → c.result.error.isError = false → c.responseReady = true ∧
      (s.receive.stream c.stream).bodyCompletedAt ≤ r.deadline) :
    Settles api g Returns i s ((s.retireUpload k).1.giveResult i r k true (s.retireUpload k).2) := by
  obtain ⟨hretire, hnone⟩ := turn_retireUpload hs k
  rw [hnone]
  refine (settles_giveResult (hs.turn hretire) (ho.turn hs hretire) true fun c hm he => ?_).behind
    hretire.requests
  rw [made_retireUpload] at hm
  obtain ⟨hr, hle⟩ := hready c hm he
  have hok := hs.contexts k c hm
  obtain ⟨h, hh⟩ := hok.ready hr
  refine ⟨hr, ?_⟩
  rw [((hretire.ages.older _ hok.made).complete hh.complete).2]
  exact hle

theorem settles_conclude_ready (hs : Sound api g s) (ho : Owner s i r k)
    (hready : ∀ c, s.made[k]? = some c → c.responseReady = true ∧
      (s.receive.stream c.stream).bodyCompletedAt ≤ r.deadline) (error : NetworkError) :
    Settles api g Returns i s (s.conclude i r k true error) :=
  settles_retire hs ho fun c hm _ => hready c hm

theorem setError_isError (s : ClientSession H) (he : error.isError = true) :
    ∀ c, (s.setError k error).made[k]? = some c → c.result.error.isError = true := by
  intro c hm
  rw [setError] at hm
  split at hm
  · next c₀ hm₀ =>
    split at hm
    · next hc =>
      rw [hm₀] at hm
      cases hm
      exact hc
    · have hset : (s.made.set k { c₀ with result := { c₀.result with error := error } })[k]? = some c := hm
      rw [List.getElem?_set, if_pos rfl] at hset
      split at hset
      · cases hset
        exact he
      · cases hset
  · next hm₀ =>
    rw [hm₀] at hm
    cases hm

/-- `conclude` without a response: the request is cancelled, and its result is an error. -/
theorem settles_conclude_failed (hs : Sound api g s) (ho : Owner s i r k)
    (hr : ∀ c, s.made[k]? = some c → c.responseReady = false) (he : error.isError = true) :
    Settles api g Returns i s (s.conclude i r k false error) := by
  have herror : Turn g s _ := turn_setError s k error hr
  have hs₁ := hs.turn herror
  obtain ⟨hcancel, hnone⟩ := turn_cancel hs₁ k .hCancel
  rw [conclude]
  dsimp only
  rw [if_neg Bool.false_ne_true, hnone]
  refine (settles_retire (hs₁.turn hcancel) ((ho.turn hs herror).turn hs₁ hcancel) fun c hm hc => ?_).behind
    (hcancel.requests.trans herror.requests)
  rw [made_cancel] at hm
  rw [setError_isError s he c hm] at hc
  cases hc

theorem sound_late (hs : Sound api g s) (ho : Owner s i r k) (hm : s.made[k]? = some c)
    (error : NetworkError) :
    Sound api g (s.setContext k { c with
      responseReady := false, result := { c.result with error := error, body := [], trailers := [] } }) := by
  have hok := hs.contexts k c hm
  refine hs.setContext hm rfl ⟨hok.made, nofun, hok.sent, hok.processed, fun id hf => ?_⟩
    fun _ j r' result hj hk => ?_
  · have hcopied := hok.copied id hf
    exact ⟨hcopied.before, hcopied.behind, fun _ => rfl⟩
  · by_cases hji : j = i
    · obtain ⟨r₀, hr₀, hwaiting⟩ := ho.waiting
      cases hr₀.symm.trans (hji ▸ hj)
      exact hwaiting result
    · exact absurd hk (ho.alone j r' hj hji)

theorem settles_unready (hs : Sound api g s) (ho : Owner s i r k)
    (hr : ∀ c, s.made[k]? = some c → c.responseReady = false) (he : error.isError = true) :
    Settles api g Returns i s ((s.captureError k).conclude i r k false error) := by
  have hcapture : Turn g s _ := turn_captureError s k
  refine (settles_conclude_failed (hs.turn hcapture) (ho.turn hs hcapture) (fun c' hm' => ?_) he).behind
    hcapture.requests
  have hk := (List.getElem?_eq_some_iff.1 hm').1
  rw [hcapture.length] at hk
  have hm := List.getElem?_eq_getElem hk
  have hlt := (hs.contexts k _ hm).made
  have hn := hcapture.noted k _ c' hm hm' hlt (hs.streams _ hlt).1
  exact hn.ready.trans (hr _ hm)

theorem Owner.setContext {c' : Context H} (h : Owner s i r k) (hm : s.made[k]? = some c)
    (hstream : c'.stream = c.stream) : Owner (s.setContext k c') i r k := by
  obtain ⟨c₀, hm₀, hid⟩ := h.linked
  rw [hm] at hm₀
  cases hm₀
  refine ⟨h.context, ⟨c', ?_, ?_⟩, h.alone, h.waiting⟩
  · exact List.getElem?_set_self (List.getElem?_eq_some_iff.1 hm).1
  · rw [hstream]
    exact hid

theorem settles_received (hs : Sound api g s) (ho : Owner s i r k)
    (hin : error.isError = false → ∀ c, s.made[k]? = some c →
      (s.receive.stream c.stream).bodyCompletedAt ≤ r.deadline) :
    Settles api g Returns i s (s.received i r k error) := by
  rw [received]
  split
  · next c hm =>
    split
    · next hc =>
      obtain ⟨hr, he⟩ := Bool.and_eq_true_iff.1 hc
      rw [Bool.not_eq_true'] at he
      refine settles_conclude_ready hs ho (fun c' hm' => ?_) {}
      rw [hm] at hm'
      cases hm'
      exact ⟨hr, hin he c hm⟩
    · next hc =>
      have he : (if error.isError = true then error
          else (⟨.hHttp2StreamError, "HTTP/2 响应未完整结束", none⟩ : NetworkError)).isError = true := by
        split
        · assumption
        · rfl
      dsimp only
      split
      · next hr =>
        refine (settles_unready (sound_late hs ho hm error) (ho.setContext hm rfl) (fun c' hm' => ?_)
          he).behind rfl
        have hset : (s.made.set k { c with
          responseReady := false
          result := { c.result with error := error, body := [], trailers := [] } })[k]? = some c' := hm'
        rw [List.getElem?_set_self (List.getElem?_eq_some_iff.1 hm).1] at hset
        cases hset
        rfl
      · next hr =>
        refine settles_unready hs ho (fun c' hm' => ?_) he
        rw [hm] at hm'
        cases hm'
        exact Bool.eq_false_iff.2 hr
  · next hnone =>
    obtain ⟨c, hm, -⟩ := ho.linked
    rw [hnone] at hm
    cases hm

theorem wakeBody_inTime (x : OnStream) (deadline : Nat) (error : NetworkError) (hh : x.stream.Honest)
    (he : (x.wakeBody deadline error).2.isError = false) :
    (x.wakeBody deadline error).1.stream.bodyCompletedAt ≤ deadline := by
  rw [OnStream.wakeBody] at he ⊢
  split at he
  · next hc =>
    rw [if_pos hc]
    obtain ⟨h₁, h₂⟩ := bodyResult_inTime x deadline hh he
    rw [h₁]
    exact h₂
  · next hc =>
    rw [if_neg hc]
    obtain ⟨h₁, h₂⟩ := bodyResult_inTime _ deadline ((older_fail x _).honest hh) he
    rw [h₁]
    exact h₂

theorem waitBody_inTime (x : OnStream) (deadline : Nat) (hh : x.stream.Honest)
    (hw : (x.waitBody deadline).2 = some error) (he : error.isError = false) :
    (x.waitBody deadline).1.stream.bodyCompletedAt ≤ deadline := by
  rw [OnStream.waitBody] at hw ⊢
  split at hw
  · next hc =>
    rw [if_pos hc]
    cases hw
    obtain ⟨h₁, h₂⟩ := bodyResult_inTime x deadline hh he
    dsimp only
    rw [h₁]
    exact h₂
  · cases hw

theorem settles_wake (hs : Sound api g s) (ho : Owner s i r k) (error : NetworkError) :
    Settles api g Returns i s (s.wake i r k error) := by
  rw [wake]
  split
  · next c hm =>
    have hok := hs.contexts k c hm
    obtain ⟨-, -, -, hhonest⟩ := hs.streams c.stream hok.made
    have hwake : Turn g s _ := turn_onStream s hok.made (.wakeBody r.deadline error)
    refine (settles_received (hs.turn hwake) (ho.turn hs hwake) fun he c' hm' => ?_).behind hwake.requests
    cases hm.symm.trans hm'
    rw [stream_onStream]
    exact wakeBody_inTime _ r.deadline error hhonest he
  · next hnone =>
    obtain ⟨c, hm, -⟩ := ho.linked
    rw [hnone] at hm
    cases hm

theorem unsent_cancel (s : ClientSession H) (hm : s.made[k]? = some c)
    (hf : (s.receive.find (s.receive.stream c.stream).id).isSome = true)
    (hn : (s.cancel k code).2 = none) :
    (s.receive.stream c.stream).id ∉ (s.cancel k code).1.queued ∧
      (s.cancel k code).1.written = s.written := by
  rw [cancel, hm] at hn ⊢
  dsimp only at hn ⊢
  rw [if_pos hf] at hn ⊢
  cases hthrown : (s.cancelReceive (s.receive.stream c.stream).id code).2 with
  | some message =>
    rw [hthrown] at hn
    cases hn
  | none =>
    refine ⟨fun hq => ?_, rfl⟩
    have hq' : (s.receive.stream c.stream).id ∈
        s.queued.filter fun x => x != (s.receive.stream c.stream).id := hq
    rw [List.mem_filter, bne_self_eq_false] at hq'
    cases hq'.2

/-- What is returned without a context, or before a frame could be written. -/
theorem outcome_unsent (he : error.isError = true)
    (hsent : ∀ id, r.opened = some id → id ∉ s.queued ∧ id ∉ s.written) :
    Outcome api g s r (unsentResult error) :=
  ⟨fun hn => absurd (he.symm.trans hn) (Bool.false_ne_true ·.symm), fun _ => hsent, nofun⟩

theorem settles_await (hs : Sound api g s) (ho : Owner s i r k) (hm : s.made[k]? = some c)
    (hr : c.responseReady = false)
    (hf : (s.receive.find (s.receive.stream c.stream).id).isSome = true)
    (hw : (s.receive.stream c.stream).id ∉ s.written) (a : Submission) :
    Settles api g Goes i s (s.await i r k a) := by
  have hok := hs.contexts k c hm
  rw [await, hm]
  dsimp only
  split
  · obtain ⟨hcancel, hnone⟩ := turn_cancel hs k .hCancel
    obtain ⟨hqueued, hwritten⟩ := unsent_cancel s hm hf hnone
    have ho' := ho.turn hs hcancel
    have hs' := hs.turn hcancel
    rw [hnone]
    refine ((settles_finish hs' (ho'.opened hs') ho'.only ho'.index
      (outcome_unsent rfl fun id hid => ?_)).behind hcancel.requests).goes
    obtain ⟨c', hm', hid'⟩ := ho.linked
    rw [hm] at hm'
    cases hm'
    rw [hid] at hid'
    rw [Option.some.inj hid', hwritten]
    exact ⟨hqueued, hw⟩
  have hstart : Turn g s _ := turn_onStream s hok.made .startApplication
  have hs₁ := hs.turn hstart
  have ho₁ := ho.turn hs hstart
  split
  · have hnote : Turn g (s.onStream c.stream .startApplication)
        ((s.onStream c.stream .startApplication).setContext k { c with result := { c.result with
          error := ⟨.hOperationAborted, "HTTP/2 客户端流已结束", none⟩ } }) :=
      .note hm fun _ => noted_error _ c hr _
    have hs₂ := hs₁.turn hnote
    obtain ⟨hcancel, hnone⟩ := turn_cancel hs₂ k .hCancel
    rw [hnone]
    refine ((settles_giveResult (hs₂.turn hcancel) ((ho₁.turn hs₁ hnote).turn hs₂ hcancel) false
      fun c' hm' he => ?_).behind (hcancel.requests.trans hstart.requests)).goes
    rw [made_cancel] at hm'
    have hset : (s.made.set k { c with result := { c.result with
      error := ⟨.hOperationAborted, "HTTP/2 客户端流已结束", none⟩ } })[k]? = some c' := hm'
    rw [List.getElem?_set_self (List.getElem?_eq_some_iff.1 hm).1] at hset
    cases hset
    cases he
  split
  · rw [hr]
    refine ((settles_conclude_failed hs₁ ho₁ (fun c' hm' => ?_) rfl).behind hstart.requests).goes
    cases hm.symm.trans hm'
    exact hr
  have hok₁ := hs₁.contexts k c hm
  obtain ⟨-, -, -, hhonest⟩ := hs₁.streams c.stream hok₁.made
  have hwait : Turn g _ _ := turn_onStream (s.onStream c.stream .startApplication) hok₁.made (.waitBody r.deadline)
  have hs₂ := hs₁.turn hwait
  have ho₂ := ho₁.turn hs₁ hwait
  split
  · next error herror =>
    refine ((settles_received hs₂ ho₂ fun he c' hm' => ?_).behind
      (hwait.requests.trans hstart.requests)).goes
    cases hm.symm.trans hm'
    rw [stream_onStream]
    exact waitBody_inTime _ r.deadline hhonest herror he
  · refine ⟨hs₂.setRequest ⟨ho₂.opened hs₂, fun k' hk' => (ho₂.only k' hk').linked, nofun, fun k' hk' => ?_,
      fun _ hp => (nomatch hp), nofun⟩ fun k' hk' => (ho₂.only k' hk').alone, fun j hj => List.getElem?_set_ne hj.symm,
      ⟨_, List.getElem?_set_self ho.index, trivial⟩⟩
    cases hk'
    exact ho₂.context

theorem settles_proceed (hs : Sound api g s) (hr : s.requests[i]? = some r) (hp : r.progress = .admission)
    (a : Submission) : Settles api g Goes i s (s.proceed i r a) := by
  obtain ⟨hcontext, hopened⟩ := (hs.requests i r hr).admission hp
  have hi := (List.getElem?_eq_some_iff.1 hr).1
  have hunsent : ∀ error : NetworkError, error.isError = true →
      Settles api g Goes i s (s.finish i r none (unsentResult error)) := by
    intro error he
    refine (settles_finish hs (fun id hid => ?_) (fun k hk => ?_) hi (outcome_unsent he fun id hid => ?_)).goes
    · rw [hopened] at hid
      cases hid
    · rw [hcontext] at hk
      cases hk
    · rw [hopened] at hid
      cases hid
  rw [proceed]
  split
  · exact hunsent _ rfl
  split
  · next he => exact hunsent _ he
  obtain ⟨hs', hrequests, hok, hfresh⟩ := sound_submit hs r a
  dsimp only
  generalize s.submit r a = submitted at hs' hrequests hok hfresh ⊢
  have hi' : i < submitted.1.requests.length := by
    rw [hrequests]
    exact hi
  split
  · next error hm =>
    rw [hm] at hok
    obtain ⟨he, hsent⟩ := hok
    refine ((settles_finish hs' (fun id hid => (hsent id hid).1) (fun k hk => ?_) hi'
      (outcome_unsent he fun id hid => (hsent id hid).2)).behind hrequests).goes
    have hk' : r.context = some k := hk
    rw [hcontext] at hk'
    cases hk'
  · next message hm =>
    rw [hm] at hok
    exact hok.elim
  · next k hm =>
    rw [hm] at hok
    obtain ⟨c, hmade, ho, hready, hfind, hw⟩ := hok
    refine (settles_await hs' ⟨rfl, ⟨c, hmade, ho⟩, fun j r' hj _ hk => ?_, ⟨r, hrequests ▸ hr, ?_⟩⟩ hmade
      hready hfind hw a).behind hrequests
    · rw [hrequests] at hj
      obtain ⟨c', hm', -⟩ := (hs.requests j r' hj).context k hk
      exact absurd (List.getElem?_eq_some_iff.1 hm').1 (Nat.not_lt.2 (hfresh k hm))
    · intro result hres
      rw [hp] at hres
      cases hres

end ClientSession

end Hical.Http2
