import Hical.Http2.Outcome

namespace Hical.Http2
open Hical.Client

namespace ClientSession
variable {H : Type} {g : Ground H} {api : ResponseApi H} {s s' : ClientSession H} {c c' : Context H}

theorem noted_same {p : Prop} {l : List (Context H)} {k : Nat} (hm : l[k]? = some c)
    (hm' : l[k]? = some c') : Noted p c c' := by
  rw [hm] at hm'
  cases hm'
  exact .refl p c

theorem Turn.withReceive (s : ClientSession H) {r : Receive H} (ha : Ages .nothing s.receive r)
    (hi : Inv s.receive → Inv r) : Turn g s { s with receive := r } where
  ages := ha
  initial := fun _ _ => rfl
  trailers := fun _ _ _ _ => rfl
  next := Int.le_refl _
  refused := fun _ h => h
  goaways := fun _ h => h
  queued := fun _ h => .inl h
  written := fun _ h => .inl h
  options := rfl
  requests := rfl
  number := rfl
  inv := hi
  copies := rfl
  sent := fun _ h => h
  failed := fun hf he => ha.dead (hf he)
  last := fun h => h
  kept := fun _ _ h => h
  listed := fun h => h
  length := rfl
  noted := fun _ _ _ hm hm' _ _ => noted_same hm hm'

theorem Turn.refl (s : ClientSession H) : Turn g s s := Turn.withReceive s (.refl _) fun h => h

theorem Turn.forget (s : ClientSession H) (contexts : List (Int × Nat)) (queued : List Int)
    (hk : ∀ id k, contexts.lookup id = some k → s.find id = some k)
    (hl : (∀ x ∈ s.contexts, s.find x.1 = some x.2) →
      ∀ x ∈ contexts, contexts.lookup x.1 = some x.2) (hq : queued ⊆ s.queued) :
    Turn g s { s with contexts := contexts, queued := queued } :=
  { Turn.refl (g := g) s with
    queued := fun _ hid => .inl (hq hid)
    sent := fun _ hid => hid.imp (fun h => hq h) fun h => h
    kept := hk
    listed := hl
    noted := fun _ _ _ hm hm' _ _ => noted_same hm hm' }

theorem find_erase (s : ClientSession H) (id id' : Int) :
    (s.erase id).find id' = if id' = id then none else s.find id' :=
  lookup_filter s.contexts id id'

theorem turn_erase (s : ClientSession H) (id : Int) : Turn g s (s.erase id) := by
  refine Turn.forget s _ s.queued (fun id' k hf => ?_) (fun hl x hx => ?_) fun _ h => h
  · have hf' : (s.erase id).find id' = some k := hf
    rw [find_erase] at hf'
    split at hf'
    · cases hf'
    · exact hf'
  · obtain ⟨hx, hne⟩ := List.mem_filter.1 hx
    have hf' : (s.erase id).find x.1 = some x.2 := by
      rw [find_erase, if_neg (bne_iff_ne.1 hne)]
      exact hl x hx
    exact hf'

theorem turn_unqueue (s : ClientSession H) (id : Int) : Turn g s (s.unqueue id) :=
  Turn.forget s s.contexts _ (fun _ _ h => h) (fun h => h) fun _ h => List.mem_of_mem_filter h

theorem Turn.note {k : Nat} (hm : s.made[k]? = some c)
    (hn : c.stream < s.receive.made → Noted (g.holds s (s.receive.stream c.stream).id) c c') :
    Turn g s (s.setContext k c') :=
  { Turn.refl (g := g) s with
    length := List.length_set
    noted := fun j d d' hj hj' hd hid => by
      have hset : (s.made.set k c')[j]? = some d' := hj'
      rw [List.getElem?_set] at hset
      split at hset
      · next hk =>
        subst hk
        split at hset
        · cases hset
          rw [hm] at hj
          cases hj
          exact (hn hd).trans (g.stays { Steady.refl s with } hid) (.refl _ c')
        · cases hset
      · rw [hj] at hset
        cases hset
        exact .refl _ _ }

theorem noted_error (p : Prop) (c : Context H) (hr : c.responseReady = false)
    (error : NetworkError) : Noted p c { c with result := { c.result with error := error } } :=
  ⟨rfl, rfl, rfl, fun h => absurd (hr.symm.trans h) Bool.false_ne_true, rfl, rfl, rfl, .inl rfl⟩

theorem turn_captureError (s : ClientSession H) (k : Nat) : Turn g s (s.captureError k) := by
  rw [captureError]
  split
  · next c hm =>
    dsimp only
    split
    · next hc =>
      obtain ⟨hc, -⟩ := Bool.and_eq_true_iff.1 hc
      obtain ⟨hr, -⟩ := Bool.and_eq_true_iff.1 hc
      rw [Bool.not_eq_true'] at hr
      exact .note hm fun _ => noted_error _ c hr _
    · exact .refl s
  · exact .refl s

theorem turn_capture (s : ClientSession H) (id : Int) : Turn g s (s.capture id) := by
  rw [capture]
  split
  · exact turn_captureError s _
  · exact .refl s

theorem turn_onStream (s : ClientSession H) (hi : i < s.receive.made) (op : AppOp) :
    Turn g s (s.onStream i op) := by
  refine Turn.withReceive s (.settle (older_apply (s.receive.on i) op)) fun h => ?_
  obtain ⟨hq, hs⟩ := quiet_apply (s.receive.on i) op
  exact h.silent (silent_settle h hi hq hs)

theorem turn_codec (s : ClientSession H) (codec : Codec)
    (h : codec.terminalError = s.receive.codec.terminalError) :
    Turn g s { s with receive := { s.receive with codec := codec } } :=
  Turn.withReceive s (.withCodec _ _ h) fun hi => hi.silent (.frame rfl rfl rfl rfl rfl hi.dead)

theorem turn_resetCodec (s : ClientSession H) (id : Int) : Turn g s (s.resetCodec id) :=
  (turn_codec s _ (terminal_reset _ _ _)).trans (turn_unqueue _ id)

theorem turn_cancelReceive (s : ClientSession H) (id : Int) (code : Http2Code) :
    Turn g s (s.cancelReceive id code).1 :=
  (Turn.withReceive s (ages_cancel s.receive id code 0) fun h => h.silent (silent_cancel h id code 0)).trans
    (turn_unqueue _ id)

theorem cancelReceive_none (hb : Based s) (id : Int) (code : Http2Code) :
    (s.cancelReceive id code).2 = none := by
  rw [cancelReceive, Receive.cancel]
  dsimp only
  cases hf : s.receive.find id with
  | none => rfl
  | some e =>
    have hlive : s.receive.codec.terminalError.isError = false := by
      refine Bool.eq_false_iff.2 fun ht => ?_
      rw [Receive.find, hb.terminal ht] at hf
      cases hf
    dsimp only
    rw [Receive.checkOperation, show ((s.receive.erase id).settle e.stream
      (((s.receive.erase id).on e.stream).reset code)).codec = s.receive.codec from rfl, Codec.reset, hlive,
      if_neg Bool.false_ne_true, Codec.reject, if_pos rfl]
    rfl

theorem turn_cancel (hs : Sound api g s) (k : Nat) (code : Http2Code) :
    Turn g s (s.cancel k code).1 ∧ (s.cancel k code).2 = none := by
  rw [cancel]
  split
  · next c hm =>
    dsimp only
    split
    · rw [cancelReceive_none hs.toBased]
      exact ⟨(turn_cancelReceive s _ code).trans (turn_erase _ _), rfl⟩
    split
    · exact ⟨((turn_onStream s (hs.contexts k c hm).made _).trans (turn_resetCodec _ _)).trans
        (turn_erase _ _), rfl⟩
    · exact ⟨turn_erase s _, rfl⟩
  · exact ⟨.refl s, rfl⟩

theorem turn_retireUpload (hs : Sound api g s) (k : Nat) :
    Turn g s (s.retireUpload k).1 ∧ (s.retireUpload k).2 = none := by
  rw [retireUpload]
  split
  · split
    · exact turn_cancel hs k .hNoError
    · exact ⟨.refl s, rfl⟩
  · exact ⟨.refl s, rfl⟩

theorem turn_withdraw (hb : Based s) (id : Int) :
    Turn g s (s.withdraw id).1 ∧ (s.withdraw id).2 = none := by
  rw [withdraw]
  split
  · exact ⟨turn_cancelReceive s id .hCancel, cancelReceive_none hb id .hCancel⟩
  · exact ⟨turn_resetCodec s id, rfl⟩

theorem dead_fail (r : Receive H) (error : NetworkError) :
    (r.fail error).connectionError.isError = true := by
  rw [Receive.fail]
  split
  · assumption
  · dsimp only
    rw [(failStreams _ _ _).1.2.2.2.1]
    dsimp only
    split
    · assumption
    · rfl

theorem turn_captures (s : ClientSession H) (l : List (Int × Nat)) :
    Turn g s (l.foldl (fun s x => s.captureError x.2) s) := by
  induction l generalizing s with
  | nil => exact .refl s
  | cons x l ih => exact (turn_captureError s x.2).trans (ih _)

theorem turn_clear (s : ClientSession H) :
    Turn g s { s.contexts.foldl (fun s x => s.captureError x.2) s with contexts := [] } := by
  refine (turn_captures s _).trans (Turn.forget _ [] _ (fun _ _ h => ?_) (fun _ x hx => ?_) fun _ h => h)
  · cases h
  · cases hx

theorem turn_receiveFail (s : ClientSession H) (error : NetworkError) :
    Turn g s { s with error := error, receive := s.receive.fail error } :=
  { Turn.withReceive (g := g) s (.fail s.receive error) fun h => h.silent (silent_fail h error) with
    failed := fun _ _ => dead_fail s.receive error
    noted := fun _ _ _ hm hm' _ _ => noted_same hm hm' }

theorem turn_fail (s : ClientSession H) (error : NetworkError) : Turn g s (s.fail error) := by
  rw [fail]
  split
  · exact .refl s
  · exact (turn_receiveFail s _).trans (turn_clear _)

theorem turn_setError (s : ClientSession H) (k : Nat) (error : NetworkError)
    (hr : ∀ c, s.made[k]? = some c → c.responseReady = false) : Turn g s (s.setError k error) := by
  rw [setError]
  split
  · next c hm =>
    split
    · exact .refl s
    · exact .note hm fun _ => noted_error _ c (hr c hm) _
  · exact .refl s

section Handlers

theorem turn_onBeginHeaders (hb : Based s) (id : Int) : Turn g s (s.onBeginHeaders api id) := by
  have hbegin : Turn g s { s with receive := (s.receive.onBeginHeaders api.toHeadersApi id).1 } :=
    Turn.withReceive s (ages_onBeginHeaders _ hb.role id) fun h => inv_onBeginHeaders _ h id
  rw [onBeginHeaders]
  split
  · exact hbegin.trans (turn_capture _ id)
  · exact hbegin

theorem turn_onHeader (s : ClientSession H) (id : Int) (name value : Bytes) :
    Turn g s (s.onHeader api id name value) :=
  (Turn.withReceive s (ages_onHeader _ s.receive id name value)
    fun h => inv_onHeader _ h id name value).trans (turn_capture _ id)

theorem turn_onData (s : ClientSession H) (maxSize : Nat) (id : Int) (bytes : Bytes) (allocates : Bool)
    (result : Int) : Turn g s (s.onData maxSize id bytes allocates result) := by
  have hdata : Turn g s { s with receive := (s.receive.onData maxSize id bytes allocates result).1 } :=
    Turn.withReceive s (ages_onData maxSize s.receive id bytes allocates result)
      fun h => inv_onData maxSize h id bytes allocates result
  rw [onData]
  split
  · exact hdata.trans (turn_capture _ id)
  · exact hdata

theorem turn_receiveError (s : ClientSession H) (error : NetworkError) :
    Turn g s { s with receive := s.receive.onError error } :=
  Turn.withReceive s (ages_onError s.receive error) fun h => inv_onError h error

theorem Turn.remember (s : ClientSession H) (refused goaways : List Int) (last : Int)
    (hr : s.refused ⊆ refused) (hg : s.goaways ⊆ goaways)
    (hl : s.lastStreamId = 2147483647 ∨ s.lastStreamId ∈ s.goaways →
      last = 2147483647 ∨ last ∈ goaways) :
    Turn g s { s with refused := refused, goaways := goaways, lastStreamId := last } :=
  { Turn.refl (g := g) s with
    refused := hr
    goaways := hg
    last := hl
    noted := fun _ _ _ hm hm' _ _ => noted_same hm hm' }

theorem noted_refused {p : Prop} (hp : p) (c : Context H) (hr : c.responseReady = false)
    (error : NetworkError) : Noted p c
      { c with result := { c.result with requestDisposition := .hNotProcessed, error := error } } :=
  ⟨rfl, rfl, rfl, fun h => absurd (hr.symm.trans h) Bool.false_ne_true, rfl, rfl, rfl, .inr ⟨rfl, hp⟩⟩

theorem turn_onError (hs : Sound api g s) (error : NetworkError)
    (hg : ∀ info, error.http2 = some info → 0 < info.streamId → info.code = .hRefusedStream →
      s.Awaits info.streamId → g.holds s info.streamId) : Turn g s (s.onError error) := by
  rw [onError]
  split
  · next info hinfo =>
    split
    · next hpos =>
      refine Turn.trans ?_ (turn_receiveError _ error)
      cases hf : s.find info.streamId with
      | none => exact .refl s
      | some k =>
        dsimp only
        cases hm : s.made[k]? with
        | none => exact .refl s
        | some c =>
          dsimp only
          split
          · exact .refl s
          next hready =>
          have hr := Bool.eq_false_iff.2 hready
          refine .note hm fun _ => ?_
          by_cases hcode : info.code = .hRefusedStream
          · obtain ⟨c', hm', hid⟩ := hs.linked _ k hf
            rw [hm] at hm'
            cases hm'
            have hholds := hg info hinfo hpos hcode ⟨k, c, hf, hm, hr⟩
            rw [← hid] at hholds
            rw [if_pos hcode]
            split
            · exact noted_refused hholds c hr c.result.error
            · exact noted_refused hholds c hr error
          · rw [if_neg hcode]
            split
            · exact .refl _ _
            · exact noted_error _ c hr error
    · exact turn_fail s error
  · exact turn_fail s error

theorem turn_onStreamClose (s : ClientSession H) (id : Int) (code : Http2Code) :
    Turn g s (s.onStreamClose id code) := by
  have hclose : ∀ s : ClientSession H, Turn g s
      (({ s with receive := s.receive.onStreamClose id code }.capture id).erase id) := fun s =>
    ((Turn.withReceive s (ages_onStreamClose s.receive id code) fun h => inv_onStreamClose h id code).trans
      (turn_capture _ id)).trans (turn_erase _ id)
  rw [onStreamClose]
  dsimp only
  refine Turn.trans ?_ (hclose _)
  split
  · next k hf =>
    split
    · next c hm =>
      split
      · next hc =>
        obtain ⟨-, hr⟩ := Bool.and_eq_true_iff.1 hc
        rw [Bool.not_eq_true'] at hr
        refine Turn.trans ?_ (turn_receiveError _ _)
        split
        · exact .refl s
        · exact .note hm fun _ => noted_error _ c hr _
      · exact .refl s
    · exact .refl s
  · exact .refl s

theorem turn_notifyError (hs : Sound api g s) (id : Int) (code : Http2Code)
    (hg : 0 < id → code = .hRefusedStream → s.Awaits id → g.holds s id) :
    Turn g s (s.notifyError id code) := by
  rw [notifyError]
  split
  · exact .refl s
  · refine turn_onError hs _ fun info hinfo => ?_
    cases hinfo
    exact hg

theorem turn_streamClose (hs : Sound api g s) (id : Int) (code : Http2Code)
    (hg : code = .hRefusedStream → s.Awaits id → g.holds (s.unqueue id) id) :
    Turn g s (s.streamClose id code) := by
  have hunqueue : Turn g s (s.unqueue id) := turn_unqueue s id
  have hnotify := turn_notifyError (hs.turn hunqueue) id code fun _ hcode hawaits => hg hcode hawaits
  exact (hunqueue.trans hnotify).trans (turn_onStreamClose _ id code)

theorem turn_onReset (s : ClientSession H) (id : Int) (code : Http2Code) :
    Turn g s (s.onReset id code) := by
  have hmark : Turn g s (if code = .hRefusedStream then { s with refused := id :: s.refused } else s) := by
    split
    · exact Turn.remember s _ s.goaways s.lastStreamId (fun _ h => List.mem_cons_of_mem _ h) (fun _ h => h)
        fun h => h
    · exact .refl s
  rw [onReset]
  generalize (if code = .hRefusedStream then { s with refused := id :: s.refused } else s) = s₁ at hmark ⊢
  refine hmark.trans ?_
  cases hf : s₁.find id with
  | none => exact .refl s₁
  | some k =>
    dsimp only
    cases hm : s₁.made[k]? with
    | none => exact .refl s₁
    | some c => exact .note hm fun _ => ⟨rfl, rfl, rfl, fun _ => rfl, rfl, rfl, rfl, .inl rfl⟩

theorem contexts_refuseContext (error : NetworkError) (s : ClientSession H) (x : Int × Nat) :
    (refuseContext error s x).contexts = s.contexts := by
  rw [refuseContext]
  split
  · split
    · rfl
    · rfl
  · rfl

theorem turn_refuseContext (hs : Sound api g s) (error : NetworkError) (x : Int × Nat)
    (hx : s.find x.1 = some x.2) : Turn g s (refuseContext error s x) := by
  rw [refuseContext]
  split
  · next c hm =>
    split
    · next hc =>
      obtain ⟨hgt, hr⟩ := Bool.and_eq_true_iff.1 hc
      rw [Bool.not_eq_true'] at hr
      have hgt' : s.lastStreamId < x.1 := of_decide_eq_true hgt
      obtain ⟨c', hm', hid⟩ := hs.linked _ _ hx
      rw [hm] at hm'
      cases hm'
      have hlt := (hs.contexts x.2 c hm).made
      have hrefused : s.Refused (s.receive.stream c.stream).id := by
        rw [hid]
        rcases hs.last with hl | hl
        · have hle := (hs.streams c.stream hlt).2.1
          rw [hid] at hle
          omega
        · exact .inr ⟨_, hl, hgt'⟩
      have hnote : Turn g s (s.setContext x.2 { c with result := { c.result with
          requestDisposition := .hNotProcessed, error := error } }) :=
        .note hm fun _ => noted_refused (g.refused hrefused) c hr error
      exact hnote.trans (turn_onStream (s.setContext x.2 _) hlt _)
    · exact .refl s
  · exact .refl s

theorem turn_refuseContexts (hs : Sound api g s) (error : NetworkError) (l : List (Int × Nat))
    (hl : ∀ x ∈ l, s.find x.1 = some x.2) : Turn g s (l.foldl (refuseContext error) s) := by
  induction l generalizing s with
  | nil => exact .refl s
  | cons x l ih =>
    have hx := turn_refuseContext hs error x (hl x List.mem_cons_self)
    refine hx.trans (ih (hs.turn hx) fun y hy => ?_)
    rw [find, contexts_refuseContext]
    exact hl y (List.mem_cons_of_mem _ hy)

theorem turn_cancelAll (hs : Sound api g s) (l : List Nat) :
    Turn g s (cancelAll l s).1 ∧ (cancelAll l s).2 = none := by
  induction l generalizing s with
  | nil => exact ⟨.refl s, rfl⟩
  | cons k l ih =>
    obtain ⟨hc, hn⟩ := turn_cancel hs k .hCancel
    obtain ⟨h₁, h₂⟩ := ih (hs.turn hc)
    rw [cancelAll, hn]
    exact ⟨hc.trans h₁, h₂⟩

theorem turn_onGoaway (hs : Sound api g s) (last : Int) (code : Http2Code) :
    Turn g s (s.onGoaway last code).1 ∧ (s.onGoaway last code).2 = none := by
  have hmark : Turn g s { s with
      lastStreamId := min s.lastStreamId last, goaways := last :: s.goaways } := by
    refine Turn.remember s s.refused _ _ (fun _ h => h) (fun _ h => List.mem_cons_of_mem _ h) fun hl => ?_
    rcases Int.le_total s.lastStreamId last with hle | hle
    · rw [Int.min_eq_left hle]
      exact hl.imp (fun h => h) fun h => List.mem_cons_of_mem _ h
    · rw [Int.min_eq_right hle]
      exact .inr List.mem_cons_self
  have hrefuse := turn_refuseContexts (hs.turn hmark)
    ⟨.hHttp2ConnectionError, "HTTP/2 对端已发送 GOAWAY", some ⟨code, 0⟩⟩ s.contexts
    fun x hx => hs.listed x hx
  obtain ⟨hcancel, hnone⟩ := turn_cancelAll ((hs.turn hmark).turn hrefuse)
    (refusedContexts { s with
      lastStreamId := min s.lastStreamId last, goaways := last :: s.goaways })
  exact ⟨(hmark.trans hrefuse).trans hcancel, hnone⟩

theorem turn_goaway (hs : Sound api g s) (last : Int) (code : Http2Code) :
    Turn g s (s.goaway last code) := by
  obtain ⟨hgoaway, hnone⟩ := turn_onGoaway hs last code
  rw [goaway, hnone]
  exact hgoaway.trans (turn_notifyError (hs.turn hgoaway) 0 code fun hpos => absurd hpos (Int.lt_irrefl 0))

theorem turn_stop (s : ClientSession H) (codec : Codec) (queued : List Int)
    (hempty : s.receive.streams = []) (hq : queued ⊆ s.queued) :
    Turn g s { s with receive := { s.receive with codec := codec }, queued := queued } := by
  have hcodec : Turn g s { s with receive := { s.receive with codec := codec } } :=
    Turn.withReceive s (.of_frame rfl rfl rfl (fun _ _ h => h) (fun h => h) fun _ _ => hempty)
      fun h => h.silent (.frame rfl rfl rfl rfl rfl h.dead)
  exact hcodec.trans (Turn.forget _ _ queued (fun _ _ h => h) (fun h => h) hq)

theorem failStreams_codec (error : NetworkError) (l : List (Int × Entry H)) (r : Receive H)
    (codec : Codec) : l.foldl (fun r e => r.failStream e.2.stream error) { r with codec := codec } =
      { l.foldl (fun r e => r.failStream e.2.stream error) r with codec := codec } := by
  induction l generalizing r with
  | nil => rfl
  | cons x l ih => exact ih (r.failStream x.2.stream error)

theorem fail_codec (r : Receive H) (error : NetworkError) (codec : Codec) :
    Receive.fail { r with codec := codec } error = { r.fail error with codec := codec } := by
  rw [Receive.fail, Receive.fail]
  dsimp only
  split
  · rfl
  · exact failStreams_codec _ _ { r with connectionError := _, streams := [] } codec

theorem turn_close (hb : Based s) (error : NetworkError) : Turn g s (s.close error) := by
  rw [close]
  dsimp only
  generalize ({ s.receive.codec with terminalError := _ } : Codec) = codec
  cases he : s.error.isError with
  | true =>
    rw [fail]
    dsimp only
    rw [he, if_pos rfl]
    exact turn_stop s codec [] (hb.inv.dead (hb.failed he)) (List.nil_subset _)
  | false =>
    rw [fail]
    dsimp only
    rw [he, if_neg Bool.false_ne_true]
    generalize (if error.isError = true then error
      else (⟨.hOperationAborted, "HTTP/2 客户端连接已停止", none⟩ : NetworkError)) = e
    have hfail : Turn g s _ := turn_receiveFail s e
    have hstop : Turn g _ _ := turn_stop { s with error := e, receive := s.receive.fail e } codec []
      ((hfail.inv hb.inv).dead (dead_fail s.receive e)) (List.nil_subset _)
    rw [fail_codec]
    exact (hfail.trans hstop).trans (turn_clear _)

theorem turn_quiet (s : ClientSession H) : Turn g s s.quiet := by
  rw [quiet]
  split
  · next hempty => exact turn_stop s _ [] (List.isEmpty_iff.1 hempty) (List.nil_subset _)
  · exact .refl s

theorem turn_write (s : ClientSession H) (id : Int) (hq : id ∈ s.queued) :
    Turn g s { s with written := id :: s.written } :=
  { Turn.refl (g := g) s with
    written := fun id' hid => by
      rcases List.mem_cons.1 hid with rfl | hid
      · exact .inr (.inl hq)
      · exact .inl hid
    sent := fun id' hid => by
      rcases hid with hid | hid
      · exact .inl hid
      · rcases List.mem_cons.1 hid with rfl | hid
        · exact .inl hq
        · exact .inr hid
    noted := fun _ _ _ hm hm' _ _ => noted_same hm hm' }

theorem turn_outside (s : ClientSession H) (shared : Budgets) (now : Nat) :
    Turn g s { s with receive := { s.receive with shared := shared, now := now } } :=
  Turn.withReceive s (.of_frame rfl rfl rfl (fun _ _ h => h) (fun h => h) fun h => h)
    fun h => h.silent (.frame rfl rfl rfl rfl rfl h.dead)

end Handlers

end ClientSession

end Hical.Http2
