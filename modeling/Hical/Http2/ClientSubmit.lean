import Hical.Http2.ClientResponses

namespace Hical.Http2
open Hical.Client

/-- A stream that was just made for a response. -/
theorem honest_create {b b' : Budgets} {budget : Http2Budget}
    (h : Http2Stream.create b budget config = .ok (b', some s)) :
    s.incomingKind = config.incomingKind ∧ s.Honest := by
  have hnew := (new_create h).1
  rw [Http2Stream.create] at h
  split at h
  · cases h
  split at h
  · cases h
  have hx := Except.ok.inj h
  rw [Http2Stream.reserve] at hx
  obtain ⟨-, -, rfl⟩ := reserved_some hx
  refine ⟨rfl, fun h => (by cases h), fun hp => ?_⟩
  rw [Http2Stream.passed, hnew.complete] at hp
  cases hp

section Streams
variable {H : Type} {r : Receive H}

theorem ages_addClientStream (r : Receive H) (x : Http2Stream)
    (hlive : r.codec.terminalError.isError = false) (headResponse : Bool) :
    Ages .stream r ((r.add x).addClientStream r.made headResponse).1 := by
  have hadd : Ages .stream r (r.add x) := by
    refine ⟨rfl, rfl, fun i hi => ?_, fun i hi => ?_, fun id e hf _ hp => .inl ⟨e, hf, rfl, hp⟩,
      fun h => h, fun _ ht => absurd (hlive.symm.trans ht) Bool.false_ne_true⟩
    · have hobj : (r.add x).objects i = r.objects i := Function.update_of_ne (Nat.ne_of_lt hi) _ _
      rw [Receive.stream, hobj]
      exact .refl _
    · have hobj : (r.add x).objects i = r.objects i := Function.update_of_ne (Nat.ne_of_lt hi) _ _
      rw [hobj]
      exact ⟨List.prefix_rfl, rfl⟩
  rw [Receive.addClientStream]
  split
  · exact hadd
  dsimp only
  split
  · exact hadd
  · refine ⟨rfl, rfl, fun i hi => ?_, fun i hi => ?_, fun id e hf _ hp => ?_, fun h => h,
      fun _ ht => absurd (hlive.symm.trans ht) Bool.false_ne_true⟩
    · have hne : i ≠ r.made := Nat.ne_of_lt hi
      rw [Receive.stream, Receive.put]
      dsimp only
      rw [Function.update_of_ne hne]
      exact hadd.older i hi
    · have hne : i ≠ r.made := Nat.ne_of_lt hi
      rw [Receive.put]
      dsimp only
      rw [Function.update_of_ne hne]
      exact hadd.heard i hi
    · rw [find_put] at hf
      split at hf
      · cases hf
        cases hp
      · exact .inl ⟨e, hf, rfl, hp⟩

theorem stream_addClientStream (r : Receive H) (x : Http2Stream) (headResponse : Bool) :
    ((r.add x).addClientStream r.made headResponse).1.stream r.made = x ∧
      (((r.add x).addClientStream r.made headResponse).2.isError = false →
        (((r.add x).addClientStream r.made headResponse).1.find x.id).isSome = true) := by
  have hstream : (r.add x).stream r.made = x :=
    congrArg Object.stream (Function.update_self r.made _ r.objects)
  rw [Receive.addClientStream]
  split
  · next hdead => exact ⟨hstream, fun hn => absurd (hdead.symm.trans hn) (Bool.false_ne_true ·.symm)⟩
  dsimp only
  split
  · exact ⟨hstream, fun h => by cases h⟩
  · refine ⟨?_, fun _ => ?_⟩
    · rw [Receive.stream, Receive.put]
      dsimp only
      rw [Function.update_self]
      exact hstream
    · rw [find_put, hstream, if_pos rfl]
      rfl

end Streams

namespace ClientSession
variable {H : Type} {g : Ground H} {api : ResponseApi H} {s s' : ClientSession H} {id : Int}
  {error : NetworkError}

theorem sound_number (hs : Sound api g s) :
    Sound api g { s with nextStreamId := s.nextStreamId + 2, queued := s.nextStreamId :: s.queued } := by
  have hst : Steady .nothing s
      { s with nextStreamId := s.nextStreamId + 2, queued := s.nextStreamId :: s.queued } :=
    { Steady.refl s with
      next := Int.le_add_of_nonneg_right (by decide)
      queued := fun id hid => by
        rcases List.mem_cons.1 hid with rfl | hid
        · exact .inr (Int.le_refl _)
        · exact .inl hid }
  have hb : Based { s with nextStreamId := s.nextStreamId + 2, queued := s.nextStreamId :: s.queued } :=
    { hs.toBased with
      next := Int.lt_trans hs.next (Int.lt_add_of_pos_right _ (by decide))
      streams := fun i hi => ⟨Int.lt_trans (hs.streams i hi).1 (Int.lt_add_of_pos_right _ (by decide)),
        (hs.streams i hi).2⟩
      queued := fun id hid => by
        have hid' : id = s.nextStreamId ∨ (id ∈ s.queued ∨ id ∈ s.written) := by
          rcases hid with hid | hid
          · rcases List.mem_cons.1 hid with rfl | hid
            · exact .inl rfl
            · exact .inr (.inl hid)
          · exact .inr (.inr hid)
        rcases hid' with rfl | hid'
        · exact Int.lt_add_of_pos_right _ (by decide)
        · exact Int.lt_trans (hs.queued id hid') (Int.lt_add_of_pos_right _ (by decide)) }
  refine hs.change hst hb rfl (fun _ _ h => h) hs.listed rfl fun k c c' hm hm' => ?_
  cases hm.symm.trans hm'
  have hok := hs.contexts k c hm
  have hlt := (hs.streams _ hok.made).1
  exact ⟨rfl, hok.steady hst hlt (.refl _ c) fun _ hf => hf, fun _ _ => ⟨rfl, rfl, rfl⟩⟩

theorem sound_stream (hs : Sound api g s) {r : Receive H} (ha : Ages .stream s.receive r) (hi : Inv r)
    (hid : (r.stream s.receive.made).id = id) (hnew : ∀ i, i < s.receive.made → (s.receive.stream i).id ≠ id)
    (hlt : id < s.nextStreamId) (hle : id ≤ 2147483647)
    (hk : (r.stream s.receive.made).incomingKind = .hResponse)
    (hh : (r.stream s.receive.made).Honest) : Sound api g { s with receive := r } := by
  have hst : Steady .stream s { s with receive := r } :=
    ⟨ha, fun _ _ => rfl, fun _ _ _ _ => rfl, Int.le_refl _, fun _ h => h, fun _ h => h,
      fun _ h => .inl h, fun _ h => .inl h⟩
  have hmade : r.made = s.receive.made + 1 := ha.made
  have hold : ∀ i, i < s.receive.made → Older (s.receive.stream i) (r.stream i) := fun i hi => ha.older i hi
  have hcases : ∀ i, i < r.made → i < s.receive.made ∨ i = s.receive.made := by
    intro i hi
    rw [hmade] at hi
    exact Nat.lt_or_eq_of_le (Nat.le_of_lt_succ hi)
  have hb : Based { s with receive := r } := by
    refine ⟨ha.role.trans hs.role, hs.options, hi, ha.terminal hs.terminal, fun he => ha.dead (hs.failed he),
      hs.next, hs.last, fun i hi => ?_, fun i j hi hj hn => ?_, hs.queued⟩
    · rcases hcases i hi with hi | rfl
      · obtain ⟨h₁, h₂, h₃, h₄⟩ := hs.streams i hi
        have := hold i hi
        dsimp only
        rw [this.id]
        exact ⟨h₁, h₂, this.kind.trans h₃, this.honest h₄⟩
      · dsimp only
        rw [hid]
        exact ⟨hlt, hle, hk, hh⟩
    · dsimp only at hn
      rcases hcases i hi with hi | rfl
      · rcases hcases j hj with hj | rfl
        · rw [(hold i hi).id, (hold j hj).id] at hn
          exact hs.apart i j hi hj hn
        · rw [(hold i hi).id, hid] at hn
          exact absurd hn (hnew i hi)
      · rcases hcases j hj with hj | rfl
        · rw [(hold j hj).id, hid] at hn
          exact absurd hn.symm (hnew j hj)
        · rfl
  refine hs.change hst hb rfl (fun _ _ h => h) hs.listed rfl fun k c c' hm hm' => ?_
  cases hm.symm.trans hm'
  have hok := hs.contexts k c hm
  refine ⟨rfl, ⟨?_, fun hr => ?_, hok.sent, fun hd => ?_, fun id' hf => ?_⟩, fun _ _ => ⟨rfl, rfl, rfl⟩⟩
  · dsimp only
    rw [hmade]
    exact Nat.lt_succ_of_lt hok.made
  · obtain ⟨x, hx⟩ := hok.ready hr
    exact ⟨x, hx.steady hst hok.made ⟨rfl, rfl, rfl, rfl⟩⟩
  · rw [hst.id hok.made]
    exact g.stays hst (hs.streams _ hok.made).1 (hok.processed hd)
  · obtain ⟨h₁, h₂, h₃⟩ := hok.copied id' hf
    have hsealed := (hold _ hok.made).initialSealed
    exact ⟨fun hn => h₁ (hsealed ▸ hn), fun hn => h₂ (hsealed ▸ hn), h₃⟩

theorem sound_context (hs : Sound api g s) {i : Nat} (deadline : Nat) (hi : i < s.receive.made)
    (hid : (s.receive.stream i).id = id) (hnew : s.find id = none)
    (hsealed : (s.receive.stream i).initialSealed = false) :
    Sound api g { s with
      made := s.made ++ [{ stream := i, result := { protocol := .hHttp2 }, deadline := deadline }]
      contexts := (id, s.made.length) :: s.contexts } := by
  generalize hc : ({ stream := i, result := { protocol := .hHttp2 }, deadline := deadline } : Context H) = c₀
  generalize hs' : ({ s with
    made := s.made ++ [c₀], contexts := (id, s.made.length) :: s.contexts } : ClientSession H) = s'
  have hst : Steady .nothing s s' := by
    rw [← hs']
    exact { Steady.refl s with }
  have hfind : ∀ id', s'.find id' = if id' = id then some s.made.length else s.find id' := by
    intro id'
    rw [← hs', find, List.lookup_cons]
    by_cases h : id' = id
    · rw [beq_iff_eq.2 h, if_pos h]
    · rw [beq_eq_false_iff_ne.2 h, if_neg h]
      rfl
  have hget : ∀ (k : Nat) c, s.made[k]? = some c → s'.made[k]? = some c := by
    intro k c hm
    rw [← hs', ← hm]
    exact List.getElem?_append_left (List.getElem?_eq_some_iff.1 hm).1
  have hlast : s'.made[s.made.length]? = some c₀ := by
    rw [← hs']
    exact List.getElem?_concat_length
  have hsame : s'.receive = s.receive := by rw [← hs']
  have hrequests : s'.requests = s.requests := by rw [← hs']
  refine ⟨?_, fun x hx => ?_, fun id' k hf => ?_, fun k c hm => ?_, fun j r hr => ?_,
    fun j l r r' k hj hl => ?_⟩
  · rw [← hs']
    exact { hs.toBased with }
  · rw [hfind]
    rw [← hs'] at hx
    rcases List.mem_cons.1 hx with rfl | hx
    · exact if_pos rfl
    · have hx' := hs.listed x hx
      rw [if_neg]
      · exact hx'
      · intro he
        rw [he, hnew] at hx'
        cases hx'
  · rw [hfind] at hf
    rw [hsame]
    split at hf
    · next he =>
      cases hf
      refine ⟨c₀, hlast, ?_⟩
      rw [← hc, he]
      exact hid
    · obtain ⟨c, hm, hid'⟩ := hs.linked id' k hf
      exact ⟨c, hget k c hm, hid'⟩
  · by_cases hk : k < s.made.length
    · have hm₀ := List.getElem?_eq_getElem hk
      cases (hget k _ hm₀).symm.trans hm
      have hok := hs.contexts k _ hm₀
      refine hok.steady hst (hs.streams _ hok.made).1 (.refl _ _) fun id' hf => ?_
      rw [hfind] at hf
      split at hf
      · cases hf
        exact absurd hk (Nat.lt_irrefl _)
      · exact hf
    · have hk' : k < s'.made.length := (List.getElem?_eq_some_iff.1 hm).1
      rw [← hs', List.length_append] at hk'
      have hke : k = s.made.length := Nat.le_antisymm (Nat.le_of_lt_succ hk') (Nat.le_of_not_lt hk)
      subst hke
      cases hlast.symm.trans hm
      subst hc
      rw [← hs']
      refine ⟨hi, fun h => (by cases h), fun h => (by cases h), fun h => (by cases h), fun _ _ => ⟨fun _ => ⟨rfl, rfl⟩, fun hn => ?_, fun _ => rfl⟩⟩
      exact absurd (hsealed.symm.trans hn) Bool.false_ne_true
  · rw [hrequests] at hr
    refine (hs.requests j r hr).steady hst fun k c _ hm => ?_
    exact ⟨(hs.contexts k c hm).made, c, hget k c hm, rfl, fun _ _ => ⟨rfl, rfl, rfl⟩⟩
  · rw [hrequests] at hj hl
    exact hs.own j l r r' k hj hl

theorem sound_openStream (hs : Sound api g s) (hlive : s.receive.codec.terminalError.isError = false)
    (hpos : 0 < id) (hnew : ∀ i, i < s.receive.made → (s.receive.stream i).id ≠ id)
    (hlt : id < s.nextStreamId) (hle : id ≤ 2147483647) (headResponse : Bool) (peerLimit : UInt32) :
    Sound api g (s.openStream id headResponse peerLimit).1 ∧
      (∃ r, (s.openStream id headResponse peerLimit).1 = { s with receive := r }) ∧
      match (s.openStream id headResponse peerLimit).2 with
      | .refused error => error.isError = true
      | .made i => i < (s.openStream id headResponse peerLimit).1.receive.made ∧
          ((s.openStream id headResponse peerLimit).1.receive.stream i).id = id ∧
          ((s.openStream id headResponse peerLimit).1.receive.stream i).initialSealed = false ∧
          ((s.openStream id headResponse peerLimit).1.receive.find id).isSome = true
      | .thrown _ => False := by
  have hshared : ∀ b, Sound api g { s with receive := { s.receive with shared := b } } := fun b =>
    hs.turn (Turn.withReceive s (.of_frame rfl rfl rfl (fun _ _ h => h) (fun h => h) fun h => h)
      fun h => h.silent (.frame rfl rfl rfl rfl rfl h.dead))
  rw [openStream]
  split
  · next b x hc =>
    obtain ⟨hx, hid⟩ := new_create hc
    obtain ⟨hkind, hhonest⟩ := honest_create hc
    have hage := ages_addClientStream { s.receive with shared := b } x hlive headResponse
    obtain ⟨hstream, hfind⟩ := stream_addClientStream { s.receive with shared := b } x headResponse
    have hinv : Inv (Receive.addClientStream (Receive.add { s.receive with shared := b } x) s.receive.made
        headResponse).1 :=
      inv_addClientStream (inv_add (hshared b).inv hx) _ _
    dsimp only at hage hstream hfind hinv ⊢
    generalize Receive.addClientStream (Receive.add { s.receive with shared := b } x) s.receive.made
      headResponse = added at hage hstream hfind hinv ⊢
    refine ⟨?_, ⟨added.1, rfl⟩, ?_⟩
    · have hnumber : (added.1.stream s.receive.made).id = id := (congrArg Http2Stream.id hstream).trans hid
      refine sound_stream (hshared b) hage hinv hnumber hnew hlt hle ?_ ?_
      · exact (congrArg Http2Stream.incomingKind hstream).trans hkind
      · rw [show added.1.stream s.receive.made = x from hstream]
        exact hhonest
    · cases he : added.2.isError with
      | true =>
        rw [if_pos rfl]
        exact he
      | false =>
        rw [if_neg Bool.false_ne_true]
        dsimp only
        rw [hstream]
        refine ⟨?_, hid, hx.initialSealed, ?_⟩
        · rw [hage.made]
          exact Nat.lt_succ_self _
        · rw [← show x.id = id from hid]
          exact hfind he
  · next b hc => exact ⟨hshared b, ⟨_, rfl⟩, rfl⟩
  · next message hc =>
    rw [Http2Stream.create, hs.options] at hc
    dsimp only at hc
    rw [if_neg] at hc
    · cases hc
    · exact fun h => h.elim (Int.not_le.2 hpos) (fun h => by cases h)

/-- What `submit` comes to: a context for the request, or an error before anything of it was sent. -/
def Submitted.Ok (s : ClientSession H) (opened : Option Int) : Submitted → Prop
  | .refused error => error.isError = true ∧ ∀ id, opened = some id →
      id < s.nextStreamId ∧ id ∉ s.queued ∧ id ∉ s.written
  | .made k => ∃ c, s.made[k]? = some c ∧ opened = some (s.receive.stream c.stream).id ∧
      c.responseReady = false ∧ (s.receive.find (s.receive.stream c.stream).id).isSome = true ∧
      (s.receive.stream c.stream).id ∉ s.written
  | .thrown _ => False

theorem withdraw_unqueued (s : ClientSession H) (id : Int) : id ∉ (s.withdraw id).1.queued ∧
    (s.withdraw id).1.written = s.written ∧ (s.withdraw id).1.made = s.made := by
  rw [withdraw]
  split
  · refine ⟨fun hq => ?_, rfl, rfl⟩
    have hq' : id ∈ s.queued.filter fun x => x != id := hq
    rw [List.mem_filter, bne_self_eq_false] at hq'
    cases hq'.2
  · refine ⟨fun hq => ?_, rfl, rfl⟩
    have hq' : id ∈ s.queued.filter fun x => x != id := hq
    rw [List.mem_filter, bne_self_eq_false] at hq'
    cases hq'.2

theorem sound_withdraw (hs : Sound api g s) (hlt : id < s.nextStreamId) (hw : id ∉ s.written)
    (he : error.isError = true) :
    Sound api g (s.withdraw id).1 ∧ (s.withdraw id).1.requests = s.requests ∧
      Submitted.Ok (s.withdraw id).1 (some id) (match (s.withdraw id).2 with
        | some message => .thrown message
        | none => .refused error) := by
  obtain ⟨hturn, hnone⟩ := turn_withdraw hs.toBased id
  obtain ⟨hq, hwritten, hmade⟩ := withdraw_unqueued s id
  refine ⟨hs.turn hturn, hturn.requests, ?_⟩
  rw [hnone]
  refine ⟨he, fun id' hid' => ?_⟩
  cases hid'
  rw [hturn.number, hwritten]
  exact ⟨hlt, hq, hw⟩

/-- What is made for a request is behind what there was. -/
def Submitted.Fresh (s : ClientSession H) (x : Submitted) : Prop := ∀ k, x = .made k → s.made.length ≤ k

theorem fresh_withdraw (s s' : ClientSession H) (hs : Sound api g s) (id : Int) (error : NetworkError) :
    Submitted.Fresh s' (match (s.withdraw id).2 with
      | some message => .thrown message
      | none => .refused error) := by
  obtain ⟨-, hnone⟩ := turn_withdraw (g := g) hs.toBased id
  rw [hnone]
  exact nofun

theorem sound_submitOpened (hs : Sound api g s) (hlive : s.receive.codec.terminalError.isError = false)
    (hpos : 0 < id) (hnew : ∀ i, i < s.receive.made → (s.receive.stream i).id ≠ id)
    (hlt : id < s.nextStreamId) (hle : id ≤ 2147483647) (hw : id ∉ s.written) (r : ClientRequest)
    (a : Submission) :
    Sound api g (s.submitOpened id r a).1 ∧ (s.submitOpened id r a).1.requests = s.requests ∧
      Submitted.Ok (s.submitOpened id r a).1 (some id) (s.submitOpened id r a).2 ∧
      Submitted.Fresh s (s.submitOpened id r a).2 := by
  obtain ⟨hsound, ⟨r', hr'⟩, hopened⟩ := sound_openStream hs hlive hpos hnew hlt hle r.headResponse
    a.peerLimit
  rw [submitOpened]
  dsimp only
  rw [hr'] at hsound hopened ⊢
  have hrefuse : ∀ error : NetworkError, error.isError = true →
      Sound api g (withdraw { s with receive := r' } id).1 ∧
        (withdraw { s with receive := r' } id).1.requests = s.requests ∧
        Submitted.Ok (withdraw { s with receive := r' } id).1 (some id)
          (match (withdraw { s with receive := r' } id).2 with
            | some message => .thrown message
            | none => .refused error) ∧
        Submitted.Fresh s (match (withdraw { s with receive := r' } id).2 with
          | some message => .thrown message
          | none => .refused error) := by
    intro error he
    obtain ⟨h₁, h₂, h₃⟩ := sound_withdraw hsound hlt hw he
    exact ⟨h₁, h₂, h₃, fresh_withdraw _ s hsound id error⟩
  split
  · next message hm =>
    rw [hm] at hopened
    exact hopened.elim
  · next error hm =>
    rw [hm] at hopened
    exact hrefuse error hopened
  · next i hm =>
    rw [hm] at hopened
    obtain ⟨hi, hid, hsealed, hfind⟩ := hopened
    split
    · next he => exact hrefuse a.appended he
    split
    · next he => exact hrefuse a.finished he
    · have hnone : ClientSession.find { s with receive := r' } id = none := by
        cases hf : ClientSession.find { s with receive := r' } id with
        | none => rfl
        | some k =>
          obtain ⟨c, hm, hid'⟩ := hs.linked id k hf
          exact absurd hid' (hnew c.stream (hs.contexts k c hm).made)
      refine ⟨sound_context hsound r.deadline hi hid hnone hsealed, rfl,
        ⟨{ stream := i, result := { protocol := .hHttp2 }, deadline := r.deadline }, ?_, ?_, rfl, ?_, ?_⟩,
        fun k hk => ?_⟩
      · exact List.getElem?_concat_length
      · exact congrArg some hid.symm
      · rw [show (Receive.stream r' i).id = id from hid]
        exact hfind
      · rw [show (Receive.stream r' i).id = id from hid]
        exact hw
      · cases hk
        exact Nat.le_refl _

theorem sound_submit (hs : Sound api g s) (r : ClientRequest) (a : Submission) :
    Sound api g (s.submit r a).1 ∧ (s.submit r a).1.requests = s.requests ∧
      Submitted.Ok (s.submit r a).1 (s.submit r a).2.1 (s.submit r a).2.2 ∧
      Submitted.Fresh s (s.submit r a).2.2 := by
  rw [submit]
  split
  · next he => exact ⟨hs, rfl, ⟨he, nofun⟩, nofun⟩
  split
  · exact ⟨hs, rfl, ⟨rfl, nofun⟩, nofun⟩
  split
  · next he => exact ⟨hs, rfl, ⟨he, nofun⟩, nofun⟩
  split
  · next he => exact ⟨hs, rfl, ⟨he, nofun⟩, nofun⟩
  next hlive =>
  split
  · exact ⟨hs, rfl, ⟨rfl, nofun⟩, nofun⟩
  next hle =>
  have hfresh : ∀ i, i < s.receive.made → (s.receive.stream i).id ≠ s.nextStreamId :=
    fun i hi => Int.ne_of_lt (hs.streams i hi).1
  exact sound_submitOpened (sound_number hs) (Bool.eq_false_iff.2 hlive) hs.next hfresh
    (Int.lt_add_of_pos_right _ (by decide)) (Int.not_lt.1 hle)
    (fun hw => Int.lt_irrefl _ (hs.queued _ (.inr hw))) r a

end ClientSession

end Hical.Http2
