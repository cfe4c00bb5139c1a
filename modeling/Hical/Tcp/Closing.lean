import Hical.Tcp.Lifecycle

namespace Hical.Tcp

/-- The coroutine is over, or comes to its end without another write. -/
def Loop.winding : Loop → Bool
  | closing => true
  | draining => true
  | drained _ => true
  | l => l.over

/-- The call did nothing yet, or is over. -/
def Sender.calm : Sender → Bool
  | entered _ => true
  | returned => true
  | _ => false

/-- No part of the call is dispatched. -/
def Shutdown.calm : Shutdown → Bool
  | stored => false
  | notifying => false
  | _ => true

/-- What a step of a `writeLoop` does to the rest. -/
structure LoopStep (c : Connection) (i : Nat) (io : Io) (l l' : Loop) (c' : Connection) : Prop where
  loops : c'.loops = c.loops.set i l' ∨ l = .restarting ∧ c'.loops = c.loops.set i l' ++ [.spawned]
  senders : c'.senders = c.senders
  state : c'.state = if l = .failed then c.handleClose.state else c.state
  error : c'.error = true → c.error = true ∨
    l' = .failed ∧ io = .systemError ∧ ∃ written left, l = .sending written left
  winding : l.winding = true → l'.winding = true
  failed : l = .failed → l' = .closing

theorem stepWrite_spec {c c' : Connection}
    (h : c.stepWrite i written left io = some c') : ∃ l', LoopStep c i io (.sending written left) l' c' := by
  have hdeliver : ∀ entries, (c.deliver entries).loops = c.loops ∧
      (c.deliver entries).senders = c.senders ∧ (c.deliver entries).state = c.state ∧
      (c.deliver entries).error = c.error := by
    intro entries
    rw [Connection.deliver]
    split <;> exact ⟨rfl, rfl, rfl, rfl⟩
  have hdone : ∀ entries, LoopStep c i io (.sending written left) (.issuing left)
      ((c.deliver entries).setLoop i (.issuing left)) := by
    intro entries
    obtain ⟨hl, hs, hst, he⟩ := hdeliver entries
    refine ⟨.inl ?_, hs, hst, fun h => .inl (he ▸ h), (nomatch ·), (nomatch ·)⟩
    exact congrArg (fun loops => loops.set i (.issuing left)) hl
  rw [Connection.stepWrite.eq_def] at h
  split at h
  · cases h
    exact ⟨.failed, .inl rfl, rfl, rfl, fun _ => .inr ⟨rfl, rfl, written, left, rfl⟩,
      (nomatch ·), (nomatch ·)⟩
  · split at h
    · split at h
      · cases h
        exact ⟨_, .inl rfl, rfl, rfl, .inl, (nomatch ·), (nomatch ·)⟩
      · cases h
    · cases h
  · split at h
    · split at h
      · cases h
        exact ⟨_, hdone _⟩
      · cases h
    · cases h
      exact ⟨_, hdone _⟩

theorem stepLoop_spec {c c' : Connection} (h : c.stepLoop i io l = some c') :
    ∃ l', LoopStep c i io l l' c' := by
  have hplain : ∀ {l l' : Loop} {c' : Connection}, c'.loops = c.loops.set i l' →
      c'.senders = c.senders → c'.state = c.state → c'.error = c.error → l ≠ .failed →
      (l.winding = true → l'.winding = true) → ∃ l', LoopStep c i io l l' c' := by
    intro l l' c' hl hs hst he hne hw
    exact ⟨l', .inl hl, hs, by rw [if_neg hne]; exact hst, fun h => .inl (he ▸ h), hw,
      fun hf => absurd hf hne⟩
  cases l with
  | spawned | popped batch | emptied | holding entry =>
    cases h
    exact hplain rfl rfl rfl rfl Loop.noConfusion (nomatch ·)
  | popping batch | rechecking =>
    rw [Connection.stepLoop.eq_def] at h
    dsimp only at h
    split at h
    · cases h
      exact hplain rfl rfl rfl rfl Loop.noConfusion (nomatch ·)
    · cases h
      exact hplain rfl rfl rfl rfl Loop.noConfusion (nomatch ·)
  | issuing left =>
    cases left with
    | nil =>
      cases h
      exact hplain rfl rfl rfl rfl Loop.noConfusion (nomatch ·)
    | cons entry left =>
      cases h
      have hhand : ∀ entries, (c.hand entries).loops = c.loops ∧
          (c.hand entries).senders = c.senders ∧ (c.hand entries).state = c.state ∧
          (c.hand entries).error = c.error := by
        intro entries
        rw [Connection.hand]
        split <;> exact ⟨rfl, rfl, rfl, rfl⟩
      obtain ⟨hl, hs, hst, he⟩ := hhand (Connection.nextWrite (entry :: left)).1
      have hloops : ∀ l', ((c.hand (Connection.nextWrite (entry :: left)).1).setLoop i l').loops =
          c.loops.set i l' := fun l' => congrArg (fun loops => loops.set i l') hl
      exact hplain (hloops _) hs hst he Loop.noConfusion (nomatch ·)
  | sending written left => exact stepWrite_spec h
  | restarting =>
    cases h
    refine ⟨.finished, ?_, ?_, ?_, ?_, fun _ => rfl, (nomatch ·)⟩
    · rw [Connection.tryStartWrite]
      split
      · exact .inl rfl
      · exact .inr ⟨rfl, rfl⟩
    · rw [Connection.tryStartWrite]
      split <;> rfl
    · rw [Connection.tryStartWrite]
      split <;> rfl
    · rw [Connection.tryStartWrite]
      split <;> exact .inl
  | failed =>
    cases h
    refine ⟨.closing, .inl ?_, ?_, rfl, ?_, fun _ => rfl, fun _ => rfl⟩
    · rw [Connection.handleClose]
      split <;> rfl
    · rw [Connection.handleClose]
      split <;> rfl
    · rw [Connection.handleClose]
      split <;> exact .inl
  | closing | drained entry =>
    cases h
    exact hplain rfl rfl rfl rfl Loop.noConfusion fun _ => rfl
  | draining =>
    rw [Connection.stepLoop.eq_def] at h
    dsimp only at h
    split at h
    · cases h
      exact hplain rfl rfl rfl rfl Loop.noConfusion fun _ => rfl
    · cases h
      exact hplain rfl rfl rfl rfl Loop.noConfusion fun _ => rfl
  | finished => cases h
  | escaped written left => cases h

/-- What a step of `enqueueEntry` does to the rest. -/
structure SenderStep (c : Connection) (i : Nat) (x x' : Sender) (c' : Connection) : Prop where
  senders : c'.senders = c.senders.set i x'
  loops : c'.loops = c.loops ∨ x = .pushed ∧ c'.loops = c.loops ++ [.spawned]
  state : c'.state = c.state
  error : c'.error = c.error
  calm : c.state ≠ .hConnected → x.calm = true → x'.calm = true

theorem stepSender_spec {c c' : Connection} (h : c.stepSender i x = some c') :
    ∃ x', SenderStep c i x x' c' := by
  cases x with
  | entered entry =>
    cases h
    refine ⟨_, rfl, .inl rfl, rfl, rfl, fun hne _ => ?_⟩
    rw [if_neg hne]
    rfl
  | checked entry | added entry =>
    cases h
    exact ⟨_, rfl, .inl rfl, rfl, rfl, fun _ => (nomatch ·)⟩
  | pushed =>
    cases h
    refine ⟨.returned, ?_, ?_, ?_, ?_, fun _ _ => rfl⟩
    · rw [Connection.tryStartWrite]
      split <;> rfl
    · rw [Connection.tryStartWrite]
      split
      · exact .inl rfl
      · exact .inr ⟨rfl, rfl⟩
    · rw [Connection.tryStartWrite]
      split <;> rfl
    · rw [Connection.tryStartWrite]
      split <;> rfl
  | returned => cases h

namespace GenericConnection

/-- `closeInLoop` will run, or the close callback ran. -/
def answered (s : GenericConnection) : Bool := decide (0 < s.closing) || decide (s.closes = 1)

/-- Something that ends the connection happened. -/
def triggered (s : GenericConnection) : Bool :=
  s.closeCalled || s.eof || s.readError || s.writer.error

/-- But for its owner and the `readLoop`, nobody will keep the connection. -/
def retired (s : GenericConnection) (loops : List Loop) : Bool :=
  decide (s.users = 0) && loops.all (·.winding) && s.writer.senders.all (·.calm) &&
    s.shutdowns.all (·.calm)

def kept (s : GenericConnection) : Label → Bool
  | .shutdownStep i => decide (s.shutdowns[i]? = some .loaded → s.state ≠ .hDisconnected)
  | .close => decide (s.state = .hConnected) || s.answered
  | .readLoop result =>
    match s.reader with
    | .looping => decide (s.state = .hConnected) || !s.eof || s.answered
    | .reading => decide (result = .data ∨ result = .aborted) || s.answered ||
        decide (s.state ≠ .hDisconnected) && s.retired s.writer.loops
    | .finished => true
  | .writeLoop i io =>
    match s.writer.loops[i]? with
    | some .failed => s.answered || decide (s.state ≠ .hDisconnected ∧ s.reader = .finished) &&
        s.retired (s.writer.loops.set i .closing)
    | some (.sending _ _) =>
      decide (io ≠ .systemError) || decide (s.state ≠ .hDisconnected) || s.answered
    | _ => true
  | .peerEnd => decide (s.state ≠ .hDisconnected ∧ s.reader ≠ .finished) || s.answered
  | .destroyStore => !s.triggered
  | .retain => decide (s.closes ≠ 1) || !s.socketOpen || decide (0 < s.closing)
  | _ => true

def keptRun (s : GenericConnection) : List Label → Bool
  | [] => true
  | label :: labels => s.kept label && match s.step label with
      | some s' => keptRun s' labels
      | none => true

/-- No step is pending; reads and writes may wait for the peer. -/
structure Quiescent (s : GenericConnection) : Prop where
  reader : s.reader = .finished ∨ s.reader = .reading ∧ s.socketOpen = true ∧ s.eof = false
  loops : ∀ l ∈ s.writer.loops, l.over = true ∨
    (∃ written left, l = .sending written left) ∧ s.socketOpen = true
  senders : ∀ x ∈ s.writer.senders, x = .returned
  shutdowns : ∀ x ∈ s.shutdowns, x = .returned ∨ x = .notifying ∧ s.socketOpen = true
  closing : s.closing = 0
  destroying : s.destroying = 0
  destroyed : s.destroyed = false

/-- What keeps an ended connection without a closed socket is only what comes to its end. -/
structure Winding (s : GenericConnection) : Prop where
  users : s.users = 0
  owned : s.owned = false
  reader : s.reader = .finished
  loops : ∀ l ∈ s.writer.loops, l.winding = true
  senders : ∀ x ∈ s.writer.senders, x.calm = true
  shutdowns : ∀ x ∈ s.shutdowns, x.calm = true

structure Sound (s : GenericConnection) : Prop where
  connected : s.state ≠ .hConnecting
  told : s.state ≠ .hDisconnected → s.disconnects = 0 ∧ s.closes = 0 ∧ s.reading = true
  once : s.disconnects ≤ 1 ∧ s.closes ≤ s.disconnects
  destroyed : s.destroyed = true → s.state ≠ .hDisconnected
  ended : s.state = .hDisconnected → s.triggered = true → s.closes = 1
  closing : 0 < s.closing → s.closeCalled = true
  close : s.closeCalled = true → s.answered = true
  read : s.readError = true → s.answered = true
  write : s.writer.error = true → s.answered = true ∨ .failed ∈ s.writer.loops
  eof : s.eof = true → s.answered = true ∨ s.reader ≠ .finished
  socket : s.closes = 1 → s.socketOpen = false ∨ 0 < s.closing ∨ s.Winding
  shut : s.socketOpen = false → s.closes = 1

variable {s s' : GenericConnection} {i : Nat}

theorem answered_iff : s.answered = true ↔ 0 < s.closing ∨ s.closes = 1 := by
  rw [answered, Bool.or_eq_true, decide_eq_true_iff, decide_eq_true_iff]

theorem Sound.closed (h : Sound s) (hq : s.Quiescent) (ht : s.triggered = true) :
    s.state = .hDisconnected ∧ s.disconnects = 1 ∧ s.closes = 1 ∧ s.socketClosed = true := by
  have hcloses : s.closes = 1 := by
    have hans : s.answered = true := by
      simp only [triggered, Bool.or_eq_true] at ht
      rcases ht with ((hc | he) | hr) | hw
      · exact h.close hc
      · rcases h.eof he with ha | hn
        · exact ha
        · rcases hq.reader with hf | ⟨-, -, hf⟩
          · exact absurd hf hn
          · rw [hf] at he
            cases he
      · exact h.read hr
      · rcases h.write hw with ha | hf
        · exact ha
        · rcases hq.loops _ hf with ho | ⟨⟨_, _, hl⟩, -⟩
          · cases ho
          · cases hl
    rcases answered_iff.1 hans with hpos | hone
    · rw [hq.closing] at hpos
      cases hpos
    · exact hone
  have hstate : s.state = .hDisconnected := by
    by_contra hne
    have hzero := (h.told hne).2.1
    omega
  have honce := h.once
  refine ⟨hstate, by omega, hcloses, ?_⟩
  rw [socketClosed, Bool.or_eq_true, Bool.not_eq_true', Bool.not_eq_true']
  rcases h.socket hcloses with ho | hpos | hw
  · exact .inl ho
  · rw [hq.closing] at hpos
    cases hpos
  · right
    have hloops : s.writer.loops.any (!·.over) = false := by
      rw [List.any_eq_false]
      intro l hl
      rcases hq.loops l hl with ho | ⟨⟨written, left, rfl⟩, -⟩
      · simp [ho]
      · cases hw.loops _ hl
    have hsenders : s.writer.senders.any (· ≠ .returned) = false := by
      rw [List.any_eq_false]
      intro x hx
      simp [hq.senders x hx]
    have hshutdowns : s.shutdowns.any (· ≠ .returned) = false := by
      rw [List.any_eq_false]
      intro x hx
      rcases hq.shutdowns x hx with hr | ⟨rfl, -⟩
      · simp [hr]
      · cases hw.shutdowns _ hx
    rw [referenced, hloops, hsenders, hshutdowns, hw.owned, hw.users, hw.reader, hq.closing,
      hq.destroying, hq.destroyed]
    rfl

theorem handleClose_ended (h : s.state = .hDisconnected) : s.handleClose = s := by
  rw [handleClose, if_neg]
  rw [h]
  decide

theorem handleClose_live (hc : s.state ≠ .hConnecting) (h : s.state ≠ .hDisconnected) :
    s.handleClose = { s.setState .hDisconnected with
      reading := false, owned := false, disconnects := s.disconnects + 1, closes := s.closes + 1 } := by
  rw [handleClose, if_pos]
  cases hs : s.state with
  | hConnecting => exact absurd hs hc
  | hConnected => exact .inl rfl
  | hDisconnecting => exact .inr rfl
  | hDisconnected => exact absurd hs h

theorem retired_iff {loops : List Loop} : s.retired loops = true ↔
    s.users = 0 ∧ (∀ l ∈ loops, l.winding = true) ∧ (∀ x ∈ s.writer.senders, x.calm = true) ∧
      ∀ x ∈ s.shutdowns, x.calm = true := by
  simp only [retired, Bool.and_eq_true, decide_eq_true_iff, List.all_eq_true, and_assoc]

namespace Sound

theorem closes_of_answered (h : Sound s) (ha : s.answered = true) (hd : s.state = .hDisconnected) :
    s.closes = 1 := by
  rcases answered_iff.1 ha with hpos | hone
  · refine h.ended hd ?_
    rw [triggered, h.closing hpos]
    rfl
  · exact hone

theorem ended_of_closes (h : Sound s) (hc : s.closes = 1) : s.state = .hDisconnected := by
  by_contra hne
  have hzero := (h.told hne).2.1
  omega

theorem frame (h : Sound s) {w : Connection} {shutdowns : List Shutdown} {users destroying : Nat}
    {early : List WriteEntry} (hstate : w.state = s.state)
    (herror : w.error = true → s.writer.error = true ∨
      .failed ∈ w.loops ∧ (s.state = .hDisconnected → s.closes = 1))
    (hfailed : .failed ∈ s.writer.loops → .failed ∈ w.loops)
    (hwinding : s.state = .hDisconnected → s.Winding →
      (∀ l ∈ w.loops, l.winding = true) ∧ (∀ x ∈ w.senders, x.calm = true) ∧
        (∀ x ∈ shutdowns, x.calm = true) ∧ users = 0) :
    Sound { s with
      writer := w, shutdowns := shutdowns, users := users, destroying := destroying, early := early } where
  connected := by
    rw [state, hstate]
    exact h.connected
  told hne := h.told (by rwa [state, hstate] at hne)
  once := h.once
  destroyed hd := by
    rw [state, hstate]
    exact h.destroyed hd
  ended hd ht := by
    rw [state, hstate] at hd
    simp only [triggered, Bool.or_eq_true] at ht
    rcases ht with ht | he
    · refine h.ended hd ?_
      rw [triggered, Bool.or_eq_true, Bool.or_eq_true, Bool.or_eq_true]
      exact .inl ht
    · rcases herror he with he | ⟨-, hc⟩
      · refine h.ended hd ?_
        rw [triggered, he, Bool.or_true]
      · exact hc hd
  closing := h.closing
  close := h.close
  read := h.read
  write he := by
    rcases herror he with he | ⟨hf, -⟩
    · exact (h.write he).imp_right hfailed
    · exact .inr hf
  eof := h.eof
  socket hc := by
    refine (h.socket hc).imp_right (Or.imp_right fun hw => ?_)
    obtain ⟨hl, hx, hs, hu⟩ := hwinding (h.ended_of_closes hc) hw
    exact ⟨hu, hw.owned, hw.reader, hl, hx, hs⟩
  shut := h.shut

theorem ends (h : Sound s) (hnd : s.destroyed = false) {w : Connection} (reader : Reader)
    (readError : Bool) (hstate : w.state = .hDisconnected)
    (hans : s.answered = true ∨ s.state ≠ .hDisconnected ∧
      Winding { s.handleClose with writer := w, reader := reader, readError := readError })
    (hwinding : s.state = .hDisconnected → s.Winding →
      Winding { s.handleClose with writer := w, reader := reader, readError := readError }) :
    Sound { s.handleClose with writer := w, reader := reader, readError := readError } := by
  have hsame : s.handleClose.closing = s.closing ∧ s.handleClose.closeCalled = s.closeCalled ∧
      s.handleClose.socketOpen = s.socketOpen ∧ s.handleClose.destroyed = s.destroyed := by
    rw [handleClose]
    split <;> exact ⟨rfl, rfl, rfl, rfl⟩
  obtain ⟨hclosing, hcalled, hopen, hdestroyed⟩ := hsame
  have honce : s.handleClose.disconnects ≤ 1 ∧ s.handleClose.closes ≤ s.handleClose.disconnects ∧
      s.handleClose.closes = 1 := by
    by_cases hd : s.state = .hDisconnected
    · rw [handleClose_ended hd]
      rcases hans with ha | ⟨hne, -⟩
      · exact ⟨h.once.1, h.once.2, h.closes_of_answered ha hd⟩
      · exact absurd hd hne
    · obtain ⟨hzero, hzero', -⟩ := h.told hd
      rw [handleClose_live h.connected hd]
      dsimp only
      omega
  have hanswered : answered
      { s.handleClose with writer := w, reader := reader, readError := readError } = true :=
    answered_iff.2 (.inr honce.2.2)
  refine ⟨?_, ?_, ⟨honce.1, honce.2.1⟩, ?_, fun _ _ => honce.2.2, ?_, fun _ => hanswered,
    fun _ => hanswered, fun _ => .inl hanswered, fun _ => .inl hanswered, fun _ => ?_,
    fun _ => honce.2.2⟩
  · rw [state, hstate]
    exact State.noConfusion
  · exact fun hne => absurd hstate hne
  · intro hd
    rw [hdestroyed, hnd] at hd
    cases hd
  · intro hpos
    rw [hclosing] at hpos
    exact hcalled.trans (h.closing hpos)
  · change s.handleClose.socketOpen = false ∨ 0 < s.handleClose.closing ∨ _
    rw [hopen, hclosing]
    rcases hans with ha | ⟨-, hw⟩
    · rcases answered_iff.1 ha with hpos | hone
      · exact .inr (.inl hpos)
      · exact (h.socket hone).imp_right (Or.imp_right (hwinding (h.ended_of_closes hone)))
    · exact .inr (.inr hw)

theorem send (h : Sound s) (entry : WriteEntry) (early : List WriteEntry) :
    Sound { s with
      writer := { s.writer with senders := s.writer.senders ++ [.entered entry] }
      early := early } := by
  refine h.frame rfl .inl id fun _ hw => ⟨hw.loops, ?_, hw.shutdowns, hw.users⟩
  intro x hx
  rcases List.mem_append.1 hx with hx | hx
  · exact hw.senders x hx
  · rw [List.mem_singleton.1 hx]
    rfl

theorem sender {x : Sender} {w : Connection} (h : Sound s) (hx : s.writer.senders[i]? = some x)
    (hs : s.writer.stepSender i x = some w) : Sound { s with writer := w } := by
  obtain ⟨x', hstep⟩ := stepSender_spec hs
  refine h.frame hstep.state (fun he => .inl (hstep.error ▸ he)) ?_ fun hd hw => ?_
  · intro hf
    rcases hstep.loops with hl | ⟨-, hl⟩
    · exact hl ▸ hf
    · exact hl ▸ List.mem_append_left _ hf
  · have hcalm := hw.senders x (List.mem_of_getElem? hx)
    have hl : w.loops = s.writer.loops := by
      rcases hstep.loops with hl | ⟨rfl, -⟩
      · exact hl
      · cases hcalm
    refine ⟨hl ▸ hw.loops, ?_, hw.shutdowns, hw.users⟩
    intro y hy
    rw [hstep.senders] at hy
    rcases List.mem_or_eq_of_mem_set hy with hy | rfl
    · exact hw.senders y hy
    · refine hstep.calm ?_ hcalm
      change s.state ≠ _
      rw [hd]
      exact State.noConfusion

theorem shutdown (h : Sound s) : Sound { s with shutdowns := s.shutdowns ++ [.entered] } := by
  refine h.frame rfl .inl id fun _ hw => ⟨hw.loops, hw.senders, ?_, hw.users⟩
  intro x hx
  rcases List.mem_append.1 hx with hx | hx
  · exact hw.shutdowns x hx
  · rw [List.mem_singleton.1 hx]
    rfl

theorem store (h : Sound s) (hd : s.state ≠ .hDisconnected) (i : Nat) :
    Sound ((s.setState .hDisconnecting).setShutdown i .stored) where
  connected := State.noConfusion
  told _ := h.told hd
  once := h.once
  destroyed _ := State.noConfusion
  ended hd := nomatch hd
  closing := h.closing
  close := h.close
  read := h.read
  write := h.write
  eof := h.eof
  socket hc := absurd (h.ended_of_closes hc) hd
  shut := h.shut

theorem stepShutdown {x : Shutdown} (h : Sound s) (hx : s.shutdowns[i]? = some x)
    (hk : s.kept (.shutdownStep i) = true) (hs : s.stepShutdown i x = some s') : Sound s' := by
  have hcalm : ∀ {x' : Shutdown}, (x.calm = true → x'.calm = true) → Sound (s.setShutdown i x') := by
    intro x' hc
    refine h.frame rfl .inl id fun _ hw => ⟨hw.loops, hw.senders, ?_, hw.users⟩
    intro y hy
    rcases List.mem_or_eq_of_mem_set hy with hy | rfl
    · exact hw.shutdowns y hy
    · exact hc (hw.shutdowns x (List.mem_of_getElem? hx))
  cases x with
  | entered =>
    cases hs
    exact hcalm fun _ => by split <;> rfl
  | loaded =>
    cases hs
    exact h.store (of_decide_eq_true hk hx) i
  | stored | notifying =>
    cases hs
    exact hcalm (nomatch ·)
  | returned => cases hs

theorem closeCall (h : Sound s) (hk : s.kept .close = true) : Sound s.close := by
  rw [GenericConnection.close]
  split
  · next hc =>
    have hd : s.state ≠ .hDisconnected := by
      rw [hc]
      exact State.noConfusion
    have hans : answered { s.setState .hDisconnecting with
        closing := s.closing + 1, closeCalled := true } = true :=
      answered_iff.2 (.inl (Nat.succ_pos _))
    exact ⟨State.noConfusion, fun _ => h.told hd, h.once, fun _ => State.noConfusion, (nomatch ·),
      fun _ => rfl, fun _ => hans, fun _ => hans, fun _ => .inl hans, fun _ => .inl hans,
      fun hc => absurd (h.ended_of_closes hc) hd, h.shut⟩
  · next hc =>
    have hans : s.answered = true := by
      rw [kept, decide_eq_false hc, Bool.false_or] at hk
      exact hk
    exact ⟨h.connected, h.told, h.once, h.destroyed, fun hd _ => h.closes_of_answered hans hd,
      fun _ => rfl, fun _ => hans, h.read, h.write, h.eof,
      fun hc => (h.socket hc).imp_right (Or.imp_right fun hw => { hw with }), h.shut⟩

theorem of_closed (hd : s.state = .hDisconnected) (h1 : s.disconnects ≤ 1 ∧ s.closes ≤ s.disconnects)
    (hc : s.closes = 1) (hnd : s.destroyed = false) (ho : s.socketOpen = false)
    (hclosing : 0 < s.closing → s.closeCalled = true) : Sound s := by
  have hans : s.answered = true := answered_iff.2 (.inr hc)
  refine ⟨?_, fun hne => absurd hd hne, h1, ?_, fun _ _ => hc, hclosing, fun _ => hans, fun _ => hans,
    fun _ => .inl hans, fun _ => .inl hans, fun _ => .inl ho, fun _ => hc⟩
  · rw [hd]
    exact State.noConfusion
  · intro ht
    rw [hnd] at ht
    cases ht

theorem closeInLoop (h : Sound s) (hnd : s.destroyed = false) (hpos : 0 < s.closing) :
    Sound s.closeInLoop := by
  rw [GenericConnection.closeInLoop]
  by_cases hd : s.state = .hDisconnected
  · have hc := h.closes_of_answered (answered_iff.2 (.inl hpos)) hd
    rw [handleClose_ended (s := { s with closing := s.closing - 1, socketOpen := false }) hd]
    exact of_closed hd h.once hc hnd rfl fun _ => h.closing hpos
  · obtain ⟨hzero, hzero', -⟩ := h.told hd
    rw [handleClose_live (s := { s with closing := s.closing - 1, socketOpen := false }) h.connected hd]
    refine of_closed rfl ?_ (congrArg (· + 1) hzero') hnd rfl fun _ => h.closing hpos
    change s.disconnects + 1 ≤ 1 ∧ s.closes + 1 ≤ s.disconnects + 1
    omega

theorem destroyLoad (h : Sound s) (destroying : Nat) : Sound { s with
    destroying := destroying, destroyed := decide (s.state = .hConnected) } := by
  refine { h with destroyed := fun hd => ?_, socket := fun hc => ?_ }
  · have hs : s.state = .hConnected := of_decide_eq_true hd
    exact fun he => State.noConfusion (hs.symm.trans he)
  · exact (h.socket hc).imp_right (Or.imp_right fun hw => { hw with })

theorem destroyStore (h : Sound s) (hd : s.destroyed = true) (hk : s.kept .destroyStore = true) :
    Sound { s.setState .hDisconnected with
      reading := false, destroyed := false, disconnects := s.disconnects + 1 } := by
  have hlive := h.destroyed hd
  obtain ⟨hzero, hzero', -⟩ := h.told hlive
  have hquiet : s.triggered = false := by
    rw [kept, Bool.not_eq_true'] at hk
    exact hk
  have hflags : s.closeCalled = false ∧ s.eof = false ∧ s.readError = false ∧
      s.writer.error = false := by
    simpa only [triggered, Bool.or_eq_false_iff, and_assoc] using hquiet
  obtain ⟨hc, he, hr, hw⟩ := hflags
  refine ⟨State.noConfusion, fun hne => absurd rfl hne, ?_, (nomatch ·), ?_, h.closing, ?_, ?_, ?_, ?_,
    ?_, h.shut⟩
  · change s.disconnects + 1 ≤ 1 ∧ s.closes ≤ s.disconnects + 1
    omega
  · intro _ ht
    exact absurd (hquiet.symm.trans ht) Bool.false_ne_true
  · exact fun ht => absurd (hc.symm.trans ht) Bool.false_ne_true
  · exact fun ht => absurd (hr.symm.trans ht) Bool.false_ne_true
  · exact fun ht => absurd (hw.symm.trans ht) Bool.false_ne_true
  · exact fun ht => absurd (he.symm.trans ht) Bool.false_ne_true
  · intro hc
    change s.closes = 1 at hc
    omega

theorem peerEnd (h : Sound s) (hk : s.kept .peerEnd = true) : Sound { s with eof := true } := by
  have hans : s.answered = true ∨ s.state ≠ .hDisconnected ∧ s.reader ≠ .finished := by
    rw [kept, Bool.or_eq_true, decide_eq_true_iff] at hk
    exact hk.symm
  refine { h with ended := fun hd ht => ?_, eof := fun _ => ?_, socket := fun hc => ?_ }
  · rcases hans with ha | ⟨hne, -⟩
    · exact h.closes_of_answered ha hd
    · exact absurd hd hne
  · exact hans.imp_right And.right
  · exact (h.socket hc).imp_right (Or.imp_right fun hw => { hw with })

theorem retain (h : Sound s) (hk : s.kept .retain = true) : Sound { s with users := s.users + 1 } := by
  refine { h with socket := fun hc => ?_ }
  simp only [kept, Bool.or_eq_true, decide_eq_true_iff, Bool.not_eq_true'] at hk
  rcases hk with (hne | ho) | hpos
  · exact absurd hc hne
  · exact .inl ho
  · exact .inr (.inl hpos)

theorem release (h : Sound s) : Sound { s with users := s.users - 1 } :=
  h.frame rfl .inl id fun _ hw =>
    ⟨hw.loops, hw.senders, hw.shutdowns, by rw [hw.users]⟩

theorem goOn (h : Sound s) {reader : Reader} (hold : s.reader ≠ .finished)
    (he : s.eof = true → s.answered = true ∨ reader ≠ .finished) :
    Sound { s with reader := reader } := by
  refine { h with eof := he, socket := fun hc => ?_ }
  exact (h.socket hc).imp_right (Or.imp_right fun hw => absurd hw.reader hold)

theorem loops_winding {c c' : Connection} {l l' : Loop} (hstep : LoopStep c i io l l' c')
    (hl : c.loops[i]? = some l) (h : ∀ x ∈ c.loops, x.winding = true) :
    ∀ x ∈ c'.loops, x.winding = true := by
  have hwind := h l (List.mem_of_getElem? hl)
  rcases hstep.loops with hloops | ⟨rfl, -⟩
  · intro x hx
    rw [hloops] at hx
    rcases List.mem_or_eq_of_mem_set hx with hx | rfl
    · exact h x hx
    · exact hstep.winding hwind
  · cases hwind

theorem writeLoop (h : Sound s) (hnd : s.destroyed = false) (hk : s.kept (.writeLoop i io) = true)
    (hs : s.write i io = some s') : Sound s' := by
  obtain ⟨l, hl, hs⟩ := Option.bind_eq_some_iff.1 hs
  obtain ⟨w, hw, rfl⟩ := Option.map_eq_some_iff.1 hs
  obtain ⟨l', hstep⟩ := stepLoop_spec hw
  by_cases hf : l = .failed
  · subst hf
    obtain rfl := hstep.failed rfl
    rw [if_pos rfl]
    have hloops : w.loops = s.writer.loops.set i .closing := by
      rcases hstep.loops with hloops | ⟨hr, -⟩
      · exact hloops
      · cases hr
    have hstate : w.state = .hDisconnected := by
      rw [hstep.state, if_pos rfl, Connection.handleClose]
      split
      · rfl
      · next hno =>
        have hc := h.connected
        change s.writer.state = .hDisconnected
        change s.writer.state ≠ .hConnecting at hc
        cases hst : s.writer.state with
        | hDisconnected => rfl
        | hConnecting => exact absurd hst hc
        | hConnected => exact absurd (.inl hst) hno
        | hDisconnecting => exact absurd (.inr hst) hno
    refine h.ends hnd s.handleClose.reader s.handleClose.readError hstate ?_ ?_
    · rw [kept, hl] at hk
      simp only [Bool.or_eq_true, Bool.and_eq_true, decide_eq_true_iff] at hk
      refine hk.imp_right fun ⟨⟨hlive, hr⟩, hret⟩ => ⟨hlive, ?_⟩
      obtain ⟨hu, hwl, hsd, hsh⟩ := retired_iff.1 hret
      rw [handleClose_live h.connected hlive]
      exact ⟨hu, rfl, hr, hloops ▸ hwl, hstep.senders ▸ hsd, hsh⟩
    · intro hd hwind
      rw [handleClose_ended hd]
      exact ⟨hwind.users, hwind.owned, hwind.reader, loops_winding hstep hl hwind.loops,
        hstep.senders ▸ hwind.senders, hwind.shutdowns⟩
  · rw [if_neg hf]
    refine h.frame ((hstep.state.trans (if_neg hf))) ?_ ?_ fun _ hwind =>
      ⟨loops_winding hstep hl hwind.loops, hstep.senders ▸ hwind.senders, hwind.shutdowns,
        hwind.users⟩
    · intro he
      refine (hstep.error he).imp_right fun ⟨hl', hio, written, left, hsending⟩ => ⟨?_, fun hd => ?_⟩
      · subst hl' hsending
        rcases hstep.loops with hloops | ⟨hr, -⟩
        · exact hloops ▸ Ledger.mem_set_self hl _
        · cases hr
      · subst hsending hio
        rw [kept, hl] at hk
        simp only [hd, ne_eq, not_true_eq_false, decide_false, Bool.false_or, Bool.or_false] at hk
        exact h.closes_of_answered hk hd
    · intro hfailed
      have hset := Ledger.mem_set_of_ne (b := l') hl hfailed (Ne.symm hf)
      rcases hstep.loops with hloops | ⟨-, hloops⟩
      · exact hloops ▸ hset
      · exact hloops ▸ List.mem_append_left _ hset

theorem readLoop {result : ReadResult} (h : Sound s) (hnd : s.destroyed = false)
    (hk : s.kept (.readLoop result) = true) (hs : s.read result = some s') : Sound s' := by
  have hfails : ∀ readError, s.reader = .reading → s.answered = true ∨
      s.state ≠ .hDisconnected ∧ s.retired s.writer.loops = true →
      Sound { s.handleClose with reader := .finished, readError := readError } := by
    intro readError hreading hans
    have hstate : s.handleClose.writer.state = .hDisconnected := by
      by_cases hd : s.state = .hDisconnected
      · rw [handleClose_ended hd]
        exact hd
      · rw [handleClose_live h.connected hd]
        rfl
    refine h.ends hnd .finished readError hstate ?_ ?_
    · refine hans.imp_right fun ⟨hlive, hret⟩ => ⟨hlive, ?_⟩
      obtain ⟨hu, hl, hsd, hsh⟩ := retired_iff.1 hret
      rw [handleClose_live h.connected hlive]
      exact ⟨hu, rfl, rfl, hl, hsd, hsh⟩
    · intro _ hw
      rw [hw.reader] at hreading
      cases hreading
  rw [read.eq_def] at hs
  split at hs
  · next hr =>
    cases hs
    refine h.goOn (by rw [hr]; exact Reader.noConfusion) fun he => ?_
    rw [kept, hr] at hk
    simp only [he, Bool.not_true, Bool.or_false, Bool.or_eq_true, decide_eq_true_iff] at hk
    rcases hk with hc | ha
    · right
      have hreading : s.reading = true := (h.told (by rw [hc]; exact State.noConfusion)).2.2
      rw [if_pos ⟨hreading, hc⟩]
      exact Reader.noConfusion
    · exact .inl ha
  · next hr =>
    cases hs
    exact h.goOn (by rw [hr]; exact Reader.noConfusion) fun _ => .inr Reader.noConfusion
  · next hr =>
    split at hs
    · cases hs
      rw [kept, hr] at hk
      refine hfails s.handleClose.readError hr ?_
      simpa using hk
    · cases hs
  · next hr =>
    split at hs
    · cases hs
      rw [kept, hr] at hk
      refine hfails true hr ?_
      simpa using hk
    · cases hs
  · next hr =>
    split at hs
    · cases hs
    · next hclosed =>
      cases hs
      refine h.goOn (by rw [hr]; exact Reader.noConfusion) fun _ => .inl ?_
      exact answered_iff.2 (.inr (h.shut (Bool.eq_false_iff.2 hclosed)))
  · cases hs

end Sound

end GenericConnection

end Hical.Tcp
