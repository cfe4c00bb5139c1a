import Hical.Tcp.Closing
import Hical.Tcp.Order

namespace Hical.Tcp
open Ledger

/-- How often a call may still push the entry. -/
def Sender.carries (connected : Bool) (e : WriteEntry) : Sender → Nat
  | entered entry => if connected then [entry].count e else 0
  | checked entry => [entry].count e
  | added entry => [entry].count e
  | _ => 0

/-- How often a loop may still hand the entry to the socket. -/
def Loop.carries (e : WriteEntry) : Loop → Nat
  | popping batch => batch.count e
  | popped batch => batch.count e
  | issuing left => left.count e
  | sending _ left => left.count e
  | escaped _ left => left.count e
  | holding entry => [entry].count e
  | drained entry => [entry].count e
  | _ => 0

/-- How often the entry was, or may be, handed to the socket. -/
def Connection.carries (c : Connection) (e : WriteEntry) : Nat :=
  total (Sender.carries (decide (c.state = .hConnected)) e) c.senders + c.writeQueue.count e +
    total (Loop.carries e) c.loops + c.handed.count e

variable {c c' : Connection}

theorem count_front (entry : WriteEntry) (l : List WriteEntry) (e : WriteEntry) :
    (entry :: l).count e = [entry].count e + l.count e := by
  change ([entry] ++ l).count e = _
  exact List.count_append

theorem carries_setState (c : Connection) {state : State} (h : state ≠ .hConnected) (e : WriteEntry) :
    { c with state := state }.carries e ≤ c.carries e := by
  have hle := total_mono (f := Sender.carries (decide (state = .hConnected)) e)
    (g := Sender.carries (decide (c.state = .hConnected)) e) (fun x => by
      cases x with
      | entered entry =>
        rw [Sender.carries, decide_eq_false h]
        exact Nat.zero_le _
      | _ => exact Nat.le_refl _) c.senders
  unfold Connection.carries
  dsimp only
  omega

theorem carries_tryStartWrite (c : Connection) (e : WriteEntry) :
    c.tryStartWrite.carries e = c.carries e := by
  rw [Connection.tryStartWrite]
  split
  · rfl
  · unfold Connection.carries
    dsimp only
    rw [total_append, total_cons, total_nil]
    rfl

theorem carries_setLoop {l : Loop} (hl : c.loops[i]? = some l) (l' : Loop) (queue handed : List WriteEntry)
    (e : WriteEntry)
    (h : queue.count e + l'.carries e + handed.count e ≤
      c.writeQueue.count e + l.carries e + c.handed.count e)
    (hs : c'.senders = c.senders) (hst : c'.state = c.state) (hq : c'.writeQueue = queue)
    (hh : c'.handed = handed) (hloops : c'.loops = c.loops.set i l') : c'.carries e ≤ c.carries e := by
  have hset := total_set (f := Loop.carries e) hl l'
  rw [Connection.carries, Connection.carries, hs, hst, hq, hh, hloops]
  omega

theorem carries_stepLoop {l : Loop} (hl : c.loops[i]? = some l) (h : c.stepLoop i io l = some c')
    (e : WriteEntry) : c'.carries e ≤ c.carries e := by
  cases l with
  | spawned =>
    cases h
    exact carries_setLoop hl (.popping []) c.writeQueue c.handed e (Nat.le_refl _) rfl rfl rfl rfl rfl
  | popping batch =>
    rw [Connection.stepLoop.eq_def] at h
    dsimp only at h
    split at h
    · next entry queue hq =>
      cases h
      refine carries_setLoop hl _ queue c.handed e ?_ rfl rfl rfl rfl rfl
      have hcount : Loop.carries e (if (batch ++ [entry]).length ≥ kMaxDrainBatch
          then .popped (batch ++ [entry]) else .popping (batch ++ [entry])) =
          batch.count e + [entry].count e := by
        split <;> exact List.count_append
      rw [hcount]
      change queue.count e + _ + _ ≤ _ + batch.count e + _
      rw [hq, count_front entry queue]
      omega
    · next hq =>
      cases h
      refine carries_setLoop hl _ c.writeQueue c.handed e ?_ rfl rfl rfl rfl rfl
      split
      · exact Nat.add_le_add_right (Nat.le_add_right _ _) _
      · exact Nat.le_refl _
  | popped batch =>
    cases h
    exact carries_setLoop hl (.issuing batch) c.writeQueue c.handed e (Nat.le_refl _) rfl rfl rfl rfl rfl
  | issuing left =>
    cases left with
    | nil =>
      cases h
      exact carries_setLoop hl (.popping []) c.writeQueue c.handed e (Nat.le_refl _) rfl rfl rfl rfl rfl
    | cons entry left =>
      cases h
      have happ := congrArg (List.count e) (nextWrite_append (entry :: left))
      rw [List.count_append] at happ
      refine carries_setLoop hl (.sending (Connection.nextWrite (entry :: left)).1
        (Connection.nextWrite (entry :: left)).2) c.writeQueue
        (c.hand (Connection.nextWrite (entry :: left)).1).handed e ?_ ?_ ?_ ?_ rfl ?_
      · rw [Connection.hand]
        change _ + List.count e (Connection.nextWrite (entry :: left)).2 + _ ≤
          _ + List.count e (entry :: left) + _
        split
        · omega
        · rw [List.count_append]
          omega
      all_goals
        dsimp only [Connection.setLoop, Connection.hand]
        split <;> rfl
  | sending written left =>
    have hissuing : ∀ entries, ((c.deliver entries).setLoop i (.issuing left)).carries e ≤
        c.carries e := by
      intro entries
      refine carries_setLoop hl (.issuing left) c.writeQueue c.handed e (Nat.le_refl _) ?_ ?_ ?_ ?_ ?_
      all_goals
        dsimp only [Connection.setLoop, Connection.deliver]
        split <;> rfl
    change c.stepWrite i written left io = some c' at h
    rw [Connection.stepWrite.eq_def] at h
    split at h
    · cases h
      refine carries_setLoop hl .failed c.writeQueue c.handed e ?_ rfl rfl rfl rfl rfl
      exact Nat.add_le_add_right (Nat.le_add_right _ _) _
    · split at h
      · split at h
        · cases h
          exact carries_setLoop hl (.escaped _ left) c.writeQueue c.handed e (Nat.le_refl _)
            rfl rfl rfl rfl rfl
        · cases h
      · cases h
    · split at h
      · split at h
        · cases h
          exact hissuing _
        · cases h
      · cases h
        exact hissuing _
  | emptied =>
    cases h
    exact carries_setLoop hl .rechecking c.writeQueue c.handed e (Nat.le_refl _) rfl rfl rfl rfl rfl
  | rechecking =>
    rw [Connection.stepLoop.eq_def] at h
    dsimp only at h
    split at h
    · next entry queue hq =>
      cases h
      refine carries_setLoop hl (.holding entry) queue c.handed e ?_ rfl rfl rfl rfl rfl
      change queue.count e + [entry].count e + _ ≤ _ + 0 + _
      rw [hq, count_front entry queue]
      omega
    · cases h
      exact carries_setLoop hl .finished c.writeQueue c.handed e (Nat.le_refl _) rfl rfl rfl rfl rfl
  | holding entry =>
    cases h
    refine carries_setLoop hl .restarting (c.writeQueue ++ [entry]) c.handed e ?_ rfl rfl rfl rfl rfl
    change (c.writeQueue ++ [entry]).count e + 0 + _ ≤ _ + [entry].count e + _
    rw [List.count_append]
    omega
  | restarting =>
    cases h
    rw [carries_tryStartWrite]
    exact carries_setLoop hl .finished c.writeQueue c.handed e (Nat.le_refl _) rfl rfl rfl rfl rfl
  | failed =>
    cases h
    have hclose : c.handleClose.carries e ≤ c.carries e ∧ c.handleClose.loops = c.loops := by
      rw [Connection.handleClose]
      split
      · exact ⟨carries_setState c State.noConfusion e, rfl⟩
      · exact ⟨Nat.le_refl _, rfl⟩
    have hl' : c.handleClose.loops[i]? = some .failed := hclose.2 ▸ hl
    have hset : (c.handleClose.setLoop i .closing).carries e ≤ c.handleClose.carries e :=
      carries_setLoop hl' .closing c.handleClose.writeQueue c.handleClose.handed e (Nat.le_refl _)
        rfl rfl rfl rfl rfl
    exact hset.trans hclose.1
  | closing =>
    cases h
    exact carries_setLoop hl .draining c.writeQueue c.handed e (Nat.le_refl _) rfl rfl rfl rfl rfl
  | draining =>
    rw [Connection.stepLoop.eq_def] at h
    dsimp only at h
    split at h
    · next entry queue hq =>
      cases h
      refine carries_setLoop hl (.drained entry) queue c.handed e ?_ rfl rfl rfl rfl rfl
      change queue.count e + [entry].count e + _ ≤ _ + 0 + _
      rw [hq, count_front entry queue]
      omega
    · cases h
      exact carries_setLoop hl .finished c.writeQueue c.handed e (Nat.le_refl _) rfl rfl rfl rfl rfl
  | drained entry =>
    cases h
    refine carries_setLoop hl .draining c.writeQueue c.handed e ?_ rfl rfl rfl rfl rfl
    exact Nat.add_le_add_right (Nat.le_add_right _ _) _
  | finished => cases h
  | escaped written left => cases h

theorem carries_stepSender {x : Sender} (hx : c.senders[i]? = some x)
    (h : c.stepSender i x = some c') (e : WriteEntry) : c'.carries e ≤ c.carries e := by
  have hset : ∀ (x' : Sender) (c' : Connection),
      c'.senders = c.senders.set i x' → c'.state = c.state → c'.loops = c.loops →
      c'.handed = c.handed →
      c'.writeQueue.count e + x'.carries (decide (c.state = .hConnected)) e ≤
        c.writeQueue.count e + x.carries (decide (c.state = .hConnected)) e →
      c'.carries e ≤ c.carries e := by
    intro x' c' hs hst hl hh hle
    have hset := total_set (f := Sender.carries (decide (c.state = .hConnected)) e) hx x'
    rw [Connection.carries, Connection.carries, hs, hst, hl, hh]
    omega
  cases x with
  | entered entry =>
    cases h
    refine hset _ _ rfl rfl rfl rfl (Nat.add_le_add_left ?_ _)
    by_cases hc : c.state = .hConnected
    · rw [if_pos hc, Sender.carries, Sender.carries, decide_eq_true hc]
      exact Nat.le_refl _
    · rw [if_neg hc]
      exact Nat.zero_le _
  | checked entry =>
    cases h
    exact hset (.added entry) _ rfl rfl rfl rfl (Nat.le_refl _)
  | added entry =>
    cases h
    refine hset .pushed _ rfl rfl rfl rfl ?_
    change List.count e (c.writeQueue ++ [entry]) + 0 ≤ _ + List.count e [entry]
    rw [List.count_append]
    exact Nat.le_refl _
  | pushed =>
    cases h
    have hstart := carries_tryStartWrite (c.setSender i .returned) e
    have hcomm : c.tryStartWrite.setSender i .returned = (c.setSender i .returned).tryStartWrite := by
      rw [Connection.tryStartWrite, Connection.tryStartWrite]
      split <;> rename_i hw <;> simp [Connection.setSender, hw]
    rw [hcomm, hstart]
    exact hset .returned _ rfl rfl rfl rfl (Nat.le_refl _)
  | returned => cases h

namespace GenericConnection
variable {s s' : GenericConnection}

/-- What was, or may be, handed to the socket was passed to `send` while the state was
`hConnected`. -/
def Early (s : GenericConnection) : Prop := ∀ e, s.writer.carries e ≤ s.early.count e

theorem Early.setState (h : s.Early) {state : State} (hne : state ≠ .hConnected) :
    (s.setState state).Early := fun e => (carries_setState s.writer hne e).trans (h e)

theorem Early.handleClose (h : s.Early) : s.handleClose.Early := by
  rw [GenericConnection.handleClose]
  split
  · exact h.setState State.noConfusion
  · exact h

theorem Early.send (h : s.Early) (entry : WriteEntry) : Early { s with
    writer := { s.writer with senders := s.writer.senders ++ [.entered entry] }
    early := if s.state = .hConnected then s.early ++ [entry] else s.early } := by
  intro e
  have hle := h e
  unfold Connection.carries at hle ⊢
  dsimp only
  rw [total_append, total_cons, total_nil]
  by_cases hc : s.writer.state = .hConnected
  · have hone : Sender.carries true e (.entered entry) = [entry].count e := rfl
    have hc' : s.state = .hConnected := hc
    rw [decide_eq_true hc] at hle ⊢
    rw [if_pos hc', List.count_append, hone]
    omega
  · have hzero : Sender.carries false e (.entered entry) = 0 := rfl
    have hc' : ¬ s.state = .hConnected := hc
    rw [decide_eq_false hc] at hle ⊢
    rw [if_neg hc', hzero]
    omega

theorem Early.step (h : s.Early) {label : Label} (hs : s.step label = some s') : s'.Early := by
  cases label with
  | send entry =>
    obtain ⟨-, rfl⟩ := Option.ite_some_none_eq_some.1 hs
    exact h.send entry
  | sender i =>
    obtain ⟨x, hx, hs⟩ := Option.bind_eq_some_iff.1 hs
    obtain ⟨w, hw, rfl⟩ := Option.map_eq_some_iff.1 hs
    exact fun e => (carries_stepSender hx hw e).trans (h e)
  | writeLoop i io =>
    rw [GenericConnection.step] at hs
    split at hs
    · cases hs
    · obtain ⟨l, hl, hs⟩ := Option.bind_eq_some_iff.1 hs
      obtain ⟨w, hw, rfl⟩ := Option.map_eq_some_iff.1 hs
      have hearly : (if l = .failed then s.handleClose else s).early = s.early := by
        rw [GenericConnection.handleClose]
        split
        · split <;> rfl
        · rfl
      intro e
      change w.carries e ≤ (if l = .failed then s.handleClose else s).early.count e
      rw [hearly]
      exact (carries_stepLoop hl hw e).trans (h e)
  | readLoop result =>
    rw [GenericConnection.step] at hs
    split at hs
    · cases hs
    · rw [read.eq_def] at hs
      split at hs
      · cases hs
        exact h
      · cases hs
        exact h
      · split at hs
        · cases hs
          exact h.handleClose
        · cases hs
      · split at hs
        · cases hs
          exact h.handleClose
        · cases hs
      · split at hs
        · cases hs
        · cases hs
          exact h
      · cases hs
  | shutdown | connectDestroyed | retain =>
    obtain ⟨-, rfl⟩ := Option.ite_some_none_eq_some.1 hs
    exact h
  | shutdownStep i =>
    obtain ⟨x, -, hs⟩ := Option.bind_eq_some_iff.1 hs
    cases x with
    | loaded =>
      cases hs
      exact h.setState State.noConfusion
    | returned => cases hs
    | _ =>
      cases hs
      exact h
  | close =>
    obtain ⟨-, rfl⟩ := Option.ite_some_none_eq_some.1 hs
    rw [close]
    split
    · exact h.setState State.noConfusion
    · exact h
  | closeInLoop =>
    obtain ⟨-, ⟨⟩⟩ := Option.ite_none_left_eq_some.1 hs
    exact Early.handleClose (s := { s with closing := s.closing - 1, socketOpen := false }) h
  | destroyLoad =>
    obtain ⟨-, ⟨⟩⟩ := Option.ite_none_left_eq_some.1 hs
    exact h
  | destroyStore =>
    obtain ⟨-, rfl⟩ := Option.ite_some_none_eq_some.1 hs
    exact h.setState State.noConfusion
  | peerEnd =>
    cases hs
    exact h
  | release =>
    cases hs
    exact h

end GenericConnection

end Hical.Tcp

namespace Hical.Tcp

namespace GenericConnection
variable {s s' : GenericConnection}

theorem Sound.step (h : Sound s) {label : Label} (hk : s.kept label = true)
    (hs : s.step label = some s') : Sound s' := by
  cases label with
  | send entry =>
    obtain ⟨-, rfl⟩ := Option.ite_some_none_eq_some.1 hs
    exact h.send entry _
  | sender i =>
    obtain ⟨x, hx, hs⟩ := Option.bind_eq_some_iff.1 hs
    obtain ⟨w, hw, rfl⟩ := Option.map_eq_some_iff.1 hs
    exact h.sender hx hw
  | writeLoop i io =>
    rw [GenericConnection.step] at hs
    split at hs
    · cases hs
    · next hd => exact h.writeLoop (Bool.eq_false_iff.2 hd) hk hs
  | readLoop result =>
    rw [GenericConnection.step] at hs
    split at hs
    · cases hs
    · next hd => exact h.readLoop (Bool.eq_false_iff.2 hd) hk hs
  | shutdown =>
    obtain ⟨-, rfl⟩ := Option.ite_some_none_eq_some.1 hs
    exact h.shutdown
  | shutdownStep i =>
    obtain ⟨x, hx, hs⟩ := Option.bind_eq_some_iff.1 hs
    exact h.stepShutdown hx hk hs
  | close =>
    obtain ⟨-, rfl⟩ := Option.ite_some_none_eq_some.1 hs
    exact h.closeCall hk
  | closeInLoop =>
    obtain ⟨hd, ⟨⟩⟩ := Option.ite_none_left_eq_some.1 hs
    have hd : s.destroyed = false ∧ 0 < s.closing := by
      simpa [Nat.pos_iff_ne_zero] using hd
    exact h.closeInLoop hd.1 hd.2
  | connectDestroyed =>
    obtain ⟨-, rfl⟩ := Option.ite_some_none_eq_some.1 hs
    exact h.frame rfl .inl id fun _ hw => ⟨hw.loops, hw.senders, hw.shutdowns, hw.users⟩
  | destroyLoad =>
    obtain ⟨-, ⟨⟩⟩ := Option.ite_none_left_eq_some.1 hs
    exact h.destroyLoad _
  | destroyStore =>
    obtain ⟨hd, rfl⟩ := Option.ite_some_none_eq_some.1 hs
    exact h.destroyStore hd hk
  | peerEnd =>
    cases hs
    exact h.peerEnd hk
  | retain =>
    obtain ⟨-, rfl⟩ := Option.ite_some_none_eq_some.1 hs
    exact h.retain hk
  | release =>
    cases hs
    exact h.release

/-- A connection behind `connectEstablished`. -/
def established (tls : Bool) (users : Nat) : GenericConnection := { tls, users }

theorem sound_established (tls : Bool) (users : Nat) : Sound (established tls users) := by
  refine ⟨State.noConfusion, fun _ => ⟨rfl, rfl, rfl⟩, ⟨Nat.zero_le _, Nat.le_refl _⟩, (nomatch ·),
    (nomatch ·), (nomatch ·), (nomatch ·), (nomatch ·), (nomatch ·), (nomatch ·), (nomatch ·),
    (nomatch ·)⟩

theorem early_established (tls : Bool) (users : Nat) : (established tls users).Early :=
  fun _ => Nat.le_refl _

theorem early_run (h : s.Early) {labels : List Label} (hr : s.run labels = some s') : s'.Early := by
  exact Runs.accepted (P := fun s _ => s.Early) (fun _ _ _ _ h hs => h.step hs) h hr

theorem sound_run (h : Sound s) {labels : List Label} (hk : s.keptRun labels = true)
    (hr : s.run labels = some s') : Sound s' := by
  refine (Runs.accepted (P := fun s labels => Sound s ∧ s.keptRun labels = true) ?_ ⟨h, hk⟩ hr).1
  rintro s label s' labels ⟨h, hk⟩ hs
  rw [keptRun, hs, Bool.and_eq_true] at hk
  exact ⟨h.step hk.1 hs, hk.2⟩

/-- What the close protocol promises. -/
structure Closes (s : GenericConnection) : Prop where
  disconnects : s.disconnects ≤ 1
  closes : s.closes ≤ 1
  closed : s.Quiescent → s.triggered = true →
    s.state = .hDisconnected ∧ s.disconnects = 1 ∧ s.closes = 1 ∧ s.socketClosed = true
  early : ∀ e, s.writer.handed.count e ≤ s.early.count e

/-- In a run whose steps all keep it, the close protocol holds in every state. -/
theorem close_protocol (tls : Bool) (users : Nat) (labels : List Label)
    (hk : (established tls users).keptRun labels = true)
    (hr : (established tls users).run labels = some s) : s.Closes := by
  have h := sound_run (sound_established tls users) hk hr
  have hearly := early_run (early_established tls users) hr
  have honce := h.once
  exact ⟨honce.1, by omega, h.closed, fun e => (Nat.le_add_left _ _).trans (hearly e)⟩

def closeOnly : List Label := [.readLoop .data, .close, .closeInLoop, .readLoop .aborted]

/-- The peer ends its stream, and nobody but the owner keeps the connection. -/
def endOnly : List Label := [.readLoop .data, .release, .peerEnd, .readLoop .eof]

def errorOnly : List Label := [.readLoop .data, .release, .readLoop .error]

/-- What was sent is written before `shutdown` is called, and then the peer ends its stream. -/
def sendThenShutdown : List Label :=
  [.readLoop .data, .send (.memory 0 1)] ++ List.replicate 4 (.sender 0) ++
    List.replicate 10 (.writeLoop 0 (.done 0)) ++ .shutdown :: List.replicate 3 (.shutdownStep 0) ++
    [.release, .peerEnd, .readLoop .eof]

theorem close_protocol_closings :
    (∃ s, (established false 1).run closeOnly = some s ∧ s.state = .hDisconnected ∧ s.Closes) ∧
    (∃ s, (established false 1).run endOnly = some s ∧ s.state = .hDisconnected ∧ s.Closes) ∧
    (∃ s, (established false 1).run errorOnly = some s ∧ s.state = .hDisconnected ∧ s.Closes) ∧
    ∃ s, (established false 1).run sendThenShutdown = some s ∧ s.state = .hDisconnected ∧ s.Closes := by
  refine ⟨?_, ?_, ?_, ?_⟩
  · exact ⟨_, rfl, rfl, close_protocol false 1 closeOnly rfl rfl⟩
  · exact ⟨_, rfl, rfl, close_protocol false 1 endOnly rfl rfl⟩
  · exact ⟨_, rfl, rfl, close_protocol false 1 errorOnly rfl rfl⟩
  · exact ⟨_, rfl, rfl, close_protocol false 1 sendThenShutdown rfl rfl⟩

/-- A call of `close` behind a call of `shutdown`. -/
def shutdownThenClose : List Label :=
  [.readLoop .data, .shutdown, .shutdownStep 0, .shutdownStep 0, .shutdownStep 0, .close]

/-- `shutdown` reads the state, the peer ends the stream, and `shutdown` goes on; then a write
fails. -/
def lateStore : List Label :=
  [.readLoop .data, .send (.memory 0 1)] ++ List.replicate 4 (.sender 0) ++
    List.replicate 5 (.writeLoop 0 (.done 0)) ++
    [.shutdown, .shutdownStep 0, .peerEnd, .readLoop .eof, .shutdownStep 0] ++
    List.replicate 2 (.writeLoop 0 .systemError)

theorem close_protocol_broken :
    (∃ s, (established false 1).run shutdownThenClose = some s ∧ s.Quiescent ∧
      s.closeCalled = true ∧ s.state = .hDisconnecting ∧ s.closes = 0 ∧ s.socketClosed = false) ∧
    ∃ s, (established false 1).run lateStore = some s ∧ s.disconnects = 2 ∧ s.closes = 2 := by
  refine ⟨⟨_, rfl, ⟨.inr ⟨rfl, rfl, rfl⟩, ?_, ?_, ?_, rfl, rfl, rfl⟩, rfl, rfl, rfl, rfl⟩,
    _, rfl, rfl, rfl⟩
  · exact fun _ hl => nomatch hl
  · exact fun _ hx => nomatch hx
  · intro x hx
    left
    exact List.mem_singleton.1 hx

end GenericConnection

end Hical.Tcp
