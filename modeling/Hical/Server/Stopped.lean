import Hical.Server.Reserved

namespace Hical.Limit

/-- `gracefulStop` posted `beginGracefulStopOnLoop`. -/
def Caller.graceful : Caller → Bool
  | posted => true
  | beginning => true
  | waiting => true
  | _ => false

/-- The call may still come to `stop`. -/
def Caller.pursues : Caller → Bool
  | stopping => true
  | c => c.graceful

def Acceptor.atRest : Acceptor → Bool
  | waiting => true
  | closed => true
  | _ => false

def Guard.atRest : Guard → Bool
  | unloaded _ => false
  | last => false
  | _ => true

def Caller.atRest : Caller → Bool
  | waiting => true
  | done => true
  | _ => false

namespace HttpServer

/-- No step is pending; sockets, sessions and `shutdownTimer_` may wait. -/
structure Quiescent (s : HttpServer) : Prop where
  acceptors : ∀ a ∈ s.acceptors, a.atRest = true
  guards : ∀ g ∈ s.guards, g.atRest = true
  callers : ∀ c ∈ s.callers, c.atRest = true

/-- A socket over the limit takes the counter to zero behind the back of
`beginGracefulStopOnLoop`. -/
def givesLastBack (s : HttpServer) : Label → Bool
  | .accept i _ _ =>
    match s.acceptors[i]? with
    | some (.added _ prev) => s.overLimit prev && decide (s.activeConnections = 1) && s.running &&
        decide (.waiting ∈ s.callers)
    | _ => false
  | _ => false

/-- No step of the run does so. -/
def Orderly (s : HttpServer) : List Label → Prop
  | [] => True
  | label :: labels => s.givesLastBack label = false ∧ Orderly (s.step label) labels

def decidableOrderly (s : HttpServer) : (labels : List Label) → Decidable (s.Orderly labels)
  | [] => inferInstanceAs (Decidable True)
  | label :: labels =>
    have := decidableOrderly (s.step label) labels
    inferInstanceAs (Decidable (_ ∧ _))

instance (s : HttpServer) (labels : List Label) : Decidable (s.Orderly labels) :=
  s.decidableOrderly labels

end HttpServer

/-- A server that drains has a call that will stop it, or waits for its last connection. -/
structure Watched (s : HttpServer) : Prop where
  stopped : .stopped ∈ s.callers → s.running = false
  graceful : ∀ c ∈ s.callers, c.graceful = true → s.draining = true
  pursued : s.running = true → s.draining = true → ∃ c ∈ s.callers, c.pursues = true
  watched : s.running = true → .waiting ∈ s.callers →
    0 < s.activeConnections ∨ .last ∈ s.guards ∨ .stopping ∈ s.callers

variable {s s' : HttpServer} {i j k : Nat} {g : Guard} {c : Caller}

namespace Watched

theorem frame (h : Watched s) (hr : s'.running = s.running) (hd : s'.draining = s.draining)
    (hc : s'.callers = s.callers)
    (hw : s.running = true → .waiting ∈ s.callers → 0 < s.activeConnections ∨ .last ∈ s.guards →
      0 < s'.activeConnections ∨ .last ∈ s'.guards) : Watched s' := by
  refine ⟨?_, ?_, ?_, ?_⟩
  · rw [hc, hr]
    exact h.stopped
  · rw [hc, hd]
    exact h.graceful
  · rw [hc, hr, hd]
    exact h.pursued
  · rw [hc, hr]
    intro hrun hwait
    rcases h.watched hrun hwait with ha | hl | hstop
    · exact (hw hrun hwait (.inl ha)).elim .inl (.inr ∘ .inl)
    · exact (hw hrun hwait (.inr hl)).elim .inl (.inr ∘ .inl)
    · exact .inr (.inr hstop)

theorem accept (h : Watched s) (i : Nat) (answer : Answer) (loop : Nat)
    (hclean : s.givesLastBack (.accept i answer loop) = false) : Watched (s.accept i answer loop) := by
  have hset : ∀ i a, Watched (s.setAcceptor i a) :=
    fun _ _ => h.frame rfl rfl rfl fun _ _ => id
  unfold HttpServer.accept
  split
  · exact hset ..
  · cases answer with
    | socket | failed | aborted => exact hset ..
  · exact hset ..
  · exact hset ..
  · exact h.frame rfl rfl rfl fun _ _ _ => .inl (Nat.succ_pos _)
  · next id prev hi =>
    split
    · next hover =>
      refine h.frame rfl rfl rfl fun hrun hwait hw => ?_
      refine hw.imp_left fun hpos => ?_
      have hne : s.activeConnections ≠ 1 := by
        intro h1
        rw [HttpServer.givesLastBack, hi] at hclean
        simp [hover, h1, hrun, hwait] at hclean
      change 0 < s.activeConnections - 1
      omega
    · refine h.frame rfl rfl rfl fun _ _ => Or.imp_right fun hl => ?_
      exact List.mem_append_left _ hl
  · exact h

theorem move (h : Watched s) (k : Nat) : Watched (s.move k) := by
  rw [HttpServer.move]
  split
  · next id loop hk =>
    refine h.frame rfl rfl rfl fun _ _ => Or.imp_right fun hl => ?_
    exact List.mem_append_left _ (Ledger.mem_set_of_ne hk hl Guard.noConfusion)
  · refine h.frame rfl rfl rfl fun _ _ => Or.imp_right fun hl => ?_
    exact List.mem_append_left _ hl
  · exact h

theorem call (h : Watched s) (hc : c.graceful = false) (hs : c ≠ .stopped) : Watched (s.call c) := by
  have hmem : ∀ x ∈ s.callers ++ [c], x ∈ s.callers ∨ x = c := by
    intro x hx
    exact (List.mem_append.1 hx).imp_right List.mem_singleton.1
  refine ⟨?_, ?_, ?_, ?_⟩
  · intro hstop
    rcases hmem _ hstop with hm | rfl
    · exact h.stopped hm
    · exact absurd rfl hs
  · intro x hx hg
    rcases hmem x hx with hm | rfl
    · exact h.graceful x hm hg
    · rw [hc] at hg
      cases hg
  · intro hrun hd
    obtain ⟨x, hx, hp⟩ := h.pursued hrun hd
    exact ⟨x, List.mem_append_left _ hx, hp⟩
  · intro hrun hwait
    rcases hmem _ hwait with hm | rfl
    · exact (h.watched hrun hm).imp_right (Or.imp_right (List.mem_append_left _))
    · cases hc

theorem destroy (h : Watched s) (k : Nat) : Watched (s.destroy k) := by
  have hset : ∀ {g : Guard} (g' : Guard), s.guards[k]? = some g → g ≠ .last →
      Watched (s.setGuard k g') := by
    intro g g' hk hne
    refine h.frame rfl rfl rfl fun _ _ => Or.imp_right fun hl => ?_
    exact Ledger.mem_set_of_ne hk hl hne.symm
  rw [HttpServer.destroy]
  split
  · next id loop hk =>
    refine h.frame rfl rfl rfl fun _ _ => Or.imp_right fun hl => ?_
    exact Ledger.mem_set_of_ne hk hl Guard.noConfusion
  · next hk => exact hset _ hk Guard.noConfusion
  · next id hk =>
    refine h.frame rfl rfl rfl fun _ _ hw => ?_
    by_cases h1 : s.activeConnections = 1
    · rw [if_pos h1]
      exact .inr (Ledger.mem_set_self hk _)
    · refine hw.imp (fun hpos => ?_) fun hl => Ledger.mem_set_of_ne hk hl Guard.noConfusion
      change 0 < s.activeConnections - 1
      omega
  · next hk =>
    split
    · have hcall := h.call (c := .stopping) rfl Caller.noConfusion
      refine ⟨hcall.stopped, hcall.graceful, hcall.pursued, fun _ _ => .inr (.inr ?_)⟩
      exact List.mem_append_right _ List.mem_cons_self
    · next hd =>
      refine h.frame rfl rfl rfl fun _ hwait => ?_
      exact absurd (h.graceful _ hwait rfl) hd
  · exact h

theorem setCaller (h : Watched s) (hj : s.callers[j]? = some c) (c' : Caller) {running draining : Bool}
    (hrun : running = true → s.running = true ∧ c ≠ .stopping)
    (hdrain : s.draining = true → draining = true) (hstop : c' = .stopped → running = false)
    (hgraceful : c'.graceful = true → draining = true)
    (hpursued : running = true → draining = true →
      c'.pursues = true ∨ s.draining = true ∧ c.pursues = false)
    (hwait : c' = .waiting → 0 < s.activeConnections) :
    Watched ({ s with running := running, draining := draining }.setCaller j c') := by
  refine ⟨?_, ?_, ?_, ?_⟩
  · intro hm
    rcases List.mem_or_eq_of_mem_set hm with hm | hm
    · by_contra hr
      have hs := (hrun (eq_true_of_ne_false hr)).1
      rw [h.stopped hm] at hs
      cases hs
    · exact hstop hm.symm
  · intro x hx hg
    rcases List.mem_or_eq_of_mem_set hx with hx | rfl
    · exact hdrain (h.graceful x hx hg)
    · exact hgraceful hg
  · intro hr hd
    rcases hpursued hr hd with hp | ⟨hd, hp⟩
    · exact ⟨c', Ledger.mem_set_self hj c', hp⟩
    · obtain ⟨x, hx, hx'⟩ := h.pursued (hrun hr).1 hd
      refine ⟨x, Ledger.mem_set_of_ne hj hx ?_, hx'⟩
      rintro rfl
      rw [hp] at hx'
      cases hx'
  · intro hr hm
    rcases List.mem_or_eq_of_mem_set hm with hm | hm
    · rcases h.watched (hrun hr).1 hm with ha | hl | hs
      · exact .inl ha
      · exact .inr (.inl hl)
      · exact .inr (.inr (Ledger.mem_set_of_ne hj hs (hrun hr).2.symm))
    · exact .inl (hwait hm.symm)

theorem proceed (h : Watched s) (j : Nat) : Watched (s.proceed j) := by
  rw [HttpServer.proceed]
  split
  · next hj =>
    split
    · exact h.setCaller hj .stopped (fun hr => by cases hr) id (fun _ => rfl)
        (fun hg => by cases hg) (fun hr => by cases hr) (fun hw => by cases hw)
    · next hr =>
      exact h.setCaller hj .done (fun hr' => absurd hr' hr) id (fun hs => by cases hs)
        (fun hg => by cases hg) (fun hr' => absurd hr' hr) (fun hw => by cases hw)
  · next hj =>
    have hr := h.stopped (List.mem_of_getElem? hj)
    exact h.setCaller hj .done (fun hr' => ⟨hr', Caller.noConfusion⟩) (fun _ => rfl)
      (fun hs => by cases hs) (fun hg => by cases hg)
      (fun hr' => absurd (hr.symm.trans hr') Bool.false_ne_true) (fun hw => by cases hw)
  · next hj =>
    have hgo : ∀ c' : Caller, c' ≠ .stopped → c'.graceful = false → Watched (s.setCaller j c') := by
      intro c' hs hg
      refine h.setCaller hj c' (fun hr => ⟨hr, Caller.noConfusion⟩) id (fun he => absurd he hs)
        (fun hg' => absurd (hg.symm.trans hg') Bool.false_ne_true) (fun _ hd => .inr ⟨hd, rfl⟩) ?_
      rintro rfl
      cases hg
    split
    · exact hgo .draining Caller.noConfusion rfl
    · exact hgo .done Caller.noConfusion rfl
  · next hj =>
    split
    · exact h.setCaller hj .done (fun hr => ⟨hr, Caller.noConfusion⟩) id (fun hs => by cases hs)
        (fun hg => by cases hg) (fun _ hd => .inr ⟨hd, rfl⟩) (fun hw => by cases hw)
    · exact h.setCaller hj .posted (fun hr => ⟨hr, Caller.noConfusion⟩) (fun _ => rfl)
        (fun hs => by cases hs) (fun _ => rfl) (fun _ _ => .inl rfl) (fun hw => by cases hw)
  · next hj =>
    have hd := h.graceful _ (List.mem_of_getElem? hj) rfl
    split
    · exact h.setCaller hj .beginning (fun hr => ⟨hr, Caller.noConfusion⟩) id (fun hs => by cases hs)
        (fun _ => hd) (fun _ _ => .inl rfl) (fun hw => by cases hw)
    · next hr =>
      exact h.setCaller hj .done (fun hr => ⟨hr, Caller.noConfusion⟩) id (fun hs => by cases hs)
        (fun hg => by cases hg) (fun hr' => absurd hr' hr) (fun hw => by cases hw)
  · next hj =>
    have hd := h.graceful _ (List.mem_of_getElem? hj) rfl
    split
    · exact h.setCaller hj .stopping (fun hr => ⟨hr, Caller.noConfusion⟩) id (fun hs => by cases hs)
        (fun hg => by cases hg) (fun _ _ => .inl rfl) (fun hw => by cases hw)
    · next ha =>
      exact h.setCaller hj .waiting (fun hr => ⟨hr, Caller.noConfusion⟩) id (fun hs => by cases hs)
        (fun _ => hd) (fun _ _ => .inl rfl) (fun _ => Nat.pos_of_ne_zero ha)
  · next hj =>
    exact h.setCaller hj .stopping (fun hr => ⟨hr, Caller.noConfusion⟩) id (fun hs => by cases hs)
      (fun hg => by cases hg) (fun _ _ => .inl rfl) (fun hw => by cases hw)
  · exact h

theorem step (h : Watched s) (label : HttpServer.Label) (hclean : s.givesLastBack label = false) :
    Watched (s.step label) := by
  cases label with
  | accept i answer loop => exact h.accept i answer loop hclean
  | move k => exact h.move k
  | destroy k => exact h.destroy k
  | stop | gracefulStop => exact h.call rfl Caller.noConfusion
  | caller j => exact h.proceed j

/-- Without a step pending, a server that drains without connections was stopped. -/
theorem quiescent (h : Watched s) (hq : s.Quiescent) (hd : s.draining = true)
    (ha : s.activeConnections = 0) : s.running = false := by
  by_contra hr
  have hrun := eq_true_of_ne_false hr
  obtain ⟨c, hc, hp⟩ := h.pursued hrun hd
  have hrest := hq.callers c hc
  have hwait : c = .waiting := by
    cases c with
    | waiting => rfl
    | done => cases hp
    | _ => cases hrest
  subst hwait
  rcases h.watched hrun hc with hpos | hl | hs
  · rw [ha] at hpos
    cases hpos
  · cases hq.guards _ hl
  · cases hq.callers _ hs

theorem start (maxConnections loops acceptors : Nat) :
    Watched (.start maxConnections loops acceptors) where
  stopped hm := nomatch hm
  graceful _ hc := nomatch hc
  pursued _ hd := nomatch hd
  watched _ hm := nomatch hm

end Watched

theorem maxConnections_step (s : HttpServer) (label : HttpServer.Label) :
    (s.step label).maxConnections = s.maxConnections := by
  cases label with
  | accept i answer loop =>
    change (s.accept i answer loop).maxConnections = _
    unfold HttpServer.accept
    split
    all_goals first | rfl | (split <;> rfl)
  | move k =>
    change (s.move k).maxConnections = _
    rw [HttpServer.move]
    split <;> rfl
  | destroy k =>
    change (s.destroy k).maxConnections = _
    rw [HttpServer.destroy]
    split
    all_goals first | rfl | (split <;> rfl)
  | stop => rfl
  | gracefulStop => rfl
  | caller j =>
    change (s.proceed j).maxConnections = _
    rw [HttpServer.proceed]
    split
    all_goals first | rfl | (split <;> rfl)

theorem maxConnections_run (s : HttpServer) (labels : List HttpServer.Label) :
    (s.run labels).maxConnections = s.maxConnections := by
  induction labels generalizing s with
  | nil => rfl
  | cons label labels ih => exact (ih (s.step label)).trans (maxConnections_step s label)

theorem accounted_run (h : Accounted s) (labels : List HttpServer.Label) :
    Accounted (s.run labels) := by
  induction labels generalizing s with
  | nil => exact h
  | cons label labels ih => exact ih (h.step label)

theorem watched_run (h : Watched s) {labels : List HttpServer.Label} (ho : s.Orderly labels) :
    Watched (s.run labels) := by
  induction labels generalizing s with
  | nil => exact h
  | cons label labels ih => exact ih (h.step label ho.1) ho.2

/-- In every run the sessions keep to the limit and each reservation is held or was given back once;
unless a socket over the limit takes the last reservation back, a server that drains without
connections was stopped. -/
theorem limit_and_stop (maxConnections loops acceptors : Nat) (labels : List HttpServer.Label) :
    let server := HttpServer.start maxConnections loops acceptors
    let s := server.run labels
    (0 < maxConnections → s.sessions.length ≤ maxConnections) ∧
      s.activeConnections = s.held.length ∧
      (s.released ++ s.held).Perm (List.range s.reserved) ∧
      (server.Orderly labels → s.Quiescent → s.draining = true → s.activeConnections = 0 →
        s.running = false) := by
  intro server s
  have h : Accounted s := accounted_run (.start ..) labels
  have hmax : s.maxConnections = maxConnections := maxConnections_run server labels
  refine ⟨?_, h.active, h.once, ?_⟩
  · intro hpos
    have hwithin := h.within (hmax.symm ▸ hpos)
    rw [HttpServer.passed, List.length_append, hmax] at hwithin
    exact Nat.le_of_add_left_le hwithin
  · intro ho hq hd ha
    exact (watched_run (.start ..) ho).quiescent hq hd ha

/-- A connection, and another over the limit, which is told so after the graceful stop began and the
connection ended. -/
def lateSocket : List HttpServer.Label :=
  List.replicate 7 (.accept 0 .socket 0) ++ [.move 0, .destroy 0] ++
    List.replicate 5 (.accept 1 .socket 1) ++ [.gracefulStop] ++ List.replicate 4 (.caller 0) ++
    [.destroy 1, .destroy 1] ++
    [.accept 1 .socket 1, .accept 1 .socket 1, .accept 1 .aborted 1, .accept 0 .aborted 0]

theorem lateSocket_hangs :
    let s := (HttpServer.start 1 2 2).run lateSocket
    s.Quiescent ∧ s.draining = true ∧ s.activeConnections = 0 ∧ s.running = true := by
  refine ⟨⟨?_, ?_, ?_⟩, ?_⟩
  · decide +kernel
  · decide +kernel
  · decide +kernel
  · decide +kernel

/-- The connection ends behind the graceful stop, without another socket. -/
def lastSession : List HttpServer.Label :=
  List.replicate 7 (.accept 0 .socket 0) ++ [.move 0, .destroy 0, .gracefulStop] ++
    List.replicate 4 (.caller 0) ++ List.replicate 3 (.destroy 1) ++ List.replicate 2 (.caller 1) ++
    [.accept 0 .aborted 0]

theorem limit_and_stop_lastSession :
    ((HttpServer.start 1 2 2).run lastSession).sessions.length ≤ 1 ∧
      ((HttpServer.start 1 1 1).run lastSession).running = false :=
  ⟨(limit_and_stop 1 2 2 lastSession).1 (by decide),
    (limit_and_stop 1 1 1 lastSession).2.2.2 (by decide +kernel)
      ⟨by decide +kernel, by decide +kernel, by decide +kernel⟩ (by decide +kernel)
      (by decide +kernel)⟩

end Hical.Limit
