import Hical.Lib.Ledger
import Mathlib.Data.List.Range

namespace Hical.Limit

/-- Where an `acceptLoop` stands. -/
inductive Acceptor where
  /-- At the head of its loop. -/
  | looping
  /-- `async_accept` is pending. -/
  | waiting
  | accepted
  /-- It found `running_` set. -/
  | checked
  /-- It found `draining_` not set, and calls `commitAcceptedSocket`. -/
  | committing
  /-- The `fetch_add` made the reservation `id` and returned `prev`. -/
  | added (id prev : Nat)
  | closed
  deriving DecidableEq, Repr

/-- A `ConnectionReservation` object. -/
inductive Guard where
  /-- `server_` is set. -/
  | owner (id loop : Nat)
  /-- It was moved from. -/
  | empty
  /-- Its destructor gave the load of the loop back. -/
  | unloaded (id : Nat)
  /-- Its `fetch_sub` returned one. -/
  | last
  | destroyed
  deriving DecidableEq, Repr

/-- Where a call of `stop` or `gracefulStop` stands. -/
inductive Caller where
  /-- At the head of `stop`. -/
  | stopping
  /-- The exchange of `stop` found `running_` set. -/
  | stopped
  /-- At the head of `gracefulStop`. -/
  | gracing
  /-- It found `running_` set. -/
  | draining
  /-- `beginGracefulStopOnLoop` is posted. -/
  | posted
  /-- It found `running_` set. -/
  | beginning
  /-- It found connections, and `shutdownTimer_` waits. -/
  | waiting
  | done
  deriving DecidableEq, Repr

structure HttpServer where
  /-- Zero sets no limit. -/
  maxConnections : Nat
  activeConnections : Nat := 0
  /-- By loop. -/
  loopConnections : List Nat
  running : Bool := true
  draining : Bool := false
  acceptors : List Acceptor
  guards : List Guard := []
  callers : List Caller := []
  /-- Not in the code: how many reservations of `activeConnections` were made. -/
  reserved : Nat := 0
  /-- Not in the code: which of them were given back. -/
  released : List Nat := []
  deriving DecidableEq, Repr

/-- How `async_accept` ends. -/
inductive Answer where
  | socket
  | failed
  | aborted

namespace HttpServer

def start (maxConnections loops acceptors : Nat) : HttpServer where
  maxConnections := maxConnections
  loopConnections := List.replicate loops 0
  acceptors := List.replicate acceptors .looping

def setAcceptor (s : HttpServer) (i : Nat) (a : Acceptor) : HttpServer :=
  { s with acceptors := s.acceptors.set i a }

def setGuard (s : HttpServer) (k : Nat) (g : Guard) : HttpServer :=
  { s with guards := s.guards.set k g }

def setCaller (s : HttpServer) (j : Nat) (c : Caller) : HttpServer :=
  { s with callers := s.callers.set j c }

def call (s : HttpServer) (c : Caller) : HttpServer := { s with callers := s.callers ++ [c] }

/-- The comparison of `commitAcceptedSocket`. -/
def overLimit (s : HttpServer) (prev : Nat) : Bool :=
  decide (0 < s.maxConnections) && decide (s.maxConnections ≤ prev)

def fetchAdd (s : HttpServer) : HttpServer :=
  { s with activeConnections := s.activeConnections + 1, reserved := s.reserved + 1 }

def fetchSub (s : HttpServer) (id : Nat) : HttpServer :=
  { s with activeConnections := s.activeConnections - 1, released := s.released ++ [id] }

/-- The constructor of `ConnectionReservation`. -/
def guard (s : HttpServer) (id loop : Nat) : HttpServer :=
  { s with
    loopConnections := s.loopConnections.modify loop (· + 1)
    guards := s.guards ++ [.owner id loop] }

/-- An `acceptLoop` takes its next step; the session goes to `loop`. -/
def accept (s : HttpServer) (i : Nat) (answer : Answer) (loop : Nat) : HttpServer :=
  match s.acceptors[i]? with
  | some .looping => s.setAcceptor i (if s.running then .waiting else .closed)
  | some .waiting =>
    match answer with
    | .socket => s.setAcceptor i .accepted
    | .failed => s.setAcceptor i .looping
    | .aborted => s.setAcceptor i .closed
  | some .accepted => s.setAcceptor i (if s.running then .checked else .closed)
  | some .checked => s.setAcceptor i (if s.draining then .closed else .committing)
  | some .committing => s.fetchAdd.setAcceptor i (.added s.reserved s.activeConnections)
  | some (.added id prev) =>
    if s.overLimit prev then (s.fetchSub id).setAcceptor i .looping
    else (s.guard id loop).setAcceptor i .looping
  | _ => s

/-- The move constructor: into `spawn`, into the frame of `handleSession`, into its parameter. -/
def move (s : HttpServer) (k : Nat) : HttpServer :=
  match s.guards[k]? with
  | some (.owner id loop) =>
    { s.setGuard k .empty with guards := s.guards.set k .empty ++ [.owner id loop] }
  | some .empty => { s with guards := s.guards ++ [.empty] }
  | _ => s

/-- The destructor takes its next step: when `commitAcceptedSocket` or `spawn` returns or throws, when
a frame is destroyed, started or not, and when a session ends. -/
def destroy (s : HttpServer) (k : Nat) : HttpServer :=
  match s.guards[k]? with
  | some (.owner id loop) =>
    { s with loopConnections := s.loopConnections.modify loop (· - 1) }.setGuard k (.unloaded id)
  | some .empty => s.setGuard k .destroyed
  | some (.unloaded id) =>
    (s.fetchSub id).setGuard k (if s.activeConnections = 1 then .last else .destroyed)
  | some .last =>
    if s.draining then (s.call .stopping).setGuard k .destroyed else s.setGuard k .destroyed
  | _ => s

/-- A call of `stop` or `gracefulStop` takes its next step; `shutdownTimer_` expires in its own time. -/
def proceed (s : HttpServer) (j : Nat) : HttpServer :=
  match s.callers[j]? with
  | some .stopping =>
    if s.running then { s with running := false }.setCaller j .stopped else s.setCaller j .done
  | some .stopped => { s with draining := true }.setCaller j .done
  | some .gracing => s.setCaller j (if s.running then .draining else .done)
  | some .draining =>
    if s.draining then s.setCaller j .done else { s with draining := true }.setCaller j .posted
  | some .posted => s.setCaller j (if s.running then .beginning else .done)
  | some .beginning => s.setCaller j (if s.activeConnections = 0 then .stopping else .waiting)
  | some .waiting => s.setCaller j .stopping
  | _ => s

inductive Label where
  | accept (i : Nat) (answer : Answer) (loop : Nat)
  | move (k : Nat)
  | destroy (k : Nat)
  | stop
  | gracefulStop
  | caller (j : Nat)

def step (s : HttpServer) : Label → HttpServer
  | .accept i answer loop => s.accept i answer loop
  | .move k => s.move k
  | .destroy k => s.destroy k
  | .stop => s.call .stopping
  | .gracefulStop => s.call .gracing
  | .caller j => s.proceed j

def run (s : HttpServer) (labels : List Label) : HttpServer := labels.foldl step s

end HttpServer

def Acceptor.reservations : Acceptor → List Nat
  | added id _ => [id]
  | _ => []

/-- The same if it is below the limit. -/
def Acceptor.passing (maxConnections : Nat) : Acceptor → List Nat
  | added id prev => if 0 < maxConnections ∧ maxConnections ≤ prev then [] else [id]
  | _ => []

def Guard.reservations : Guard → List Nat
  | owner id _ => [id]
  | unloaded id => [id]
  | _ => []

namespace HttpServer

def sessions (s : HttpServer) : List Nat := s.guards.flatMap Guard.reservations

/-- The reservations that are not given back. -/
def held (s : HttpServer) : List Nat := s.acceptors.flatMap Acceptor.reservations ++ s.sessions

/-- Those that are behind the limit check, or pass it. -/
def passed (s : HttpServer) : List Nat :=
  s.acceptors.flatMap (Acceptor.passing s.maxConnections) ++ s.sessions

end HttpServer

variable {s s' : HttpServer} {id i k : Nat} {a : Acceptor} {g : Guard}

theorem passing_sublist (maxConnections : Nat) (a : Acceptor) :
    (a.passing maxConnections).Sublist a.reservations := by
  cases a with
  | added id prev =>
    rw [Acceptor.passing]
    split
    · exact List.nil_sublist _
    · exact List.Sublist.refl _
  | _ => exact List.Sublist.refl _

theorem passed_length (s : HttpServer) : s.passed.length ≤ s.held.length := by
  have hsub : ∀ l : List Acceptor, (l.flatMap (Acceptor.passing s.maxConnections)).length ≤
      (l.flatMap Acceptor.reservations).length := by
    intro l
    induction l with
    | nil => exact Nat.le_refl _
    | cons a l ih =>
      rw [List.flatMap_cons, List.flatMap_cons, List.length_append, List.length_append]
      exact Nat.add_le_add (passing_sublist _ a).length_le ih
  rw [HttpServer.passed, HttpServer.held, List.length_append, List.length_append]
  exact Nat.add_le_add_right (hsub _) _

theorem held_setAcceptor (hi : s.acceptors[i]? = some a) (b : Acceptor) :
    List.Perm (a.reservations ++ (s.setAcceptor i b).held) (b.reservations ++ s.held) := by
  have hset := Ledger.flatMap_set (f := Acceptor.reservations) hi b
  have happ := hset.append_right s.sessions
  rw [List.append_assoc, List.append_assoc] at happ
  exact happ

theorem passed_setAcceptor (hi : s.acceptors[i]? = some a) (b : Acceptor) :
    List.Perm (a.passing s.maxConnections ++ (s.setAcceptor i b).passed)
      (b.passing s.maxConnections ++ s.passed) := by
  have hset := Ledger.flatMap_set (f := Acceptor.passing s.maxConnections) hi b
  have happ := hset.append_right s.sessions
  rw [List.append_assoc, List.append_assoc] at happ
  exact happ

theorem sessions_setGuard (hk : s.guards[k]? = some g) (g' : Guard) :
    List.Perm (g.reservations ++ (s.setGuard k g').sessions) (g'.reservations ++ s.sessions) :=
  Ledger.flatMap_set (f := Guard.reservations) hk g'

/-- The counter counts the reservations, each of them is either held or was given back once, and the
limit holds. -/
structure Accounted (s : HttpServer) : Prop where
  active : s.activeConnections = s.held.length
  once : (s.released ++ s.held).Perm (List.range s.reserved)
  within : 0 < s.maxConnections → s.passed.length ≤ s.maxConnections

theorem held_setGuard (hk : s.guards[k]? = some g) (g' : Guard) :
    List.Perm (g.reservations ++ (s.setGuard k g').held) (g'.reservations ++ s.held) := by
  have hset := (sessions_setGuard hk g').append_left (s.acceptors.flatMap Acceptor.reservations)
  exact (List.perm_append_comm_assoc ..).trans (hset.trans (List.perm_append_comm_assoc ..))

theorem passed_setGuard (hk : s.guards[k]? = some g) (g' : Guard) :
    List.Perm (g.reservations ++ (s.setGuard k g').passed) (g'.reservations ++ s.passed) := by
  have hset := (sessions_setGuard hk g').append_left
    (s.acceptors.flatMap (Acceptor.passing s.maxConnections))
  exact (List.perm_append_comm_assoc ..).trans (hset.trans (List.perm_append_comm_assoc ..))

namespace Accounted

theorem keep (h : Accounted s) (hh : s'.held.Perm s.held) (hp : s'.passed.Perm s.passed)
    (ha : s'.activeConnections = s.activeConnections) (hr : s'.released = s.released)
    (hn : s'.reserved = s.reserved) (hm : s'.maxConnections = s.maxConnections) : Accounted s' := by
  refine ⟨?_, ?_, ?_⟩
  · rw [ha, hh.length_eq, h.active]
  · rw [hr, hn]
    exact (hh.append_left _).trans h.once
  · rw [hm, hp.length_eq]
    exact h.within

theorem give (h : Accounted s) (hh : (id :: s'.held).Perm s.held)
    (hp : s'.passed.length ≤ s.passed.length)
    (ha : s'.activeConnections = s.activeConnections - 1) (hr : s'.released = s.released ++ [id])
    (hn : s'.reserved = s.reserved) (hm : s'.maxConnections = s.maxConnections) : Accounted s' := by
  refine ⟨?_, ?_, ?_⟩
  · rw [ha, h.active, ← hh.length_eq]
    rfl
  · rw [hr, hn, List.append_assoc]
    exact (hh.append_left _).trans h.once
  · rw [hm]
    exact fun hpos => hp.trans (h.within hpos)

theorem take (h : Accounted s) (hi : s.acceptors[i]? = some .committing) :
    Accounted (s.fetchAdd.setAcceptor i (.added s.reserved s.activeConnections)) := by
  have hheld : List.Perm
      (s.fetchAdd.setAcceptor i (.added s.reserved s.activeConnections)).held
      ([s.reserved] ++ s.held) :=
    held_setAcceptor (s := s.fetchAdd) hi (.added s.reserved s.activeConnections)
  have hpassed : List.Perm
      (s.fetchAdd.setAcceptor i (.added s.reserved s.activeConnections)).passed
      ((Acceptor.added s.reserved s.activeConnections).passing s.maxConnections ++ s.passed) :=
    passed_setAcceptor (s := s.fetchAdd) hi (.added s.reserved s.activeConnections)
  refine ⟨?_, ?_, ?_⟩
  · exact (congrArg (· + 1) h.active).trans hheld.length_eq.symm
  · change (s.released ++ _).Perm (List.range (s.reserved + 1))
    rw [List.range_succ]
    calc List.Perm (s.released ++ HttpServer.held _) (s.released ++ ([s.reserved] ++ s.held)) :=
          hheld.append_left _
      List.Perm _ ([s.reserved] ++ (s.released ++ s.held)) := List.perm_append_comm_assoc ..
      List.Perm _ ([s.reserved] ++ List.range s.reserved) := h.once.append_left _
      List.Perm _ (List.range s.reserved ++ [s.reserved]) := List.perm_append_comm
  · intro hpos
    refine hpassed.length_eq.le.trans ?_
    change 0 < s.maxConnections at hpos
    change _ ≤ s.maxConnections
    rw [Acceptor.passing, List.length_append]
    split
    · exact (Nat.zero_add _).le.trans (h.within hpos)
    · next hover =>
      have hlt : s.activeConnections < s.maxConnections :=
        Nat.lt_of_not_le fun hle => hover ⟨hpos, hle⟩
      have hle := passed_length s
      have hactive := h.active
      rw [List.length_singleton]
      omega

theorem spawn (h : Accounted s) (hi : s.acceptors[i]? = some (.added id prev))
    (hover : s.overLimit prev = false) (loop : Nat) :
    Accounted ((s.guard id loop).setAcceptor i .looping) := by
  have hpassing : (Acceptor.added id prev).passing s.maxConnections = [id] := by
    rw [Acceptor.passing, if_neg]
    rintro ⟨hpos, hle⟩
    rw [HttpServer.overLimit, decide_eq_true hpos, decide_eq_true hle] at hover
    cases hover
  have hguarded : (s.guard id loop).sessions = s.sessions ++ [id] := List.flatMap_append
  have hheld := held_setAcceptor (s := s.guard id loop) hi .looping
  have hpassed := passed_setAcceptor (s := s.guard id loop) hi .looping
  change List.Perm ((Acceptor.added id prev).passing s.maxConnections ++ _) _ at hpassed
  rw [hpassing] at hpassed
  refine h.keep ?_ ?_ rfl rfl rfl rfl
  · refine List.Perm.cons_inv (hheld.trans ?_)
    change List.Perm (s.acceptors.flatMap _ ++ (s.guard id loop).sessions) _
    rw [hguarded, ← List.append_assoc]
    exact List.perm_append_singleton id s.held
  · refine List.Perm.cons_inv (hpassed.trans ?_)
    change List.Perm (s.acceptors.flatMap _ ++ (s.guard id loop).sessions) _
    rw [hguarded, ← List.append_assoc]
    exact List.perm_append_singleton id s.passed

theorem setAcceptor (h : Accounted s) (hi : s.acceptors[i]? = some a) (ha : a.reservations = [])
    (b : Acceptor) (hb : b.reservations = []) : Accounted (s.setAcceptor i b) := by
  have hnone : ∀ c : Acceptor, c.reservations = [] → c.passing s.maxConnections = [] :=
    fun c hc => List.sublist_nil.1 (hc ▸ passing_sublist _ c)
  have hheld := held_setAcceptor hi b
  have hpassed := passed_setAcceptor hi b
  rw [ha, hb] at hheld
  rw [hnone a ha, hnone b hb] at hpassed
  exact h.keep hheld hpassed rfl rfl rfl rfl

theorem accept (h : Accounted s) (i : Nat) (answer : Answer) (loop : Nat) :
    Accounted (s.accept i answer loop) := by
  unfold HttpServer.accept
  split
  · next hi => exact h.setAcceptor hi rfl _ (by split <;> rfl)
  · next hi =>
    cases answer with
    | socket | failed | aborted => exact h.setAcceptor hi rfl _ rfl
  · next hi => exact h.setAcceptor hi rfl _ (by split <;> rfl)
  · next hi => exact h.setAcceptor hi rfl _ (by split <;> rfl)
  · next hi => exact h.take hi
  · next id prev hi =>
    split
    · refine h.give (held_setAcceptor (s := s.fetchSub id) hi .looping) ?_ rfl rfl rfl rfl
      have hpassed := (passed_setAcceptor (s := s.fetchSub id) hi .looping).length_eq
      rw [List.length_append] at hpassed
      exact Nat.le_of_add_left_le hpassed.le
    · next hover => exact h.spawn hi (Bool.eq_false_iff.2 hover) loop
  · exact h

theorem move (h : Accounted s) (k : Nat) : Accounted (s.move k) := by
  rw [HttpServer.move]
  split
  · next id loop hk =>
    have hsessions : List.Perm ((s.guards.set k .empty ++ [Guard.owner id loop]).flatMap
        Guard.reservations) s.sessions := by
      rw [List.flatMap_append]
      exact (List.perm_append_singleton id _).trans (sessions_setGuard hk .empty)
    exact h.keep (hsessions.append_left _) (hsessions.append_left _) rfl rfl rfl rfl
  · have hsessions : (s.guards ++ [Guard.empty]).flatMap Guard.reservations = s.sessions := by
      rw [List.flatMap_append]
      exact List.append_nil _
    exact h.keep (.of_eq (congrArg (_ ++ ·) hsessions)) (.of_eq (congrArg (_ ++ ·) hsessions))
      rfl rfl rfl rfl
  · exact h

theorem destroy (h : Accounted s) (k : Nat) : Accounted (s.destroy k) := by
  rw [HttpServer.destroy]
  split
  · next id loop hk =>
    have hheld := held_setGuard hk (.unloaded id)
    have hpassed := passed_setGuard hk (.unloaded id)
    exact h.keep hheld.cons_inv hpassed.cons_inv rfl rfl rfl rfl
  · next hk => exact h.keep (held_setGuard hk .destroyed) (passed_setGuard hk .destroyed) rfl rfl rfl rfl
  · next id hk =>
    have hnone : (if s.activeConnections = 1 then Guard.last else .destroyed).reservations = [] := by
      split <;> rfl
    have hheld := held_setGuard (s := s.fetchSub id) hk
      (if s.activeConnections = 1 then Guard.last else .destroyed)
    have hpassed := (passed_setGuard (s := s.fetchSub id) hk
      (if s.activeConnections = 1 then Guard.last else .destroyed)).length_eq
    rw [hnone] at hheld hpassed
    refine h.give hheld ?_ rfl rfl rfl rfl
    rw [List.length_append] at hpassed
    exact Nat.le_of_add_left_le hpassed.le
  · next hk =>
    split
    · exact h.keep (held_setGuard hk .destroyed) (passed_setGuard hk .destroyed) rfl rfl rfl rfl
    · exact h.keep (held_setGuard hk .destroyed) (passed_setGuard hk .destroyed) rfl rfl rfl rfl
  · exact h

theorem proceed (h : Accounted s) (j : Nat) : Accounted (s.proceed j) := by
  have hkeep : ∀ running draining callers, Accounted
      { s with running := running, draining := draining, callers := callers } :=
    fun _ _ _ => h.keep (.refl _) (.refl _) rfl rfl rfl rfl
  rw [HttpServer.proceed]
  split
  · split
    · exact hkeep ..
    · exact hkeep ..
  · exact hkeep ..
  · exact hkeep ..
  · split
    · exact hkeep ..
    · exact hkeep ..
  · exact hkeep ..
  · exact hkeep ..
  · exact hkeep ..
  · exact h

theorem step (h : Accounted s) (label : HttpServer.Label) : Accounted (s.step label) := by
  cases label with
  | accept i answer loop => exact h.accept i answer loop
  | move k => exact h.move k
  | destroy k => exact h.destroy k
  | stop | gracefulStop => exact h.keep (.refl _) (.refl _) rfl rfl rfl rfl
  | caller j => exact h.proceed j

theorem start (maxConnections loops acceptors : Nat) :
    Accounted (.start maxConnections loops acceptors) := by
  have hnone : ∀ f : Acceptor → List Nat, f .looping = [] →
      (List.replicate acceptors Acceptor.looping).flatMap f = [] := by
    intro f hf
    refine List.flatMap_eq_nil_iff.2 fun a ha => ?_
    rw [List.eq_of_mem_replicate ha, hf]
  have hheld : (HttpServer.start maxConnections loops acceptors).held = [] := by
    rw [HttpServer.held, HttpServer.sessions]
    exact (List.append_nil _).trans (hnone _ rfl)
  refine ⟨?_, ?_, ?_⟩
  · rw [hheld]
    rfl
  · rw [hheld]
    exact .refl _
  · intro _
    have hle := passed_length (.start maxConnections loops acceptors)
    rw [hheld] at hle
    exact hle.trans (Nat.zero_le _)

end Accounted

end Hical.Limit
