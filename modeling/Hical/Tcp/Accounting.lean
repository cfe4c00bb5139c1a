import Hical.Tcp.Closing

namespace Hical.Tcp

/-- Where the `acceptLoop` stands. -/
inductive Acceptor where
  /-- At the head of its loop. -/
  | looping
  /-- In `async_accept`. -/
  | waiting
  | finished
  deriving DecidableEq

/-- Where the call of `stop` stands. -/
inductive Stop where
  | idle
  /-- The exchange found `running_` set. -/
  | exchanged
  /-- The acceptor is closed, and so are the shards below `shard`. -/
  | cleaning (shard : Nat)
  /-- `totalConnections_` is set to zero. -/
  | zeroed
  /-- `ioPool_->stop()` returned. -/
  | joined
  | returned
  deriving DecidableEq

/-- A registered connection and its loop. -/
structure Peer where
  loop : Nat
  conn : GenericConnection

/-- `TcpServer`; its loops are the base loop, 0, and the workers of `ioPool_`. -/
structure TcpServer where
  workers : Nat
  tls : Bool := false
  running : Bool := true
  /-- The sets of connections by loop, until `shards_.clear()`. -/
  shards : List (List Nat)
  totalConnections : Nat := 0
  acceptor : Acceptor := .looping
  /-- The loops of the posted registrations. -/
  posted : List Nat := []
  peers : List Peer := []
  stop : Stop := .idle
  /-- Not in the code: `totalConnections_` went below zero. -/
  wrapped : Bool := false
  /-- Not in the code: `findShard` ran behind `shards_.clear()`. -/
  touched : Bool := false

namespace TcpServer

def start (workers : Nat) (tls : Bool) : TcpServer where
  workers := workers
  tls := tls
  shards := List.replicate (workers + 1) []

/-- The index that `findShard` comes to. -/
def findShard (s : TcpServer) (loop : Nat) : Nat := if loop < s.shards.length then loop else 0

def editShard (s : TcpServer) (loop : Nat) (f : List Nat → List Nat) : TcpServer :=
  match s.shards[s.findShard loop]? with
  | some set => { s with shards := s.shards.set (s.findShard loop) (f set) }
  | none => { s with touched := true }

/-- `addConnection`, and `connectEstablished`. -/
def addConnection (s : TcpServer) (loop : Nat) : TcpServer :=
  { s.editShard loop (s.peers.length :: ·) with
    totalConnections := s.totalConnections + 1
    peers := s.peers ++ [{ loop := loop, conn := { tls := s.tls } }] }

/-- `removeConnection`; the counter is a `size_t`. -/
def removeConnection (s : TcpServer) (loop k : Nat) : TcpServer :=
  { s.editShard loop (·.erase k) with
    totalConnections := if s.totalConnections = 0 then 2 ^ 64 - 1 else s.totalConnections - 1
    wrapped := s.wrapped || decide (s.totalConnections = 0) }

/-- A connection changes; its close callback removes it. -/
def put (s : TcpServer) (k : Nat) (p : Peer) (conn : GenericConnection) : TcpServer :=
  if p.conn.closes < conn.closes then
    { s with peers := s.peers.set k { p with conn := conn } }.removeConnection p.loop k
  else { s with peers := s.peers.set k { p with conn := conn } }

/-- `close` in the loop of the connection, which runs `closeInLoop` at once. -/
def closeConnection (s : TcpServer) (k : Nat) : TcpServer :=
  match s.peers[k]? with
  | some p =>
    s.put k p (if p.conn.state = .hConnected then p.conn.close.closeInLoop else p.conn.close)
  | none => s

/-- The task of `stop` on the loop of a shard. -/
def clean (s : TcpServer) (shard : Nat) : TcpServer :=
  let s' := ((s.shards[shard]?).getD []).foldl closeConnection s
  { s' with shards := s'.shards.set shard [] }

/-- The workers have nothing to do any more. -/
def idle (s : TcpServer) : Bool :=
  s.posted.isEmpty && s.peers.all fun p => decide (p.loop = 0) ||
    decide (p.conn.reader = .finished) && p.conn.writer.loops.all (·.over) &&
      decide (p.conn.closing = 0)

/-- `stop` goes on. -/
def proceed (s : TcpServer) : Option TcpServer :=
  match s.stop with
  | .exchanged => some { s with stop := .cleaning 0 }
  | .cleaning k =>
    if k < s.shards.length then some { s.clean k with stop := .cleaning (k + 1) }
    else some { s with totalConnections := 0, stop := .zeroed }
  | .zeroed => if s.idle then some { s with stop := .joined } else none
  | .joined => some { s with shards := [], stop := .returned }
  | _ => none

inductive Label where
  | acceptLoop
  /-- A socket is accepted, for the loop that `getNextIoLoop` gives. -/
  | accept (loop : Nat)
  | acceptError
  | acceptAborted
  /-- A posted registration runs. -/
  | register (n : Nat)
  | conn (k : Nat) (label : GenericConnection.Label)
  | stop
  | proceed

/-- The server and the claimants of its connections do not call `connectDestroyed`. -/
def drives : GenericConnection.Label → Bool
  | .connectDestroyed => false
  | .destroyLoad => false
  | .destroyStore => false
  | _ => true

/-- `getNextIoLoop` may give the loop. -/
def targets (s : TcpServer) (loop : Nat) : Bool :=
  if s.workers = 0 then decide (loop = 0) else decide (0 < loop ∧ loop ≤ s.workers)

/-- One step of a loop or of a caller; none is where it cannot be taken. -/
def step (s : TcpServer) : Label → Option TcpServer
  | .acceptLoop =>
    if s.acceptor = .looping then
      some { s with acceptor := if s.running then .waiting else .finished }
    else none
  | .accept loop =>
    if s.acceptor = .waiting ∧ s.targets loop then
      if loop = 0 then some { s.addConnection 0 with acceptor := .looping }
      else some { s with posted := s.posted ++ [loop], acceptor := .looping }
    else none
  | .acceptError => if s.acceptor = .waiting then some { s with acceptor := .looping } else none
  | .acceptAborted => if s.acceptor = .waiting then some { s with acceptor := .finished } else none
  | .register n =>
    s.posted[n]?.map fun loop => { s.addConnection loop with posted := s.posted.eraseIdx n }
  | .conn k label =>
    if drives label then
      s.peers[k]?.bind fun p => (p.conn.step label).map fun conn => s.put k p conn
    else none
  | .stop =>
    if s.running ∧ s.stop = .idle then some { s with running := false, stop := .exchanged }
    else some s
  | .proceed => s.proceed

def run (s : TcpServer) (labels : List Label) : Option TcpServer := labels.foldlM step s

end TcpServer

end Hical.Tcp

namespace Hical.Tcp
open Ledger

namespace GenericConnection
variable {s s' : GenericConnection}

/-- The close callback ran once if the state is `hDisconnected`, and else never. -/
structure Counted (s : GenericConnection) : Prop where
  connected : s.state ≠ .hConnecting
  live : s.state ≠ .hDisconnected → s.closes = 0
  ended : s.state = .hDisconnected → s.closes = 1

/-- The store of `shutdown` does not find `hDisconnected`. -/
def stores (s : GenericConnection) : Label → Bool
  | .shutdownStep i => decide (s.shutdowns[i]? = some .loaded → s.state ≠ .hDisconnected)
  | _ => true

/-- The close callback did not run, or ran for the first time. -/
structure Goes (s s' : GenericConnection) : Prop where
  counted : s'.Counted
  closes : s'.closes = s.closes ∨ s.closes = 0 ∧ s'.closes = 1

theorem handleClose_writer (s : GenericConnection) : s.handleClose.writer = s.writer.handleClose := by
  unfold handleClose Connection.handleClose state
  by_cases h : s.writer.state = .hConnected ∨ s.writer.state = .hDisconnecting
  · rw [if_pos h, if_pos h]
    rfl
  · rw [if_neg h, if_neg h]

namespace Counted

theorem same (h : s.Counted) (hs : s'.writer.state = s.writer.state) (hc : s'.closes = s.closes) :
    s.Goes s' := by
  refine ⟨⟨?_, ?_, ?_⟩, .inl hc⟩
  · rw [state, hs]
    exact h.connected
  · rw [state, hs, hc]
    exact h.live
  · rw [state, hs, hc]
    exact h.ended

theorem disconnecting (h : s.Counted) (hd : s.state ≠ .hDisconnected)
    (hs : s'.writer.state = .hDisconnecting) (hc : s'.closes = s.closes) : s.Goes s' := by
  refine ⟨⟨?_, fun _ => hc.trans (h.live hd), fun he => ?_⟩, .inl hc⟩
  · rw [state, hs]
    exact State.noConfusion
  · rw [state, hs] at he
    cases he

theorem handleClose (h : s.Counted) : s.Goes s.handleClose := by
  by_cases hd : s.state = .hDisconnected
  · rw [handleClose_ended hd]
    exact ⟨h, .inl rfl⟩
  · have hzero := h.live hd
    rw [handleClose_live h.connected hd]
    refine ⟨⟨State.noConfusion, fun hne => absurd rfl hne, fun _ => ?_⟩, .inr ⟨hzero, ?_⟩⟩
    · exact congrArg (· + 1) hzero
    · exact congrArg (· + 1) hzero

theorem close (h : s.Counted) : s.Goes s.close := by
  rw [GenericConnection.close]
  split
  · next hc =>
    refine h.disconnecting ?_ rfl rfl
    rw [hc]
    exact State.noConfusion
  · exact h.same rfl rfl

theorem closeInLoop (h : s.Counted) : s.Goes s.closeInLoop := by
  have hopen : Counted { s with closing := s.closing - 1, socketOpen := false } :=
    ⟨h.connected, h.live, h.ended⟩
  obtain ⟨hc, hcl⟩ := hopen.handleClose
  exact ⟨hc, hcl⟩

theorem read {result : ReadResult} (h : s.Counted) (hs : s.read result = some s') : s.Goes s' := by
  have hclosed : ∀ readError, s.Goes { s.handleClose with
      reader := .finished, readError := readError } := by
    intro readError
    obtain ⟨hc, hcl⟩ := h.handleClose
    exact ⟨⟨hc.connected, hc.live, hc.ended⟩, hcl⟩
  rw [GenericConnection.read.eq_def] at hs
  split at hs
  · cases hs
    exact h.same rfl rfl
  · cases hs
    exact h.same rfl rfl
  · split at hs
    · cases hs
      exact hclosed s.handleClose.readError
    · cases hs
  · split at hs
    · cases hs
      exact hclosed true
    · cases hs
  · split at hs
    · cases hs
    · cases hs
      exact h.same rfl rfl
  · cases hs

theorem write (h : s.Counted) (hs : s.write i io = some s') : s.Goes s' := by
  obtain ⟨l, hl, hs⟩ := Option.bind_eq_some_iff.1 hs
  obtain ⟨w, hw, rfl⟩ := Option.map_eq_some_iff.1 hs
  obtain ⟨l', hstep⟩ := stepLoop_spec hw
  by_cases hf : l = .failed
  · rw [if_pos hf]
    have hstate : w.state = s.handleClose.writer.state := by
      rw [hstep.state, if_pos hf, handleClose_writer]
    obtain ⟨hc, hcl⟩ := h.handleClose
    have hgoes : s.handleClose.Goes { s.handleClose with writer := w } := hc.same hstate rfl
    exact ⟨hgoes.counted, hcl⟩
  · rw [if_neg hf]
    exact h.same (hstep.state.trans (if_neg hf)) rfl

theorem step {label : Label} (h : s.Counted) (hd : TcpServer.drives label = true)
    (hk : s.stores label = true) (hs : s.step label = some s') : s.Goes s' := by
  cases label with
  | send entry | shutdown | retain =>
    obtain ⟨-, rfl⟩ := Option.ite_some_none_eq_some.1 hs
    exact h.same rfl rfl
  | sender i =>
    obtain ⟨x, hx, hs⟩ := Option.bind_eq_some_iff.1 hs
    obtain ⟨w, hw, rfl⟩ := Option.map_eq_some_iff.1 hs
    obtain ⟨x', hstep⟩ := stepSender_spec hw
    exact h.same hstep.state rfl
  | writeLoop i io =>
    rw [GenericConnection.step] at hs
    split at hs
    · cases hs
    · exact h.write hs
  | readLoop result =>
    rw [GenericConnection.step] at hs
    split at hs
    · cases hs
    · exact h.read hs
  | shutdownStep i =>
    obtain ⟨x, hx, hs⟩ := Option.bind_eq_some_iff.1 hs
    cases x with
    | loaded =>
      cases hs
      exact h.disconnecting (of_decide_eq_true hk hx) rfl rfl
    | returned => cases hs
    | _ =>
      cases hs
      exact h.same rfl rfl
  | close =>
    obtain ⟨-, rfl⟩ := Option.ite_some_none_eq_some.1 hs
    exact h.close
  | closeInLoop =>
    obtain ⟨-, ⟨⟩⟩ := Option.ite_none_left_eq_some.1 hs
    exact h.closeInLoop
  | connectDestroyed => cases hd
  | destroyLoad => cases hd
  | destroyStore => cases hd
  | peerEnd | release =>
    cases hs
    exact h.same rfl rfl

end Counted

end GenericConnection

namespace TcpServer

/-- The connection is registered on the loop, and its close callback did not run. -/
def On (s : TcpServer) (loop k : Nat) : Prop :=
  ∃ p, s.peers[k]? = some p ∧ p.loop = loop ∧ p.conn.closes = 0

/-- The shards below this are behind `stop`. -/
def cleaned (s : TcpServer) : Nat :=
  match s.stop with
  | .idle => 0
  | .exchanged => 0
  | .cleaning k => k
  | _ => s.workers + 1

/-- The counter and the sets count the open connections, of which a shard behind `stop` has none. -/
structure Tidy (s : TcpServer) : Prop where
  total : s.totalConnections = total List.length s.shards
  shard : ∀ (l : Nat) set, s.shards[l]? = some set → set.Nodup ∧ ∀ k, k ∈ set ↔ s.On l k
  counted : ∀ p ∈ s.peers, p.conn.Counted
  covered : ∀ l k, s.On l k → l < s.shards.length
  cleaned : ∀ l k, s.On l k → s.cleaned ≤ l
  posted : ∀ l ∈ s.posted, l ≤ s.workers
  length : s.stop ≠ .returned → s.shards.length = s.workers + 1
  returned : s.stop = .returned → s.shards = []
  wrapped : s.wrapped = false
  touched : s.touched = false

variable {s s' : TcpServer} {p : Peer} {conn : GenericConnection} {k l : Nat}

theorem on_set (hk : s.peers[k]? = some p) (conn : GenericConnection) (l j : Nat) :
    On { s with peers := s.peers.set k { p with conn := conn } } l j ↔
      j = k ∧ p.loop = l ∧ conn.closes = 0 ∨ j ≠ k ∧ s.On l j := by
  have hlt := (List.getElem?_eq_some_iff.1 hk).1
  unfold On
  dsimp only
  by_cases hj : j = k
  · subst hj
    rw [List.getElem?_set_self hlt]
    constructor
    · rintro ⟨q, hq, hl, hc⟩
      cases hq
      exact .inl ⟨rfl, hl, hc⟩
    · rintro (⟨-, hl, hc⟩ | ⟨hne, -⟩)
      · exact ⟨_, rfl, hl, hc⟩
      · exact absurd rfl hne
  · rw [List.getElem?_set_ne (Ne.symm hj)]
    constructor
    · exact fun h => .inr ⟨hj, h⟩
    · rintro (⟨he, -⟩ | ⟨-, h⟩)
      · exact absurd he hj
      · exact h

theorem findShard_eq {s : TcpServer} (hl : l < s.shards.length) :
    s.findShard l = l ∧ ∃ set, s.shards[l]? = some set :=
  ⟨if_pos hl, _, List.getElem?_eq_getElem hl⟩

theorem Tidy.putSame (h : Tidy s) (hk : s.peers[k]? = some p) (hc : conn.Counted)
    (hs : conn.closes = p.conn.closes) :
    Tidy { s with peers := s.peers.set k { p with conn := conn } } := by
  have hon : ∀ l j, On { s with peers := s.peers.set k { p with conn := conn } } l j ↔ s.On l j := by
    intro l j
    rw [on_set hk]
    constructor
    · rintro (⟨rfl, hl, hz⟩ | ⟨-, h⟩)
      · exact ⟨p, hk, hl, hs ▸ hz⟩
      · exact h
    · intro h
      by_cases hj : j = k
      · subst hj
        obtain ⟨q, hq, hl, hz⟩ := h
        rw [hk] at hq
        cases hq
        exact .inl ⟨rfl, hl, hs.trans hz⟩
      · exact .inr ⟨hj, h⟩
  refine { h with shard := ?_, counted := ?_, covered := ?_, cleaned := ?_ }
  · intro l set hset
    obtain ⟨hnd, hmem⟩ := h.shard l set hset
    exact ⟨hnd, fun j => (hmem j).trans (hon l j).symm⟩
  · intro q hq
    rcases List.mem_or_eq_of_mem_set hq with hq | rfl
    · exact h.counted q hq
    · exact hc
  · exact fun l j hj => h.covered l j ((hon l j).1 hj)
  · exact fun l j hj => h.cleaned l j ((hon l j).1 hj)

theorem Tidy.remove (h : Tidy s) (hk : s.peers[k]? = some p) (hc : conn.Counted)
    (hz : p.conn.closes = 0) (h1 : conn.closes = 1) :
    Tidy ({ s with peers := s.peers.set k { p with conn := conn } }.removeConnection p.loop k) := by
  have hopen : s.On p.loop k := ⟨p, hk, rfl, hz⟩
  have hlt := h.covered _ _ hopen
  obtain ⟨hfind, set, hset⟩ := findShard_eq hlt
  have hmem := ((h.shard _ _ hset).2 k).2 hopen
  have hpos := List.length_pos_of_mem hmem
  have htotal := total_set (f := List.length) hset (set.erase k)
  have hle := le_total (f := List.length) hset
  have hlen := List.length_erase_of_mem hmem
  have hsum := h.total
  have hedit : ({ s with peers := s.peers.set k { p with conn := conn } }.removeConnection p.loop k) =
      { s with
        peers := s.peers.set k { p with conn := conn }
        shards := s.shards.set p.loop (set.erase k)
        totalConnections := s.totalConnections - 1 } := by
    have hne : s.totalConnections ≠ 0 := by omega
    rw [removeConnection, editShard]
    change { (match s.shards[s.findShard p.loop]? with
      | some set => { s with
          peers := s.peers.set k { p with conn := conn }
          shards := s.shards.set (s.findShard p.loop) (set.erase k) }
      | none => { s with
          peers := s.peers.set k { p with conn := conn }, touched := true } : TcpServer) with
      totalConnections := if s.totalConnections = 0 then 2 ^ 64 - 1 else s.totalConnections - 1
      wrapped := s.wrapped || decide (s.totalConnections = 0) } = _
    rw [hfind, hset, if_neg hne, decide_eq_false hne, Bool.or_false]
  rw [hedit]
  have hon : ∀ l j, On { s with peers := s.peers.set k { p with conn := conn } } l j ↔
      j ≠ k ∧ s.On l j := by
    intro l j
    rw [on_set hk, h1]
    constructor
    · rintro (⟨-, -, hz⟩ | h)
      · cases hz
      · exact h
    · exact .inr
  refine ⟨?_, ?_, ?_, ?_, ?_, h.posted, ?_, ?_, h.wrapped, h.touched⟩
  · change s.totalConnections - 1 = Ledger.total List.length (s.shards.set p.loop (set.erase k))
    omega
  · intro l set' hset'
    change (s.shards.set p.loop (set.erase k))[l]? = some set' at hset'
    by_cases hl : l = p.loop
    · subst hl
      rw [List.getElem?_set_self hlt] at hset'
      cases hset'
      obtain ⟨hnd, hm⟩ := h.shard _ _ hset
      refine ⟨hnd.erase k, fun j => ?_⟩
      rw [hnd.mem_erase_iff, hm j]
      exact (hon _ j).symm
    · rw [List.getElem?_set_ne (Ne.symm hl)] at hset'
      obtain ⟨hnd, hm⟩ := h.shard _ _ hset'
      refine ⟨hnd, fun j => (hm j).trans ((hon l j).trans ⟨And.right, fun hj => ⟨?_, hj⟩⟩).symm⟩
      rintro rfl
      obtain ⟨q, hq, hql, -⟩ := hj
      rw [hk] at hq
      cases hq
      exact hl hql.symm
  · intro q hq
    rcases List.mem_or_eq_of_mem_set hq with hq | rfl
    · exact h.counted q hq
    · exact hc
  · intro l j hj
    change l < (s.shards.set p.loop (set.erase k)).length
    rw [List.length_set]
    exact h.covered l j ((hon l j).1 hj).2
  · exact fun l j hj => h.cleaned l j ((hon l j).1 hj).2
  · exact fun hs => (List.length_set ..).trans (h.length hs)
  · intro hs
    rw [h.returned hs] at hlt
    cases hlt

theorem Tidy.put (h : Tidy s) (hk : s.peers[k]? = some p) (hg : p.conn.Goes conn) :
    Tidy (s.put k p conn) := by
  rw [TcpServer.put]
  rcases hg.closes with hs | ⟨hz, h1⟩
  · rw [if_neg (by omega)]
    exact h.putSame hk hg.counted hs
  · rw [if_pos (by omega)]
    exact h.remove hk hg.counted hz h1

theorem stop_put (s : TcpServer) (k : Nat) (p : Peer) (conn : GenericConnection) :
    (s.put k p conn).stop = s.stop ∧ (s.put k p conn).peers = s.peers.set k { p with conn := conn } ∧
      (s.put k p conn).running = s.running ∧ (s.put k p conn).workers = s.workers := by
  rw [TcpServer.put, removeConnection, editShard]
  split
  · dsimp only
    split <;> exact ⟨rfl, rfl, rfl, rfl⟩
  · exact ⟨rfl, rfl, rfl, rfl⟩

/-- A registration on a shard that `stop` did not come to. -/
theorem Tidy.add (h : Tidy s) (hl : l ≤ s.workers) (hc : s.cleaned ≤ l) :
    Tidy (s.addConnection l) := by
  have hrun : s.stop ≠ .returned := by
    intro hr
    rw [TcpServer.cleaned, hr] at hc
    exact absurd hl (Nat.not_le_of_lt hc)
  have hlt : l < s.shards.length := by
    rw [h.length hrun]
    exact Nat.lt_succ_of_le hl
  obtain ⟨hfind, set, hset⟩ := findShard_eq hlt
  have hadd : s.addConnection l = { s with
      shards := s.shards.set l (s.peers.length :: set)
      totalConnections := s.totalConnections + 1
      peers := s.peers ++ [{ loop := l, conn := { tls := s.tls } }] } := by
    rw [addConnection, editShard, hfind, hset]
  have htotal := total_set (f := List.length) hset (s.peers.length :: set)
  have hsum := h.total
  have hon : ∀ l' j, On (s.addConnection l) l' j ↔ s.On l' j ∨ j = s.peers.length ∧ l' = l := by
    intro l' j
    rw [hadd]
    unfold On
    dsimp only
    rcases Nat.lt_trichotomy j s.peers.length with hj | rfl | hj
    · rw [List.getElem?_append_left hj]
      exact ⟨.inl, fun ho => ho.elim id fun ⟨he, _⟩ => absurd he (Nat.ne_of_lt hj)⟩
    · rw [List.getElem?_append_right (Nat.le_refl _), Nat.sub_self]
      constructor
      · rintro ⟨q, hq, rfl, -⟩
        cases hq
        exact .inr ⟨rfl, rfl⟩
      · rintro (⟨q, hq, -⟩ | ⟨-, rfl⟩)
        · exact absurd (List.getElem?_eq_some_iff.1 hq).1 (Nat.lt_irrefl _)
        · exact ⟨_, rfl, rfl, rfl⟩
    · have hnone : (s.peers ++ [({ loop := l, conn := { tls := s.tls } } : Peer)])[j]? = none := by
        refine List.getElem?_eq_none ?_
        rw [List.length_append, List.length_singleton]
        exact hj
      rw [hnone]
      constructor
      · rintro ⟨q, hq, -⟩
        cases hq
      · rintro (⟨q, hq, -⟩ | ⟨rfl, -⟩)
        · exact absurd (List.getElem?_eq_some_iff.1 hq).1 (Nat.not_lt_of_gt hj)
        · exact absurd hj (Nat.lt_irrefl _)
  have hfresh : ∀ l', ¬ s.On l' s.peers.length := by
    rintro l' ⟨q, hq, -⟩
    exact absurd (List.getElem?_eq_some_iff.1 hq).1 (Nat.lt_irrefl _)
  rw [hadd] at hon ⊢
  refine ⟨?_, ?_, ?_, ?_, ?_, h.posted, ?_, ?_, h.wrapped, h.touched⟩
  · change s.totalConnections + 1 = Ledger.total List.length (s.shards.set l (s.peers.length :: set))
    rw [List.length_cons] at htotal
    omega
  · intro l' set' hset'
    change (s.shards.set l (s.peers.length :: set))[l']? = some set' at hset'
    by_cases hl' : l' = l
    · subst hl'
      rw [List.getElem?_set_self hlt] at hset'
      cases hset'
      obtain ⟨hnd, hm⟩ := h.shard _ _ hset
      refine ⟨List.nodup_cons.2 ⟨fun hin => hfresh _ ((hm _).1 hin), hnd⟩, fun j => ?_⟩
      rw [List.mem_cons, hm j, hon]
      constructor
      · rintro (rfl | ho)
        · exact .inr ⟨rfl, rfl⟩
        · exact .inl ho
      · rintro (ho | ⟨rfl, -⟩)
        · exact .inr ho
        · exact .inl rfl
    · rw [List.getElem?_set_ne (Ne.symm hl')] at hset'
      obtain ⟨hnd, hm⟩ := h.shard _ _ hset'
      refine ⟨hnd, fun j => (hm j).trans ?_⟩
      rw [hon]
      exact ⟨.inl, fun ho => ho.elim id fun ⟨_, he⟩ => absurd he hl'⟩
  · intro q hq
    rcases List.mem_append.1 hq with hq | hq
    · exact h.counted q hq
    · rw [List.mem_singleton.1 hq]
      exact ⟨State.noConfusion, fun _ => rfl, (nomatch ·)⟩
  · intro l' j hj
    change l' < (s.shards.set l (s.peers.length :: set)).length
    rw [List.length_set]
    rcases (hon l' j).1 hj with ho | ⟨-, rfl⟩
    · exact h.covered l' j ho
    · exact hlt
  · intro l' j hj
    rcases (hon l' j).1 hj with ho | ⟨-, rfl⟩
    · exact h.cleaned l' j ho
    · exact hc
  · exact fun hs => (List.length_set ..).trans (h.length hs)
  · exact fun hs => absurd hs hrun

theorem closed_at_once {c : GenericConnection} (h : c.Counted) (hs : c.state = .hConnected) :
    c.Goes c.close.closeInLoop ∧ c.close.closeInLoop.closes = 1 := by
  have hd : c.state ≠ .hDisconnected := by
    rw [hs]
    exact State.noConfusion
  have hzero := h.live hd
  obtain ⟨hc, hcl⟩ := h.close
  obtain ⟨hc', hcl'⟩ := hc.closeInLoop
  have hstate : c.close.closeInLoop.state = .hDisconnected := by
    have hclose : c.close = { c.setState .hDisconnecting with
        closing := c.closing + 1, closeCalled := true } := if_pos hs
    rw [hclose]
    rfl
  have h1 := hc'.ended hstate
  exact ⟨⟨hc', .inr ⟨hzero, h1⟩⟩, h1⟩

/-- The task of `stop` closes the connections one after the other. -/
theorem Tidy.closeAll (h : Tidy s) (ids : List Nat)
    (hids : ∀ k ∈ ids, ∃ p, s.peers[k]? = some p ∧ p.conn.state = .hConnected) (hnd : ids.Nodup) :
    Tidy (ids.foldl closeConnection s) ∧ (ids.foldl closeConnection s).stop = s.stop ∧
      (ids.foldl closeConnection s).workers = s.workers ∧
      ∀ l k, (ids.foldl closeConnection s).On l k → s.On l k ∧ k ∉ ids := by
  induction ids generalizing s with
  | nil => exact ⟨h, rfl, rfl, fun _ _ ho => ⟨ho, List.not_mem_nil⟩⟩
  | cons k ids ih =>
    obtain ⟨p, hk, hp⟩ := hids k List.mem_cons_self
    obtain ⟨hfresh, hnd⟩ := List.nodup_cons.1 hnd
    have hcounted := h.counted p (List.mem_of_getElem? hk)
    obtain ⟨hg, h1⟩ := closed_at_once hcounted hp
    have hclose : s.closeConnection k = s.put k p p.conn.close.closeInLoop := by
      rw [closeConnection, hk]
      change s.put k p (if p.conn.state = .hConnected then _ else _) = _
      rw [if_pos hp]
    obtain ⟨hstop, hpeers, -, hworkers⟩ := stop_put s k p p.conn.close.closeInLoop
    have hids' : ∀ j ∈ ids, ∃ q, (s.put k p p.conn.close.closeInLoop).peers[j]? = some q ∧
        q.conn.state = .hConnected := by
      intro j hj
      obtain ⟨q, hq, hqs⟩ := hids j (List.mem_cons_of_mem _ hj)
      have hne : k ≠ j := by
        rintro rfl
        exact hfresh hj
      refine ⟨q, ?_, hqs⟩
      rw [hpeers, List.getElem?_set_ne hne, hq]
    obtain ⟨ht, hs, hw, ho⟩ := ih (h.put hk hg) hids' hnd
    rw [List.foldl_cons, hclose]
    refine ⟨ht, hs.trans hstop, hw.trans hworkers, fun l j hj => ?_⟩
    obtain ⟨hj, hnin⟩ := ho l j hj
    have hset : On { s with peers := s.peers.set k { p with conn := p.conn.close.closeInLoop } } l j := by
      obtain ⟨q, hq, hql⟩ := hj
      exact ⟨q, hpeers ▸ hq, hql⟩
    rcases (on_set hk _ l j).1 hset with ⟨-, -, hz⟩ | ⟨hne, hon⟩
    · rw [h1] at hz
      cases hz
    · refine ⟨hon, fun hin => ?_⟩
      rcases List.mem_cons.1 hin with he | hin
      · exact hne he
      · exact hnin hin

end TcpServer

end Hical.Tcp
