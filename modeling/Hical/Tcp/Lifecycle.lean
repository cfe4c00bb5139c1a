import Hical.Tcp.Writer

namespace Hical.Tcp

/-- Where the `readLoop` stands. -/
inductive Reader where
  /-- At the head of its loop, behind `messageCallback_`. -/
  | looping
  /-- In `async_read_some`. -/
  | reading
  | finished
  deriving DecidableEq

/-- Where a call of `shutdown` stands. -/
inductive Shutdown where
  | entered
  /-- `state_` was `hConnected`. -/
  | loaded
  /-- `shutdownInLoop` is dispatched. -/
  | stored
  /-- In `async_shutdown`. -/
  | notifying
  | returned
  deriving DecidableEq

/-- How `async_read_some` ends. -/
inductive ReadResult where
  | data | eof | error | aborted
  deriving DecidableEq

/-- `GenericConnection` behind `connectEstablished`. -/
structure GenericConnection where
  /-- It has an `ssl::stream`. -/
  tls : Bool := false
  /-- `state_` is a field of this part. -/
  writer : Connection := { state := .hConnected }
  /-- `reading_`. -/
  reading : Bool := true
  reader : Reader := .looping
  socketOpen : Bool := true
  shutdowns : List Shutdown := []
  /-- How many `closeInLoop` are dispatched. -/
  closing : Nat := 0
  /-- How many `connectDestroyed` are dispatched. -/
  destroying : Nat := 0
  /-- One of them runs, and found `hConnected`. -/
  destroyed : Bool := false
  /-- The owner that the close callback notifies has its reference. -/
  owned : Bool := true
  /-- How many references others have. -/
  users : Nat := 0
  /-- The peer sent its end of the stream. -/
  eof : Bool := false
  /-- Not in the code: how often the connection callback told of the end. -/
  disconnects : Nat := 0
  /-- Not in the code: how often the close callback ran. -/
  closes : Nat := 0
  /-- Not in the code: `close` was called. -/
  closeCalled : Bool := false
  /-- Not in the code: a read failed. -/
  readError : Bool := false
  /-- Not in the code: what was passed to `send` while the state was `hConnected`. -/
  early : List WriteEntry := []

def Loop.over : Loop → Bool
  | finished => true
  | escaped _ _ => true
  | _ => false

namespace GenericConnection

def state (s : GenericConnection) : State := s.writer.state

def setState (s : GenericConnection) (state : State) : GenericConnection :=
  { s with writer := { s.writer with state := state } }

/-- `handleClose`; the owner gives its reference up in the close callback. -/
def handleClose (s : GenericConnection) : GenericConnection :=
  if s.state = .hConnected ∨ s.state = .hDisconnecting then
    { s.setState .hDisconnected with
      reading := false
      owned := false
      disconnects := s.disconnects + 1
      closes := s.closes + 1 }
  else s

/-- Someone has a reference; the destructor runs, and closes the socket, when nobody has. -/
def referenced (s : GenericConnection) : Bool :=
  s.owned || decide (0 < s.users) || decide (s.reader ≠ .finished) ||
    s.writer.loops.any (!·.over) || s.writer.senders.any (· ≠ .returned) ||
    s.shutdowns.any (· ≠ .returned) || decide (0 < s.closing) || decide (0 < s.destroying) ||
    s.destroyed

def socketClosed (s : GenericConnection) : Bool := !s.socketOpen || !s.referenced

inductive Label where
  /-- `send`, `sendFile`. -/
  | send (entry : WriteEntry)
  | sender (i : Nat)
  | writeLoop (i : Nat) (io : Io)
  | readLoop (result : ReadResult)
  | shutdown
  | shutdownStep (i : Nat)
  | close
  | closeInLoop
  | connectDestroyed
  /-- Its lambda reads `state_`. -/
  | destroyLoad
  /-- Its lambda goes on behind the test. -/
  | destroyStore
  /-- The peer ends its stream. -/
  | peerEnd
  | retain
  | release

/-- The next step of `readLoop`. -/
def read (s : GenericConnection) (result : ReadResult) : Option GenericConnection :=
  match s.reader, result with
  | .looping, _ =>
    some { s with reader := if s.reading ∧ s.state = .hConnected then .reading else .finished }
  | .reading, .data => some { s with reader := .looping }
  | .reading, .eof =>
    if s.eof ∧ s.socketOpen then some { s.handleClose with reader := .finished } else none
  | .reading, .error =>
    if s.socketOpen then some { s.handleClose with reader := .finished, readError := true } else none
  | .reading, .aborted => if s.socketOpen then none else some { s with reader := .finished }
  | .finished, _ => none

/-- The next step of a `writeLoop`, which calls `handleClose` in its error path. -/
def write (s : GenericConnection) (i : Nat) (io : Io) : Option GenericConnection :=
  s.writer.loops[i]?.bind fun l =>
    (s.writer.stepLoop i io l).map fun writer =>
      { (if l = .failed then s.handleClose else s) with writer := writer }

def setShutdown (s : GenericConnection) (i : Nat) (x : Shutdown) : GenericConnection :=
  { s with shutdowns := s.shutdowns.set i x }

/-- The next step of a call of `shutdown`; `sock.shutdown` changes nothing here. -/
def stepShutdown (s : GenericConnection) (i : Nat) : Shutdown → Option GenericConnection
  | .entered => some (s.setShutdown i (if s.state = .hConnected then .loaded else .returned))
  | .loaded => some ((s.setState .hDisconnecting).setShutdown i .stored)
  | .stored => some (s.setShutdown i (if s.tls then .notifying else .returned))
  | .notifying => some (s.setShutdown i .returned)
  | .returned => none

def close (s : GenericConnection) : GenericConnection :=
  if s.state = .hConnected then
    { s.setState .hDisconnecting with closing := s.closing + 1, closeCalled := true }
  else { s with closeCalled := true }

def closeInLoop (s : GenericConnection) : GenericConnection :=
  { s with closing := s.closing - 1, socketOpen := false }.handleClose

/-- One atomic step; none is where the party cannot take it. The loop runs one handler at a time. -/
def step (s : GenericConnection) : Label → Option GenericConnection
  | .send entry =>
    if s.referenced then
      some { s with
        writer := { s.writer with senders := s.writer.senders ++ [.entered entry] }
        early := if s.state = .hConnected then s.early ++ [entry] else s.early }
    else none
  | .sender i =>
    s.writer.senders[i]?.bind fun x =>
      (s.writer.stepSender i x).map fun writer => { s with writer := writer }
  | .writeLoop i io => if s.destroyed then none else s.write i io
  | .readLoop result => if s.destroyed then none else s.read result
  | .shutdown =>
    if s.referenced then some { s with shutdowns := s.shutdowns ++ [.entered] } else none
  | .shutdownStep i => s.shutdowns[i]?.bind (s.stepShutdown i)
  | .close => if s.referenced then some s.close else none
  | .closeInLoop => if s.destroyed ∨ s.closing = 0 then none else some s.closeInLoop
  | .connectDestroyed =>
    if s.referenced then some { s with destroying := s.destroying + 1 } else none
  | .destroyLoad =>
    if s.destroyed ∨ s.destroying = 0 then none
    else some { s with
      destroying := s.destroying - 1
      destroyed := decide (s.state = .hConnected) }
  | .destroyStore =>
    if s.destroyed then
      some { s.setState .hDisconnected with
        reading := false
        destroyed := false
        disconnects := s.disconnects + 1 }
    else none
  | .peerEnd => some { s with eof := true }
  | .retain => if s.referenced then some { s with users := s.users + 1 } else none
  | .release => some { s with users := s.users - 1 }

def run (s : GenericConnection) (labels : List Label) : Option GenericConnection :=
  labels.foldlM step s

end GenericConnection

end Hical.Tcp
