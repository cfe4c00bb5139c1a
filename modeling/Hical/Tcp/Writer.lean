import Hical.Lib.Ledger

namespace Hical.Tcp

/-- `WriteEntry`: data in memory, or a file with the length that `FileWriteNode` counts; it is
negative where the offset lies behind the end of the file. -/
inductive WriteEntry where
  | memory (number size : Nat)
  | file (number : Nat) (length : Int)
  deriving DecidableEq

namespace WriteEntry

/-- `size`, a `size_t` also for a length below zero. -/
def size : WriteEntry → Nat
  | memory _ size => size
  | file _ length => (length % 2 ^ 64).toNat

/-- How many bytes the entry stands for. -/
def length : WriteEntry → Int
  | memory _ size => size
  | file _ length => length

def isFile : WriteEntry → Bool
  | memory _ _ => false
  | file _ _ => true

end WriteEntry

/-- `TcpConnection::State`. -/
inductive State where
  | hConnecting | hConnected | hDisconnecting | hDisconnected
  deriving DecidableEq

/-- Where a call of `enqueueEntry` is. -/
inductive Sender where
  | entered (entry : WriteEntry)
  /-- `state_` was `hConnected`. -/
  | checked (entry : WriteEntry)
  /-- `queuedBytes_` counts the entry. -/
  | added (entry : WriteEntry)
  /-- The entry is in the queue, `tryStartWrite` comes next. -/
  | pushed
  | returned
  deriving DecidableEq

/-- Where a `writeLoop` is. -/
inductive Loop where
  | spawned
  /-- In the drain, with what it took so far. -/
  | popping (batch : List WriteEntry)
  /-- The drain is over with a batch that is not empty, and not subtracted yet. -/
  | popped (batch : List WriteEntry)
  /-- Between two writes, with what is left of the batch. -/
  | issuing (left : List WriteEntry)
  /-- In a write. -/
  | sending (written left : List WriteEntry)
  /-- The drain found nothing; `writing_ = false` comes next. -/
  | emptied
  /-- The second look into the queue comes next. -/
  | rechecking
  /-- The second look took a node, which goes back. -/
  | holding (entry : WriteEntry)
  /-- The node went back, `tryStartWrite` comes next. -/
  | restarting
  /-- A write threw a `system_error`; `handleClose` comes next. -/
  | failed
  /-- `writing_ = false` comes next. -/
  | closing
  | draining
  /-- The drain of the error path took a node, and did not subtract it yet. -/
  | drained (entry : WriteEntry)
  | finished
  /-- An exception that is not a `system_error` left the coroutine. -/
  | escaped (written left : List WriteEntry)
  deriving DecidableEq

/-- The part of `GenericConnection` that writes, with its senders and loops. -/
structure Connection where
  state : State := .hConnecting
  writing : Bool := false
  writeQueue : List WriteEntry := []
  queuedBytes : Nat := 0
  senders : List Sender := []
  loops : List Loop := []
  /-- Not in the code: what the senders pushed, in order. -/
  pushed : List WriteEntry := []
  /-- Not in the code: what was given to the socket, until an error. -/
  handed : List WriteEntry := []
  /-- Not in the code: what the socket took, with the number of bytes, until an error. -/
  delivered : List (WriteEntry × Nat) := []
  /-- Not in the code: a write failed. -/
  error : Bool := false
  /-- Not in the code: `queuedBytes_` went below zero. -/
  wrapped : Bool := false
  deriving DecidableEq

def kMaxDrainBatch : Nat := 256

/-- How a wait for the socket ends. A file gives the bytes it has; one with a negative length asks
for a string of that length, which throws a `length_error`. -/
inductive Io where
  | done (bytes : Nat)
  | systemError
  | lengthError
  deriving DecidableEq

/-- One atomic step of one party. -/
inductive Label where
  | enqueueEntry (entry : WriteEntry)
  | sender (i : Nat)
  | writeLoop (i : Nat) (io : Io)
  /-- `connectEstablished`. -/
  | established
  /-- `shutdown` and `close`. -/
  | disconnect
  /-- `handleClose` and `connectDestroyed` from elsewhere. -/
  | handleClose

namespace Connection

def setSender (c : Connection) (i : Nat) (s : Sender) : Connection :=
  { c with senders := c.senders.set i s }

def setLoop (c : Connection) (i : Nat) (l : Loop) : Connection :=
  { c with loops := c.loops.set i l }

def fetchAdd (c : Connection) (bytes : Nat) : Connection :=
  { c with queuedBytes := (c.queuedBytes + bytes) % 2 ^ 64 }

def fetchSub (c : Connection) (bytes : Nat) : Connection :=
  { c with
    queuedBytes := (c.queuedBytes + (2 ^ 64 - bytes % 2 ^ 64)) % 2 ^ 64
    wrapped := c.wrapped || decide (c.queuedBytes < bytes) }

def tryStartWrite (c : Connection) : Connection :=
  if c.writing then c else { c with writing := true, loops := c.loops ++ [.spawned] }

/-- `handleClose`, without the callbacks. -/
def handleClose (c : Connection) : Connection :=
  if c.state = .hConnected ∨ c.state = .hDisconnecting then { c with state := .hDisconnected } else c

/-- The next step of `enqueueEntry`. -/
def stepSender (c : Connection) (i : Nat) : Sender → Option Connection
  | .entered entry =>
    some (c.setSender i (if c.state = .hConnected then .checked entry else .returned))
  | .checked entry => some ((c.fetchAdd entry.size).setSender i (.added entry))
  | .added entry =>
    some ({ c with
      writeQueue := c.writeQueue ++ [entry], pushed := c.pushed ++ [entry] }.setSender i .pushed)
  | .pushed => some (c.tryStartWrite.setSender i .returned)
  | .returned => none

def batchBytes (batch : List WriteEntry) : Nat := Ledger.total WriteEntry.size batch

/-- The entries of the next write: a file alone, or all the memory up to the next file. -/
def nextWrite : List WriteEntry → List WriteEntry × List WriteEntry
  | [] => ([], [])
  | entry :: left =>
    if entry.isFile then ([entry], left)
    else ((entry :: left).takeWhile (!·.isFile), (entry :: left).dropWhile (!·.isFile))

def hand (c : Connection) (entries : List WriteEntry) : Connection :=
  if c.error then c else { c with handed := c.handed ++ entries }

def deliver (c : Connection) (entries : List (WriteEntry × Nat)) : Connection :=
  if c.error then c else { c with delivered := c.delivered ++ entries }

/-- How the write of `written` may end. -/
def stepWrite (c : Connection) (i : Nat) (written left : List WriteEntry) :
    Io → Option Connection
  | .systemError => some ({ c with error := true }.setLoop i .failed)
  | .lengthError =>
    match written with
    | [.file _ length] => if length < 0 then some (c.setLoop i (.escaped written left)) else none
    | _ => none
  | .done bytes =>
    match written with
    | [.file number length] =>
      if bytes ≤ length.toNat then
        some ((c.deliver [(.file number length, bytes)]).setLoop i (.issuing left))
      else none
    | _ => some ((c.deliver (written.map fun e => (e, e.length.toNat))).setLoop i (.issuing left))

/-- The next step of `writeLoop`. -/
def stepLoop (c : Connection) (i : Nat) (io : Io) : Loop → Option Connection
  | .spawned => some (c.setLoop i (.popping []))
  | .popping batch =>
    match c.writeQueue with
    | entry :: queue =>
      let batch := batch ++ [entry]
      some ({ c with writeQueue := queue }.setLoop i
        (if batch.length ≥ kMaxDrainBatch then .popped batch else .popping batch))
    | [] => some (c.setLoop i (if batch = [] then .emptied else .popped batch))
  | .popped batch => some ((c.fetchSub (batchBytes batch)).setLoop i (.issuing batch))
  | .issuing [] => some (c.setLoop i (.popping []))
  | .issuing (entry :: left) =>
    let write := nextWrite (entry :: left)
    some ((c.hand write.1).setLoop i (.sending write.1 write.2))
  | .sending written left => c.stepWrite i written left io
  | .emptied => some ({ c with writing := false }.setLoop i .rechecking)
  | .rechecking =>
    match c.writeQueue with
    | entry :: queue => some ({ c with writeQueue := queue }.setLoop i (.holding entry))
    | [] => some (c.setLoop i .finished)
  | .holding entry =>
    some ({ c with writeQueue := c.writeQueue ++ [entry] }.setLoop i .restarting)
  | .restarting => some ((c.setLoop i .finished).tryStartWrite)
  | .failed => some (c.handleClose.setLoop i .closing)
  | .closing => some ({ c with writing := false }.setLoop i .draining)
  | .draining =>
    match c.writeQueue with
    | entry :: queue => some ({ c with writeQueue := queue }.setLoop i (.drained entry))
    | [] => some (c.setLoop i .finished)
  | .drained entry => some ((c.fetchSub entry.size).setLoop i .draining)
  | .finished => none
  | .escaped _ _ => none

def step (c : Connection) : Label → Option Connection
  | .enqueueEntry entry => some { c with senders := c.senders ++ [.entered entry] }
  | .sender i => c.senders[i]?.bind (c.stepSender i)
  | .writeLoop i io => c.loops[i]?.bind (c.stepLoop i io)
  | .established => if c.state = .hConnecting then some { c with state := .hConnected } else none
  | .disconnect =>
    if c.state = .hConnected then some { c with state := .hDisconnecting } else none
  | .handleClose => some c.handleClose

def run (c : Connection) (labels : List Label) : Option Connection := labels.foldlM step c

end Connection

end Hical.Tcp
