import LightningCast.Library.Mailbox
import LightningCast.Common

open Mailbox (Cmd Wakes)

-- The commands of the player protocol which are sent as requests.
inductive PlayerCmd
  | START
  | STOP
deriving DecidableEq

-- A request frame. The number `id` tells requests apart and is not on the wire. `conn` is the connection
-- on which the whole frame was written, none if the frame was cut short.
structure Request where
  id   : Nat
  cmd  : PlayerCmd
  conn : Option Nat
deriving DecidableEq

-- The player's answer to request `id`, where `result` is `root["Result"] == 1`.
structure Receipt where
  id     : Nat
  cmd    : PlayerCmd
  result : Bool
deriving DecidableEq

-- What `doRead` can find on the connection: a receipt, or a message which makes it return false.
inductive PlayerMsg
  | receipt (r : Receipt)
  | malformed
deriving DecidableEq

-- A connection to the player: the requests it has not answered, its messages which have not been read,
-- whether it has hung up, and whether the stream to it holds a frame which was cut short.
structure PlayerConn where
  id       : Nat
  requests : List Request   := []
  inbox    : List PlayerMsg := []
  gone     : Bool           := false
  cut      : Bool           := false
deriving DecidableEq

-- `server_fd`: -1, a socket on which `connect` has not succeeded, or a connection.
inductive PlayerFd
  | none
  | socket
  | conn (c : PlayerConn)
deriving DecidableEq

structure SnapcastComm extends Mailbox Thread where
  serverFd        : PlayerFd := .none
  wakeFd          : Bool     := false
  sendStartResult : Bool     := false
  pending         : Bool     := false

namespace PlayerConn

-- `select` reports the descriptor: there is a message, or the end of the stream.
def Readable (c : PlayerConn) : Prop :=
  c.inbox ≠ [] ∨ c.gone

instance (c : PlayerConn) : Decidable c.Readable :=
  inferInstanceAs (Decidable (_ ∨ _))

-- A complete frame reaches the player as a request, unless an earlier frame on the same stream was cut.
def accept (c : PlayerConn) (r : Request) : PlayerConn :=
  if c.cut then c else { c with requests := c.requests ++ [r] }

section

variable (c : PlayerConn) (r : Request)

@[simp] theorem accept_id : (c.accept r).id = c.id := by unfold accept; split <;> rfl
@[simp] theorem accept_inbox : (c.accept r).inbox = c.inbox := by unfold accept; split <;> rfl
@[simp] theorem accept_gone : (c.accept r).gone = c.gone := by unfold accept; split <;> rfl
@[simp] theorem accept_cut : (c.accept r).cut = c.cut := by unfold accept; split <;> rfl

@[simp]
theorem readable_accept : (c.accept r).Readable ↔ c.Readable := by
  simp [Readable]

end

end PlayerConn

namespace PlayerFd

def Readable : PlayerFd → Prop
  | .conn c        => c.Readable
  | .none | .socket => False

instance : (fd : PlayerFd) → Decidable fd.Readable
  | .conn c => inferInstanceAs (Decidable c.Readable)
  | .none | .socket => inferInstanceAs (Decidable False)

-- A `processSend` has ended before its frame was written whole. `part` says whether `write` had accepted
-- some of it, and the stream now holds a frame which was cut short.
def cutShort (part : Bool) : PlayerFd → PlayerFd
  | .conn c => .conn { c with cut := c.cut || part }
  | fd      => fd

@[simp]
theorem readable_cutShort {part : Bool} : (fd : PlayerFd) → (fd.cutShort part).Readable ↔ fd.Readable
  | .none | .socket | .conn _ => .rfl

end PlayerFd

namespace SnapcastComm

-- Where a thread stands in `LightningCastClient::doPlay`, `doPause` or `doStop`. The first three places
-- and `result` belong to `doPlay`, the others to all three.
inductive Call
  | openCmd                  -- in `Open`, before the mutex is taken
  | openWait                 -- in `Open`, waiting on `cond_sync`
  | reset                    -- in `sendStart`, before `send_start_result = false`
  | write (c : PlayerCmd)    -- before `processSend`
  | lockWait (r : Request)   -- in `LockWait`, before the mutex is taken
  | blocked (r : Request)    -- in `LockWait`, waiting on `cond`
  | result (r : Request)     -- in `sendStart`, before `return send_start_result`
  | close                    -- in `Close`, before the mutex is taken
  | closeWait                -- in `Close`, waiting on `cond_sync`
deriving DecidableEq

-- Where a caller goes on when `LockWait` for its request has returned.
def Call.after (r : Request) : Call :=
  match r.cmd with
  | .START => .result r
  | .STOP  => .close

-- Where the handler thread stands.
inductive HandlerPc
  | handle                         -- in `handle`, before the mutex is taken
  | wait                           -- in `handle`, waiting on `cond`
  | socket                         -- `do_open`: `connectServer`, before `socket`
  | connect                        -- in the loop of `connectServer`
  | finish                         -- before `LockfinishCmd`
  | loop                           -- before the test of `while (cmd == NONE)`
  | select                         -- past that test, `select` has not returned
  | scan (wake server : Bool)      -- the descriptors which `select` reported and are still to be visited
  | checkWake (server : Bool)      -- past `wake_fd.Read`, before `if (cmd != NONE)`
  | parse (r : Receipt) (wake : Bool)    -- in `doParse`, before the receipt takes effect
  | signal (r : Receipt) (wake : Bool)   -- before `LockSignal`
  | notify (wake : Bool)           -- in `LockSignal`, past the mutex, before `notify_one`
  | close                          -- past the loop, before the connection is closed
  | returned                       -- `handle` has returned
deriving DecidableEq

def HandlerPc.ofTurn : Mailbox.Turn → HandlerPc
  | .doOpen => .socket
  | .wait   => .wait
  | .exit   => .returned

-- What has happened to receipts so far: the receipts which have set `pending` since it was last
-- consumed, all receipts which have set it, the waits which have ended with the receipts which had set
-- the flag that they consumed, and what `sendStart` returned for its requests.
structure History where
  signals   : List Receipt                  := []
  processed : List Receipt                  := []
  released  : List (Request × List Receipt) := []
  started   : List (Request × Bool)         := []

structure State where
  comm     : SnapcastComm         := {}
  handler  : HandlerPc            := .handle
  call     : Thread → Option Call := fun _ => none
  history  : History              := {}
  requests : Nat                  := 0
  conns    : Nat                  := 0

inductive Act
  | doPlay (t : Thread)
  | doPause (t : Thread)
  | doStop (t : Thread)
  | openCmd (t : Thread) (w : Option Thread)
  | close (t : Thread) (w : Option Thread)
  | rewait (t : Thread)
  | opened (t : Thread)
  | closed (t : Thread)
  | exit (w : Option Thread)
  | reset (t : Thread)
  | refuse (t : Thread) (c : PlayerCmd)
  | send (t : Thread) (c : PlayerCmd) (k : PlayerConn)
  | cut (t : Thread) (c : PlayerCmd) (part : Bool)
  | block (t : Thread) (r : Request)
  | consume (t : Thread) (r : Request)
  | started (t : Thread) (r : Request)
  | handle (w : Option Thread)
  | resume (w : Option Thread)
  | socket
  | connect
  | finish (w : Option Thread)
  | loop
  | select
  | selectError
  | readWake (server : Bool)
  | checkWake (server : Bool)
  | doRead (wake : Bool) (k : PlayerConn)
  | parse (r : Receipt) (wake : Bool)
  | lockSignal (r : Receipt) (wake : Bool)
  | notify (wake : Bool) (w : Option Thread)
  | scanned
  | teardown
  | answer (k : PlayerConn) (r : Request) (result : Bool)
  | babble (k : PlayerConn)
  | hangUp (k : PlayerConn)
  | spurious (t : Thread)

-- The locked regions of the callers. Each one waits in the end, except for that of `Exit`.
section

variable (t : Thread) (w : Option Thread) (c : SnapcastComm)

def openCmd : SnapcastComm :=
  { c with toMailbox := (c.toMailbox.post .OPEN w).await t }

def close : SnapcastComm :=
  { c with toMailbox := (c.toMailbox.post .CLOSE w).await t, wakeFd := true }

def exit : SnapcastComm :=
  { c with toMailbox := c.toMailbox.post .EXIT w }

def lockFinishCmd : SnapcastComm :=
  { c with toMailbox := c.toMailbox.finishCmd w }

end

-- The part of `doParse` before `LockSignal`.
def setResult (r : Receipt) (c : SnapcastComm) : SnapcastComm :=
  { c with sendStartResult := if r.cmd = .START then r.result else c.sendStartResult }

namespace State

def goto (s : State) (t : Thread) (c : Call) : State :=
  { s with call := Function.update s.call t (some c) }

def done (s : State) (t : Thread) : State :=
  { s with call := Function.update s.call t none }

section

variable (s : State) (t : Thread) (c : Call)

@[simp] theorem goto_comm : (s.goto t c).comm = s.comm := rfl
@[simp] theorem goto_handler : (s.goto t c).handler = s.handler := rfl
@[simp] theorem goto_call : (s.goto t c).call = Function.update s.call t (some c) := rfl
@[simp] theorem goto_history : (s.goto t c).history = s.history := rfl
@[simp] theorem goto_requests : (s.goto t c).requests = s.requests := rfl
@[simp] theorem done_comm : (s.done t).comm = s.comm := rfl
@[simp] theorem done_handler : (s.done t).handler = s.handler := rfl
@[simp] theorem done_call : (s.done t).call = Function.update s.call t none := rfl
@[simp] theorem done_history : (s.done t).history = s.history := rfl
@[simp] theorem done_requests : (s.done t).requests = s.requests := rfl

end

-- Thread `t` holds the mutex in `LockWait` and tests `pending`: for the first time, or after it has been
-- woken.
def TestsPending (s : State) (t : Thread) (r : Request) : Prop :=
  s.call t = some (.lockWait r) ∨ s.call t = some (.blocked r) ∧ t ∉ s.comm.cond

-- Thread `t` holds the mutex in `Open` or `Close` after it has been woken.
def TestsReady (s : State) (t : Thread) (c : Call) : Prop :=
  s.call t = some c ∧ t ∉ s.comm.condSync

instance (s : State) (t : Thread) (r : Request) : Decidable (s.TestsPending t r) :=
  inferInstanceAs (Decidable (_ ∨ _ ∧ _))

instance (s : State) (t : Thread) (c : Call) : Decidable (s.TestsReady t c) :=
  inferInstanceAs (Decidable (_ ∧ _))

-- The request of thread `t` at its `processSend`.
def request (s : State) (c : PlayerCmd) (conn : Option Nat) : Request :=
  { id := s.requests, cmd := c, conn }

-- `LockWait` has consumed `pending`.
def consumed (s : State) (t : Thread) (r : Request) : State :=
  { s.goto t (.after r) with
    comm    := { s.comm with pending := false }
    history := { s.history with
      signals  := []
      released := s.history.released ++ [(r, s.history.signals)] } }

-- `sendStart` has returned; `doPlay` goes on to `Close` if it returned false.
def startedWith (s : State) (t : Thread) (r : Request) : State :=
  { s with
    call    := Function.update s.call t (if s.comm.sendStartResult then none else some .close)
    history := { s.history with started := s.history.started ++ [(r, s.comm.sendStartResult)] } }

section

variable (s : State) (t : Thread) (r : Request)

@[simp] theorem consumed_comm : (s.consumed t r).comm = { s.comm with pending := false } := rfl
@[simp] theorem consumed_handler : (s.consumed t r).handler = s.handler := rfl
@[simp] theorem consumed_call :
    (s.consumed t r).call = Function.update s.call t (some (.after r)) := rfl
@[simp] theorem startedWith_comm : (s.startedWith t r).comm = s.comm := rfl
@[simp] theorem startedWith_handler : (s.startedWith t r).handler = s.handler := rfl
@[simp] theorem startedWith_call : (s.startedWith t r).call =
    Function.update s.call t (if s.comm.sendStartResult then none else some .close) := rfl

end

-- The handler's region has left the mailbox as `r.1`, and the handler itself where `r.2` says.
def turn (s : State) (r : Mailbox Thread × Mailbox.Turn) : State :=
  { s with comm := { s.comm with toMailbox := r.1 }, handler := .ofTurn r.2 }

@[simp]
theorem turn_call (s : State) (r : Mailbox Thread × Mailbox.Turn) : (s.turn r).call = s.call := rfl

-- `doRead` on a connection which `select` has reported.
def read (s : State) (wake : Bool) (k : PlayerConn) : State :=
  match k.inbox with
  | .receipt r :: msgs =>
    { s with comm.serverFd := .conn { k with inbox := msgs }, handler := .parse r wake }
  | .malformed :: msgs => { s with comm.serverFd := .conn { k with inbox := msgs }, handler := .close }
  | []                 => { s with handler := .close }

section

variable (s : State) (wake : Bool) (k : PlayerConn)

@[simp]
theorem read_call : (s.read wake k).call = s.call := by
  unfold read; split <;> rfl

@[simp]
theorem read_history : (s.read wake k).history = s.history := by
  unfold read; split <;> rfl

@[simp]
theorem read_requests : (s.read wake k).requests = s.requests := by
  unfold read; split <;> rfl

@[simp]
theorem read_comm_toMailbox : (s.read wake k).comm.toMailbox = s.comm.toMailbox := by
  unfold read; split <;> rfl

@[simp]
theorem read_comm_pending : (s.read wake k).comm.pending = s.comm.pending := by
  unfold read; split <;> rfl

@[simp]
theorem read_comm_sendStartResult : (s.read wake k).comm.sendStartResult = s.comm.sendStartResult := by
  unfold read; split <;> rfl

@[simp]
theorem read_handler_ne_select : (s.read wake k).handler ≠ .select := by
  unfold read; split <;> simp

@[simp]
theorem read_handler_ne_returned : (s.read wake k).handler ≠ .returned := by
  unfold read; split <;> simp

end

-- What `read` leaves: the handler goes on with a receipt, or leaves the loop.
theorem read_cases (s : State) (wake : Bool) (k : PlayerConn) :
    (∃ r msgs, k.inbox = .receipt r :: msgs ∧ s.read wake k =
      { s with comm.serverFd := .conn { k with inbox := msgs }, handler := .parse r wake }) ∨
    (∃ msgs, k.inbox = .malformed :: msgs ∧ s.read wake k =
      { s with comm.serverFd := .conn { k with inbox := msgs }, handler := .close }) ∨
    (k.inbox = [] ∧ s.read wake k = { s with handler := .close }) := by
  unfold read
  split
  case _ r msgs h => exact .inl ⟨r, msgs, h, rfl⟩
  case _ msgs h   => exact .inr <| .inl ⟨msgs, h, rfl⟩
  case _ h        => exact .inr <| .inr ⟨h, rfl⟩

end State

-- One atomic step. Regions under `SnapcastComm::mutex` are single steps, as is a whole `processSend`.
def step (s : State) : Act → Option State
  -- the callers
  | .doPlay t =>
    if t = .client ∧ s.call t = none then some (s.goto t .openCmd) else none
  | .doPause t =>
    if t = .client ∧ s.call t = none then some (s.goto t (.write .STOP)) else none
  | .doStop t =>
    if t ≠ .snapcast ∧ s.call t = none then some (s.goto t (.write .STOP)) else none
  | .openCmd t w =>
    if s.call t = some .openCmd ∧ Wakes s.comm.cond w
    then some { s.goto t .openWait with comm := s.comm.openCmd t w } else none
  | .close t w =>
    if s.call t = some .close ∧ Wakes s.comm.cond w
    then some { s.goto t .closeWait with comm := s.comm.close t w } else none
  | .rewait t =>
    if (s.TestsReady t .openWait ∨ s.TestsReady t .closeWait) ∧ ¬s.comm.readySync
    then some { s with comm := { s.comm with toMailbox := s.comm.toMailbox.await t } } else none
  | .opened t =>
    if s.TestsReady t .openWait ∧ s.comm.Finished then some (s.goto t .reset) else none
  | .closed t =>
    if s.TestsReady t .closeWait ∧ s.comm.Finished then some (s.done t) else none
  | .exit w =>
    if Wakes s.comm.cond w then some { s with comm := s.comm.exit w } else none
  | .reset t =>
    if s.call t = some .reset
    then some { s.goto t (.write .START) with comm := { s.comm with sendStartResult := false } } else none
  | .refuse t c =>
    if s.call t = some (.write c) ∧ s.comm.serverFd = .none then some (s.goto t .close) else none
  | .send t c k =>
    if s.call t = some (.write c) ∧ s.comm.serverFd = .conn k
    then
      let r := s.request c (some k.id)
      some { s.goto t (.lockWait r) with
        comm     := { s.comm with serverFd := .conn (k.accept r) }
        requests := s.requests + 1 }
    else none
  | .cut t c part =>
    if s.call t = some (.write c) ∧ s.comm.serverFd ≠ .none
    then some { s.goto t (.lockWait (s.request c none)) with
      comm     := { s.comm with serverFd := s.comm.serverFd.cutShort part }
      requests := s.requests + 1 }
    else none
  | .block t r =>
    if s.TestsPending t r ∧ ¬s.comm.pending
    then some { s.goto t (.blocked r) with comm := { s.comm with cond := insert t s.comm.cond } } else none
  | .consume t r =>
    if s.TestsPending t r ∧ s.comm.pending then some (s.consumed t r) else none
  | .started t r =>
    if s.call t = some (.result r) then some (s.startedWith t r) else none
  -- the handler
  | .handle w =>
    if s.handler = .handle ∧ s.comm.HandleWakes w
    then some (s.turn (s.comm.toMailbox.handle .snapcast w)) else none
  | .resume w =>
    if s.handler = .wait ∧ .snapcast ∉ s.comm.cond ∧ s.comm.ResumeWakes w
    then some (s.turn (s.comm.toMailbox.resume .snapcast w)) else none
  | .socket =>
    if s.handler = .socket
    then some { s with comm := { s.comm with serverFd := .socket }, handler := .connect } else none
  | .connect =>
    if s.handler = .connect
    then some { s with
      comm    := { s.comm with serverFd := .conn { id := s.conns } }
      handler := .finish
      conns   := s.conns + 1 }
    else none
  | .finish w =>
    if s.handler = .finish ∧ Wakes s.comm.condSync w
    then some { s with comm := s.comm.lockFinishCmd w, handler := .loop } else none
  | .loop =>
    if s.handler = .loop
    then some { s with handler := if s.comm.cmd = .NONE then .select else .close } else none
  | .select =>
    if s.handler = .select ∧ (s.comm.wakeFd ∨ s.comm.serverFd.Readable)
    then some { s with handler := .scan s.comm.wakeFd (decide s.comm.serverFd.Readable) } else none
  | .selectError =>
    if s.handler = .select then some { s with handler := .close } else none
  | .readWake server =>
    if s.handler = .scan true server
    then some { s with comm := { s.comm with wakeFd := false }, handler := .checkWake server } else none
  | .checkWake server =>
    if s.handler = .checkWake server
    then some { s with handler := if s.comm.cmd ≠ .NONE then .loop else .scan false server } else none
  | .doRead wake k =>
    if s.handler = .scan wake true ∧ s.comm.serverFd = .conn k ∧ k.Readable
    then some (s.read wake k) else none
  | .parse r wake =>
    if s.handler = .parse r wake
    then some { s with
      comm    := s.comm.setResult r
      handler := .signal r wake }
    else none
  | .lockSignal r wake =>
    if s.handler = .signal r wake
    then some { s with
      comm    := { s.comm with pending := true }
      history := { s.history with
        signals   := s.history.signals ++ [r]
        processed := s.history.processed ++ [r] }
      handler := .notify wake }
    else none
  | .notify wake w =>
    if s.handler = .notify wake ∧ Wakes s.comm.cond w
    then some { s with
      comm    := { s.comm with cond := Mailbox.woken s.comm.cond w }
      handler := .scan wake false }
    else none
  | .scanned =>
    if s.handler = .scan false false then some { s with handler := .loop } else none
  | .teardown =>
    if s.handler = .close
    then some { s with comm := { s.comm with serverFd := .none }, handler := .handle } else none
  -- the player
  | .answer k r result =>
    if s.comm.serverFd = .conn k ∧ ¬k.gone ∧ k.requests.head? = some r
    then some { s with comm := { s.comm with serverFd := .conn { k with
      requests := k.requests.tail
      inbox    := k.inbox ++ [.receipt { id := r.id, cmd := r.cmd, result }] } } }
    else none
  | .babble k =>
    if s.comm.serverFd = .conn k ∧ ¬k.gone
    then some { s with
      comm := { s.comm with serverFd := .conn { k with inbox := k.inbox ++ [.malformed] } } }
    else none
  | .hangUp k =>
    if s.comm.serverFd = .conn k ∧ ¬k.gone
    then some { s with comm := { s.comm with serverFd := .conn { k with gone := true } } } else none
  -- the condition variables
  | .spurious t =>
    if t ∈ s.comm.cond ∨ t ∈ s.comm.condSync
    then some { s with comm := { s.comm with toMailbox := s.comm.toMailbox.spurious t } } else none

def machine : Machine State Act where
  init := {}
  step := step

end SnapcastComm
