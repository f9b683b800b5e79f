import LightningCast.Library.Mailbox
import LightningCast.Common

open Mailbox (Cmd Wakes)

-- `server_fd`: -1, a socket on which `connect` has not succeeded, or a connection to the peer which
-- `gethostbyname` found for a `serverIP`.
inductive CastFd
  | none
  | socket
  | conn (peer : Bytes)
deriving DecidableEq

structure LightningCastClient extends Mailbox Thread where
  isOpen   : Bool   := false
  serverIP : Bytes  := []
  serverFd : CastFd := .none
  wakeFd   : Bool   := false

namespace LightningCastClient

-- Where the server thread stands in `Open`, or the main thread in `Exit`.
inductive Call
  | check       -- before `getIsOpen`
  | stop        -- before `doStop`
  | stopping    -- in `doStop`
  | close       -- in `Close`, before the mutex is taken
  | closeWait   -- in `Close`, waiting on `cond_sync`
  | post        -- before the mutex is taken for `OPEN` or `EXIT`
  | wait        -- in `Open`, waiting on `cond_sync`
deriving DecidableEq

-- Where the handler thread stands.
inductive HandlerPc
  | handle                         -- in `handle`, before the mutex is taken
  | wait                           -- in `handle`, waiting on `cond`
  | socket                         -- `do_open`: `connectServer`, before `socket`
  | resolve                        -- before `gethostbyname`
  | connect (ip : Bytes)           -- in `connect`
  | failFlag                       -- past a failed `connectServer`, before `setIsOpen(false)`
  | failFinish                     -- before its `LockfinishCmd`
  | flag                           -- before `setIsOpen(true)`
  | finish                         -- before its `LockfinishCmd`
  | loop                           -- before the test of `while (cmd == NONE)`
  | select                         -- past that test, `select` has not returned
  | scan (wake server : Bool)      -- the descriptors which `select` reported and are still to be visited
  | checkWake (server : Bool)      -- past `wake_fd.Read`, before `if (cmd != NONE)`
  | calling (wake : Bool)          -- in `doPlay`, `doPause` or `doStop`, called by `doParse`
  | unflag                         -- past the loop, before `setIsOpen(false)`
  | stop                           -- before the `doStop` which ends the session
  | stopping                       -- in that `doStop`
  | close                          -- before the connection is closed
  | returned                       -- `handle` has returned
deriving DecidableEq

def HandlerPc.ofTurn : Mailbox.Turn → HandlerPc
  | .doOpen => .socket
  | .wait   => .wait
  | .exit   => .returned

-- What `doRead` can find: a message which calls into `SnapcastComm`, another one which `doParse`
-- accepts, or anything which makes `doRead` return false, such as `SET_EXIT` or the end of the stream.
inductive CastMsg
  | play
  | pause
  | stop
  | other
  | reject
deriving DecidableEq

-- Where the main thread stands.
inductive MainPc
  | running         -- before `q` is pressed
  | exiting         -- in `LightningCastClient::Exit`
  | snapcastExit    -- before `SnapcastComm::Exit`
  | serverExit      -- before `LightningCastServer::Exit`
  | joining         -- past it
deriving DecidableEq

-- An `Open(ip)` which has returned: its result and the peers with which the handler has established a
-- connection during the call.
structure Opened where
  ip     : Bytes
  result : Bool
  peers  : List Bytes
deriving DecidableEq

-- `ip` is the argument of the last `Open`, and `peers` are those with which a connection has been
-- established since it began.
structure State where
  cast       : LightningCastClient  := {}
  handler    : HandlerPc            := .handle
  call       : Thread → Option Call := fun _ => none
  main       : MainPc               := .running
  serverWake : Bool                 := false
  serverDone : Bool                 := false
  ip         : Bytes                := []
  peers      : List Bytes           := []
  opened     : List Opened          := []

inductive Act
  | openCall (ip : Bytes)
  | exitCall
  | getIsOpen (t : Thread)
  | doStop (t : Thread)
  | stopped (t : Thread)
  | close (t : Thread) (w : Option Thread)
  | rewait (t : Thread)
  | closed (t : Thread)
  | openCmd (w : Option Thread)
  | opened
  | exit (w : Option Thread)
  | snapcastExit
  | serverExit
  | serverReturn
  | handle (w : Option Thread)
  | resume (w : Option Thread)
  | socket (ok : Bool)
  | resolve (ok : Bool)
  | connect (ok : Bool) (ip : Bytes)
  | failFlag
  | failFinish (w : Option Thread)
  | flag
  | finish (w : Option Thread)
  | loop
  | select (server : Bool)
  | timeout (alive : Bool)
  | selectError
  | readWake (server : Bool)
  | checkWake (server : Bool)
  | doRead (wake : Bool) (msg : CastMsg)
  | called (wake : Bool)
  | scanned
  | unflag
  | sessionStop
  | sessionStopped
  | teardown
  | spurious (t : Thread)

-- The locked regions of the callers.
section

variable (t : Thread) (w : Option Thread) (ip : Bytes) (c : LightningCastClient)

def openCmd : LightningCastClient :=
  { c with toMailbox := (c.toMailbox.post .OPEN w).await t, isOpen := false, serverIP := ip }

def close : LightningCastClient :=
  { c with toMailbox := (c.toMailbox.post .CLOSE w).await t, wakeFd := true }

def exit : LightningCastClient :=
  { c with toMailbox := c.toMailbox.post .EXIT w }

def lockFinishCmd : LightningCastClient :=
  { c with toMailbox := c.toMailbox.finishCmd w }

end

def setIsOpen (b : Bool) (c : LightningCastClient) : LightningCastClient :=
  { c with isOpen := b }

namespace State

def goto (s : State) (t : Thread) (c : Call) : State :=
  { s with call := Function.update s.call t (some c) }

def done (s : State) (t : Thread) : State :=
  { s with call := Function.update s.call t none }

-- Thread `t` holds the mutex in `Open` or `Close` after it has been woken.
def TestsReady (s : State) (t : Thread) (c : Call) : Prop :=
  s.call t = some c ∧ t ∉ s.cast.condSync

instance (s : State) (t : Thread) (c : Call) : Decidable (s.TestsReady t c) :=
  inferInstanceAs (Decidable (_ ∧ _))

-- The handler's region has left the mailbox as `r.1`, and the handler itself where `r.2` says.
def turn (s : State) (r : Mailbox Thread × Mailbox.Turn) : State :=
  { s with cast := { s.cast with toMailbox := r.1 }, handler := .ofTurn r.2 }

-- `connectServer` has failed.
def fail (s : State) : State :=
  { s with cast := { s.cast with serverFd := .none }, handler := .failFlag }

section

variable (s : State) (t : Thread) (c : Call) (r : Mailbox Thread × Mailbox.Turn)

@[simp] theorem goto_cast : (s.goto t c).cast = s.cast := rfl
@[simp] theorem goto_handler : (s.goto t c).handler = s.handler := rfl
@[simp] theorem goto_call : (s.goto t c).call = Function.update s.call t (some c) := rfl
@[simp] theorem goto_main : (s.goto t c).main = s.main := rfl
@[simp] theorem goto_ip : (s.goto t c).ip = s.ip := rfl
@[simp] theorem goto_peers : (s.goto t c).peers = s.peers := rfl
@[simp] theorem goto_opened : (s.goto t c).opened = s.opened := rfl
@[simp] theorem done_cast : (s.done t).cast = s.cast := rfl
@[simp] theorem done_handler : (s.done t).handler = s.handler := rfl
@[simp] theorem done_call : (s.done t).call = Function.update s.call t none := rfl
@[simp] theorem done_main : (s.done t).main = s.main := rfl
@[simp] theorem done_ip : (s.done t).ip = s.ip := rfl
@[simp] theorem done_peers : (s.done t).peers = s.peers := rfl
@[simp] theorem turn_call : (s.turn r).call = s.call := rfl
@[simp] theorem turn_main : (s.turn r).main = s.main := rfl

end

end State

-- One atomic step. Regions under `LightningCastClient::mutex` are single steps, and a call into
-- `SnapcastComm` takes any time.
def step (s : State) : Act → Option State
  -- the server thread in `Open`, the main thread in `Exit`
  | .openCall ip =>
    if s.call .server = none ∧ ¬s.serverDone
    then some { s.goto .server .check with ip, peers := [] } else none
  | .exitCall =>
    if s.main = .running then some { s.goto .main .check with main := .exiting } else none
  | .getIsOpen t =>
    if s.call t = some .check
    then some (s.goto t (if s.cast.isOpen then .stop else .post)) else none
  | .doStop t =>
    if s.call t = some .stop then some (s.goto t .stopping) else none
  | .stopped t =>
    if s.call t = some .stopping then some (s.goto t .close) else none
  | .close t w =>
    if s.call t = some .close ∧ Wakes s.cast.cond w
    then some { s.goto t .closeWait with cast := s.cast.close t w } else none
  | .rewait t =>
    if (s.TestsReady t .wait ∨ s.TestsReady t .closeWait) ∧ ¬s.cast.readySync
    then some { s with cast := { s.cast with toMailbox := s.cast.toMailbox.await t } } else none
  | .closed t =>
    if s.TestsReady t .closeWait ∧ s.cast.Finished
    then some { s.goto t .post with cast := s.cast.setIsOpen false } else none
  | .openCmd w =>
    if s.call .server = some .post ∧ Wakes s.cast.cond w
    then some { s.goto .server .wait with cast := s.cast.openCmd .server w s.ip } else none
  | .opened =>
    if s.TestsReady .server .wait ∧ s.cast.Finished
    then some { s.done .server with
      opened := s.opened ++ [{ ip := s.ip, result := s.cast.isOpen, peers := s.peers }] }
    else none
  | .exit w =>
    if s.call .main = some .post ∧ Wakes s.cast.cond w
    then some { s.done .main with cast := s.cast.exit w, main := .snapcastExit } else none
  | .snapcastExit =>
    if s.main = .snapcastExit then some { s with main := .serverExit } else none
  | .serverExit =>
    if s.main = .serverExit then some { s with main := .joining, serverWake := true } else none
  | .serverReturn =>
    if s.call .server = none ∧ s.serverWake then some { s with serverDone := true } else none
  -- the handler
  | .handle w =>
    if s.handler = .handle ∧ s.cast.HandleWakes w
    then some (s.turn (s.cast.toMailbox.handle .client w)) else none
  | .resume w =>
    if s.handler = .wait ∧ .client ∉ s.cast.cond ∧ s.cast.ResumeWakes w
    then some (s.turn (s.cast.toMailbox.resume .client w)) else none
  | .socket ok =>
    if s.handler = .socket
    then some <|
      if ok then { s with cast := { s.cast with serverFd := .socket }, handler := .resolve } else s.fail
    else none
  | .resolve ok =>
    if s.handler = .resolve
    then some (if ok then { s with handler := .connect s.cast.serverIP } else s.fail) else none
  | .connect ok ip =>
    if s.handler = .connect ip
    then some (
      if ok
      then { s with
        cast    := { s.cast with serverFd := .conn ip }
        handler := .flag
        peers   := s.peers ++ [ip] }
      else s.fail)
    else none
  | .failFlag =>
    if s.handler = .failFlag
    then some { s with cast := s.cast.setIsOpen false, handler := .failFinish } else none
  | .failFinish w =>
    if s.handler = .failFinish ∧ Wakes s.cast.condSync w
    then some { s with cast := s.cast.lockFinishCmd w, handler := .handle } else none
  | .flag =>
    if s.handler = .flag
    then some { s with cast := s.cast.setIsOpen true, handler := .finish } else none
  | .finish w =>
    if s.handler = .finish ∧ Wakes s.cast.condSync w
    then some { s with cast := s.cast.lockFinishCmd w, handler := .loop } else none
  | .loop =>
    if s.handler = .loop
    then some { s with handler := if s.cast.cmd = .NONE then .select else .unflag } else none
  | .select server =>
    if s.handler = .select ∧ (s.cast.wakeFd ∨ server)
    then some { s with handler := .scan s.cast.wakeFd server } else none
  | .timeout alive =>
    if s.handler = .select ∧ ¬s.cast.wakeFd
    then some { s with handler := if alive then .loop else .unflag } else none
  | .selectError =>
    if s.handler = .select then some { s with handler := .unflag } else none
  | .readWake server =>
    if s.handler = .scan true server
    then some { s with cast := { s.cast with wakeFd := false }, handler := .checkWake server } else none
  | .checkWake server =>
    if s.handler = .checkWake server
    then some { s with handler := if s.cast.cmd ≠ .NONE then .loop else .scan false server } else none
  | .doRead wake msg =>
    if s.handler = .scan wake true
    then some { s with
      handler :=
        match msg with
        | .play | .pause | .stop => .calling wake
        | .other                 => .scan wake false
        | .reject                => .unflag }
    else none
  | .called wake =>
    if s.handler = .calling wake then some { s with handler := .scan wake false } else none
  | .scanned =>
    if s.handler = .scan false false then some { s with handler := .loop } else none
  | .unflag =>
    if s.handler = .unflag
    then some { s with cast := s.cast.setIsOpen false, handler := .stop } else none
  | .sessionStop =>
    if s.handler = .stop then some { s with handler := .stopping } else none
  | .sessionStopped =>
    if s.handler = .stopping then some { s with handler := .close } else none
  | .teardown =>
    if s.handler = .close
    then some { s with cast := { s.cast with serverFd := .none }, handler := .handle } else none
  -- the condition variables
  | .spurious t =>
    if t ∈ s.cast.cond ∨ t ∈ s.cast.condSync
    then some { s with cast := { s.cast with toMailbox := s.cast.toMailbox.spurious t } } else none

def machine : Machine State Act where
  init := {}
  step := step

end LightningCastClient
