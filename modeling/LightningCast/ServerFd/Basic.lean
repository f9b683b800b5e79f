import LightningCast.Library.Machine
import LightningCast.Common
import Mathlib.Data.Finset.Erase

-- `server_fd` in its two classes: the handler sets it up without `server_mutex` and takes it down under
-- it, and calls of `processSend` read it under it.
namespace ServerFd

-- -1, a socket on which `connect` has not succeeded, a connected socket, or what has been closed.
inductive Fd
  | none
  | made
  | connected
  | closed
deriving DecidableEq

-- What a step of `connectServer` does to it.
inductive Effect
  | keep
  | socket
  | connect
  | close
  | reset
deriving DecidableEq

def Fd.apply (fd : Fd) : Effect → Fd
  | .keep    => fd
  | .socket  => .made
  | .connect => .connected
  | .close   => .closed
  | .reset   => .none

-- Where the handler is.
inductive HandlerPc
  | outside       -- before `connectServer`
  | resolve       -- before `gethostbyname`
  | connect       -- before `connect`
  | nonBlocking   -- before `make_socket_non_blocking`
  | close         -- `connectServer` has failed, before `close`
  | reset         -- before `server_fd = -1`
  | session       -- past `connectServer`
deriving DecidableEq

end ServerFd

open ServerFd (Effect)

-- The next step of `connectServer`, if the call which it makes succeeds, or fails.
def LightningCastClient.connectServer : ServerFd.HandlerPc → Bool → Option (ServerFd.HandlerPc × Effect)
  | .outside, true      => some (.resolve, .socket)
  | .outside, false     => some (.outside, .reset)
  | .resolve, true      => some (.connect, .keep)
  | .resolve, false     => some (.close, .keep)
  | .connect, true      => some (.nonBlocking, .connect)
  | .connect, false     => some (.close, .keep)
  | .nonBlocking, true  => some (.session, .keep)
  | .nonBlocking, false => some (.close, .keep)
  | .close, _           => some (.reset, .close)
  | .reset, _           => some (.outside, .reset)
  | .session, _         => none

-- A failed `socket` ends the process, and a failed `connect` is tried again.
def SnapcastComm.connectServer : ServerFd.HandlerPc → Bool → Option (ServerFd.HandlerPc × Effect)
  | .outside, true  => some (.connect, .socket)
  | .connect, true  => some (.session, .connect)
  | .connect, false => some (.connect, .keep)
  | _, _            => none

namespace ServerFd

inductive Class
  | lightningCastClient
  | snapcastComm
deriving DecidableEq

namespace Class

def connectServer : Class → HandlerPc → Bool → Option (HandlerPc × Effect)
  | lightningCastClient => LightningCastClient.connectServer
  | snapcastComm        => SnapcastComm.connectServer

-- The thread which runs `handle`.
def handler : Class → Thread
  | lightningCastClient => .client
  | snapcastComm        => .snapcast

-- The threads which call `processSend`: `main` for a key and the handler for a session, or those which
-- call `sendStart`, `sendPause` and `sendStop`.
def senders : Class → List Thread
  | lightningCastClient => [.main, .client]
  | snapcastComm        => [.main, .server, .client]

end Class

-- The call which holds `server_mutex`, before it has tested `server_fd == -1` or in its loop of `write`s.
structure Current where
  thread  : Thread
  writing : Bool
deriving DecidableEq

structure State where
  fd      : Fd             := .none
  handler : HandlerPc      := .outside
  waiting : Finset Thread  := ∅
  current : Option Current := none
deriving DecidableEq

inductive Act
  | connectServer (ok : Bool)
  | teardown
  | call (t : Thread)
  | lock (t : Thread)
  | test
  | write (last : Bool)
deriving DecidableEq

variable (c : Class)

-- Thread `t` can call `processSend`. The handler does so only in a session.
def State.CanCall (s : State) (t : Thread) : Prop :=
  t ∈ c.senders ∧ t ∉ s.waiting ∧ s.current.all (·.thread ≠ t) ∧ (t = c.handler → s.handler = .session)

instance (s : State) (t : Thread) : Decidable (s.CanCall c t) :=
  inferInstanceAs (Decidable (_ ∧ _))

def step (s : State) : Act → Option State
  | .connectServer ok =>
    (c.connectServer s.handler ok).map fun r => { s with handler := r.1, fd := s.fd.apply r.2 }
  | .teardown =>
    if s.handler = .session ∧ c.handler ∉ s.waiting ∧ s.current = none
    then some { s with handler := .outside, fd := .none } else none
  | .call t => if s.CanCall c t then some { s with waiting := insert t s.waiting } else none
  | .lock t =>
    if t ∈ s.waiting ∧ s.current = none
    then some { s with waiting := s.waiting.erase t, current := some { thread := t, writing := false } }
    else none
  | .test =>
    match s.current with
    | some ⟨t, false⟩ =>
      some { s with current := if s.fd = .none then none else some { thread := t, writing := true } }
    | _ => none
  | .write last =>
    match s.current with
    | some ⟨t, true⟩ => some { s with current := if last then none else some { thread := t, writing := true } }
    | _              => none

def machine : Machine State Act where
  init := {}
  step := step c

end ServerFd
