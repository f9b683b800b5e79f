import LightningCast.Library.Machine
import LightningCast.LightningCastClient.Parse

open Json (Value)

namespace LightningCastClient

-- What `sendRemoteCommand` sends: the version of the protocol, or a command with its value.
inductive RemoteCommand
  | version (major minor patch : Int32)
  | value (cmd : LightningCastCommCmd) (value : Int32)
deriving DecidableEq

def remoteCommand (cmd : LightningCastCommCmd) (value : Int32) : RemoteCommand :=
  if cmd = .NOTIFY_VERSION then .version 1 0 0 else .value cmd value

-- Sums of `int`s. They are not defined if they overflow.
def intOfInt (n : Int) : Option Int32 :=
  if Value.minInt ≤ n ∧ n ≤ Value.maxInt then some (.ofInt n) else none

-- The remote control: the keys of `main`, the beginning of a session in `do_open`, and the messages
-- which set what the keys change.
namespace Remote

-- `connected` says whether `processSend` finds a connection, and `overflow` whether a sum has overflowed.
structure State where
  session   : Session            := {}
  connected : Bool               := false
  sent      : List RemoteCommand := []
  overflow  : Bool               := false

inductive Act
  | start
  | message (env : Env) (payload : Bytes)
  | close
  | key (ch : Char)

namespace State

def sendRemoteCommand (s : State) (cmd : LightningCastCommCmd) (value : Int32) : State :=
  if s.connected then { s with sent := s.sent ++ [remoteCommand cmd value] } else s

@[simp]
theorem sendRemoteCommand_session (s : State) (cmd : LightningCastCommCmd) (value : Int32) :
    (s.sendRemoteCommand cmd value).session = s.session := by
  unfold sendRemoteCommand; split <;> rfl

@[simp]
theorem sendRemoteCommand_connected (s : State) (cmd : LightningCastCommCmd) (value : Int32) :
    (s.sendRemoteCommand cmd value).connected = s.connected := by
  unfold sendRemoteCommand; split <;> rfl

-- An expression which contains the sum `n`.
def withSum (s : State) (n : Int) (f : Int32 → State) : State :=
  (intOfInt n).elim { s with overflow := true } f

-- `do_open`, from where it has a connection up to its loop.
def start (s : State) : State :=
  let s := { s with connected := true }
  let s := s.sendRemoteCommand .NOTIFY_VERSION 0
  let s := s.sendRemoteCommand .NOTIFY_VOLUME_CONTROL 1
  let s := s.sendRemoteCommand .NOTIFY_VOLUME s.session.currentVolume
  s.sendRemoteCommand .NOTIFY_MUTE 0

-- The `switch` of `main`.
def key (s : State) : Char → State
  | 'k' => s.sendRemoteCommand .NOTIFY_PLAY 0
  | 's' => s.sendRemoteCommand .NOTIFY_STOP 0
  | 'p' => s.sendRemoteCommand .NOTIFY_PAUSE 0
  | 'n' => s.sendRemoteCommand .NOTIFY_NEXT 0
  | 'b' => s.sendRemoteCommand .NOTIFY_PREVIOUS 0
  | 'r' => s.withSum (s.session.currentVolume.toInt + 5) fun v =>
      s.sendRemoteCommand .NOTIFY_VOLUME (if v < 100 then v else 100)
  | 'e' => s.withSum (s.session.currentVolume.toInt - 5) fun v =>
      s.sendRemoteCommand .NOTIFY_VOLUME (if v > 0 then v else 0)
  | 'u' => s.withSum (s.session.position.toInt + 5) fun p => s.sendRemoteCommand .NOTIFY_SEEK p
  | 'y' => s.withSum (s.session.position.toInt - 5) fun p => s.sendRemoteCommand .NOTIFY_SEEK p
  | _   => s

end State

-- A message which `doParse` does not accept ends the session, and an exception ends the program.
def step (s : State) : Act → Option State
  | .start => if s.connected then none else some s.start
  | .message env payload =>
    if s.connected
    then
      match (doParse env payload).run.run s.session with
      | (.ok true, session)  => some { s with session }
      | (.ok false, session) => some { s with session, connected := false }
      | (.error _, _)        => none
    else none
  | .close => some { s with connected := false }
  | .key ch => some (s.key ch)

def machine : Machine State Act where
  init := {}
  step := step

end Remote

end LightningCastClient
