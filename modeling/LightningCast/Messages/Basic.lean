import LightningCast.Json.Writer
import LightningCast.LightningCastClient.Remote
import LightningCast.LightningCastServer.Parse
import LightningCast.SnapcastComm.Parse

open Json (Value Double)
open Json.FastWriter (write)

namespace Json

namespace Value

-- The constructor from an `int`.
def ofInt (n : Int32) : Value :=
  .int n.toInt64

-- A null value after assignments of values to its members.
def assigned (as : List (String × Value)) : Value :=
  .object (as.foldl (fun ms a => setMember (ascii a.1) a.2 ms) [])

end Value

-- What the program uses of jsoncpp. The two parameters are what jsoncpp uses of the streams and of `snprintf`.
def jsoncpp (decodeDouble : Bytes → Option Double) (doubleToString : Double → Bytes) : Lib where
  parse          := Reader.parse decodeDouble
  doubleToString := doubleToString

end Json

-- The texts which are handed to `processSend`.

variable (doubleToString : Double → Bytes)

namespace LightningCastClient

-- The value of the enumerator.
def LightningCastCommCmd.toInt : LightningCastCommCmd → Int32
  | SET_VERSION           => 1
  | SET_EXIT              => 2
  | SET_METADATA          => 3
  | SET_AUDIOFORMAT       => 4
  | SET_DURATION          => 5
  | SET_POSITION          => 6
  | SET_STATUS            => 7
  | SET_PLAY              => 8
  | SET_PAUSE             => 9
  | SET_STOP              => 10
  | SET_VOLUME            => 11
  | SET_MUTE              => 12
  | SET_STEP_VOLUME       => 13
  | NOTIFY_VERSION        => 101
  | NOTIFY_EXIT           => 102
  | NOTIFY_ALIVE          => 103
  | NOTIFY_PLAY           => 104
  | NOTIFY_PAUSE          => 105
  | NOTIFY_STOP           => 106
  | NOTIFY_PREVIOUS       => 107
  | NOTIFY_NEXT           => 108
  | NOTIFY_SEEK           => 109
  | NOTIFY_VOLUME_CONTROL => 110
  | NOTIFY_VOLUME         => 111
  | NOTIFY_MUTE           => 112

theorem LightningCastCommCmd.ofInt_toInt (cmd : LightningCastCommCmd) : ofInt cmd.toInt = some cmd := by
  cases cmd <;> rfl

namespace Send

-- The value which `sendRemoteCommand` writes.
def rootWriter (cmd : LightningCastCommCmd) (value : Int32) : Value :=
  .assigned <| ("Cmd", .ofInt cmd.toInt) ::
    if cmd = .NOTIFY_VERSION
    then [("Major", .ofInt 1), ("Minor", .ofInt 0), ("Patch", .ofInt 0)]
    else [("Value", .ofInt value)]

def sendRemoteCommand (cmd : LightningCastCommCmd) (value : Int32) : Bytes :=
  write doubleToString (rootWriter cmd value)

def sendAlive : Bytes :=
  write doubleToString (.assigned [("Cmd", .ofInt LightningCastCommCmd.NOTIFY_ALIVE.toInt)])

end Send

end LightningCastClient

namespace LightningCastServer

def LightningCastHandshakeCmd.toInt : LightningCastHandshakeCmd → Int32
  | OPEN  => 1
  | CLOSE => 2

-- The answer of `Open`.
def Send.open (isOpen : Bool) : Bytes :=
  write doubleToString (.assigned
    [("Cmd", .ofInt LightningCastHandshakeCmd.OPEN.toInt), ("IsOpen", .ofInt (if isOpen then 1 else 0))])

end LightningCastServer

namespace SnapcastComm

def PlayerCmd.toInt : PlayerCmd → Int32
  | .START => 1
  | .STOP  => 2

namespace Send

def sendStart (snapserverIpaddr : Bytes) : Except Exception Bytes := do
  let address ← Value.ofString snapserverIpaddr
  return write doubleToString (.assigned [("Cmd", .ofInt (PlayerCmd.toInt .START)), ("SnapServerIPAddr", address)])

def sendPause : Bytes :=
  write doubleToString (.assigned [("Cmd", .ofInt (PlayerCmd.toInt .STOP))])

def sendStop : Bytes :=
  write doubleToString (.assigned [("Cmd", .ofInt (PlayerCmd.toInt .STOP))])

end Send

end SnapcastComm
