import LightningCast.Library.Throwing
import LightningCast.Json.Basic

open Json (Value Lib)

namespace LightningCastClient

inductive LightningCastCommCmd
  | SET_VERSION
  | SET_EXIT
  | SET_METADATA
  | SET_AUDIOFORMAT
  | SET_DURATION
  | SET_POSITION
  | SET_STATUS
  | SET_PLAY
  | SET_PAUSE
  | SET_STOP
  | SET_VOLUME
  | SET_MUTE
  | SET_STEP_VOLUME
  | NOTIFY_VERSION
  | NOTIFY_EXIT
  | NOTIFY_ALIVE
  | NOTIFY_PLAY
  | NOTIFY_PAUSE
  | NOTIFY_STOP
  | NOTIFY_PREVIOUS
  | NOTIFY_NEXT
  | NOTIFY_SEEK
  | NOTIFY_VOLUME_CONTROL
  | NOTIFY_VOLUME
  | NOTIFY_MUTE
deriving DecidableEq

-- The enumerator whose value is `n`, none where `n` is 0 or the value of no enumerator.
def LightningCastCommCmd.ofInt (n : Int32) : Option LightningCastCommCmd :=
  match n.toInt with
  | 1   => some SET_VERSION
  | 2   => some SET_EXIT
  | 3   => some SET_METADATA
  | 4   => some SET_AUDIOFORMAT
  | 5   => some SET_DURATION
  | 6   => some SET_POSITION
  | 7   => some SET_STATUS
  | 8   => some SET_PLAY
  | 9   => some SET_PAUSE
  | 10  => some SET_STOP
  | 11  => some SET_VOLUME
  | 12  => some SET_MUTE
  | 13  => some SET_STEP_VOLUME
  | 101 => some NOTIFY_VERSION
  | 102 => some NOTIFY_EXIT
  | 103 => some NOTIFY_ALIVE
  | 104 => some NOTIFY_PLAY
  | 105 => some NOTIFY_PAUSE
  | 106 => some NOTIFY_STOP
  | 107 => some NOTIFY_PREVIOUS
  | 108 => some NOTIFY_NEXT
  | 109 => some NOTIFY_SEEK
  | 110 => some NOTIFY_VOLUME_CONTROL
  | 111 => some NOTIFY_VOLUME
  | 112 => some NOTIFY_MUTE
  | _   => none

-- `struct timespec`
structure Timespec where
  sec  : Int := 0
  nsec : Int := 0
deriving DecidableEq

-- The calls by which a message is passed on: to the tablet, to `SnapcastComm` and, from the handshake
-- server, to `Open`.
inductive Request
  | sendAlive
  | snapcastOpen
  | sendStart (serverIP : Bytes) (sampleRate format channels : Int32)
  | sendPause
  | sendStop
  | snapcastClose
  | openSession (serverIP : Bytes)
deriving DecidableEq

-- The members which `doParse` reads or writes, and the calls which it has made.
structure Session where
  serverIP      : Bytes        := []
  sampleRate    : Int32        := 0
  format        : Int32        := 0
  channels      : Int32        := 0
  duration      : Int32        := 0
  position      : Int32        := 0
  playStatus    : Int32        := 0
  currentVolume : Int32        := 50
  aliveTime     : Timespec     := {}
  title         : Bytes        := []
  album         : Bytes        := []
  artist        : Bytes        := []
  coverUrl      : Bytes        := []
  requests      : List Request := []
deriving DecidableEq

def Session.request (r : Request) (s : Session) : Session :=
  { s with requests := s.requests ++ [r] }

@[simp]
theorem Session.request_serverIP (r : Request) (s : Session) : (s.request r).serverIP = s.serverIP :=
  rfl

-- What `doParse` gets from elsewhere: jsoncpp, what `clock_gettime` finds and what `sendStart` returns.
structure Env extends Lib where
  now     : Timespec
  started : Bool

abbrev ParseM := Throwing Exception Session

variable (env : Env)

def doSetLightningcastVersion (root : Value) : ParseM Unit := do
  let _major ← root.getInt "Major"
  let _minor ← root.getInt "Minor"
  let _patch ← root.getInt "Patch"

-- The address of the device which casts stands for "localhost" in the URL of the cover.
def rewriteCoverUrl (serverIP coverUrl : Bytes) : Bytes :=
  match Bytes.find (ascii "http://localhost") coverUrl with
  | some pos => Bytes.replace coverUrl (pos + (ascii "http://").length) (ascii "localhost").length serverIP
  | none     => coverUrl

def doSetMetadata (root : Value) : ParseM Unit := do
  let title ← root.getString env.toLib "Title"
  let album ← root.getString env.toLib "Album"
  let artist ← root.getString env.toLib "Artist"
  let coverUrl ← root.getString env.toLib "CoverUrl"
  let s ← get
  let coverUrl := rewriteCoverUrl s.serverIP coverUrl
  if title = s.title ∧ album = s.album ∧ artist = s.artist ∧ coverUrl = s.coverUrl
  then return
  else modify ({ · with title, album, artist, coverUrl })

def doSetAudioFormat (root : Value) : ParseM Unit := do
  let sampleRate ← root.getInt "SampleRate"
  modify ({ · with sampleRate })
  let format ← root.getInt "Format"
  modify ({ · with format })
  let channels ← root.getInt "Channels"
  modify ({ · with channels })

def doSetDuration (root : Value) : ParseM Unit := do
  let duration := (← root.getInt "Duration") / 1000
  if duration = (← get).duration
  then return
  else modify ({ · with duration })

def doSetPosition (root : Value) : ParseM Unit := do
  let position ← root.getInt "Position"
  modify ({ · with position })

def doSetStatus (root : Value) : ParseM Unit := do
  let playStatus ← root.getInt "PlayStatus"
  modify ({ · with playStatus })

def sendAlive : ParseM Unit :=
  modify (·.request .sendAlive)

def doPlay : ParseM Unit := do
  modify (·.request .snapcastOpen)
  modify fun s => s.request (.sendStart s.serverIP s.sampleRate s.format s.channels)
  if !env.started then modify (·.request .snapcastClose)

def doPause : ParseM Unit := do
  modify (·.request .sendPause)
  modify (·.request .snapcastClose)

def doStop : ParseM Unit := do
  modify (·.request .sendStop)
  modify (·.request .snapcastClose)

def doSetVolume (root : Value) : ParseM Unit := do
  let currentVolume ← root.getInt "SET_VOLUME"
  modify ({ · with currentVolume })

def doSetMute (root : Value) : ParseM Unit := do
  let _mute ← root.getInt "SET_MUTE"

def doSetStepVolume (root : Value) : ParseM Unit := do
  let _stepVolume ← root.getInt "SET_STEP_VOLUME"

def doSetAlive : ParseM Unit :=
  modify ({ · with aliveTime := env.now })

-- The `switch` of `doParse`.
def dispatch (root : Value) : Option LightningCastCommCmd → ParseM Bool
  | some .SET_VERSION     => do doSetLightningcastVersion root; return true
  | some .SET_METADATA    => do sendAlive; doSetMetadata env root; return true
  | some .SET_AUDIOFORMAT => do doSetAudioFormat root; return true
  | some .SET_DURATION    => do doSetDuration root; return true
  | some .SET_POSITION    => do doSetPosition root; return true
  | some .SET_STATUS      => do doSetStatus root; return true
  | some .SET_PLAY        => do doPlay env; return true
  | some .SET_PAUSE       => do doPause; return true
  | some .SET_STOP        => do doStop; return true
  | some .SET_VOLUME      => do sendAlive; doSetVolume root; return true
  | some .SET_MUTE        => do doSetMute root; return true
  | some .SET_STEP_VOLUME => do sendAlive; doSetStepVolume root; return true
  | some .SET_EXIT        => return false
  | some .NOTIFY_ALIVE    => do doSetAlive env; return true
  | _                     => return false

def doParse (payload : Bytes) : ParseM Bool := do
  let some root ← env.parse payload | return false
  let (cmd, root) ← root.resolveReference "Cmd"
  dispatch env root (LightningCastCommCmd.ofInt (← cmd.asInt))

end LightningCastClient
