import LightningCast.Library.Throwing
import LightningCast.Json.Theorems.Convert
import LightningCast.LightningCastClient.Parse

open Throwing (Returns)
open Json (Value ValueType Lib)

namespace LightningCastClient

-- What a message asks for. `openSession` is the one which the handshake server accepts.
inductive Message
  | version (major minor patch : Int32)
  | metadata (title album artist coverUrl : Bytes)
  | audioFormat (sampleRate format channels : Int32)
  | duration (ms : Int32)
  | position (position : Int32)
  | status (playStatus : Int32)
  | play
  | pause
  | stop
  | volume (volume : Int32)
  | mute (mute : Int32)
  | stepVolume (stepVolume : Int32)
  | alive
  | openSession (ip : Bytes)

def Session.apply (env : Env) (s : Session) : Message → Session
  | .version ..                            => s
  | .metadata title album artist coverUrl  => { s.request .sendAlive with
      title, album, artist, coverUrl := rewriteCoverUrl s.serverIP coverUrl }
  | .audioFormat sampleRate format channels => { s with sampleRate, format, channels }
  | .duration ms                           => { s with duration := ms / 1000 }
  | .position position                     => { s with position }
  | .status playStatus                     => { s with playStatus }
  | .play                                  => { s with requests := s.requests ++
      [.snapcastOpen, .sendStart s.serverIP s.sampleRate s.format s.channels] ++
      if env.started then [] else [.snapcastClose] }
  | .pause                                 => (s.request .sendPause).request .snapcastClose
  | .stop                                  => (s.request .sendStop).request .snapcastClose
  | .volume currentVolume                  => { s.request .sendAlive with currentVolume }
  | .mute _                                => s
  | .stepVolume _                          => s.request .sendAlive
  | .alive                                 => { s with aliveTime := env.now }
  | .openSession ip                        => s.request (.openSession ip)

section

variable (lib : Lib) (root : Value)

def intOf (key : String) : Int32 :=
  (root.member key).toInt

def bytesOf (key : String) : Bytes :=
  (root.member key).toBytes lib

def Message.ofCmd : Option LightningCastCommCmd → Option Message
  | some .SET_VERSION     => some (.version (intOf root "Major") (intOf root "Minor") (intOf root "Patch"))
  | some .SET_METADATA    => some (.metadata (bytesOf lib root "Title") (bytesOf lib root "Album")
      (bytesOf lib root "Artist") (bytesOf lib root "CoverUrl"))
  | some .SET_AUDIOFORMAT => some (.audioFormat (intOf root "SampleRate") (intOf root "Format")
      (intOf root "Channels"))
  | some .SET_DURATION    => some (.duration (intOf root "Duration"))
  | some .SET_POSITION    => some (.position (intOf root "Position"))
  | some .SET_STATUS      => some (.status (intOf root "PlayStatus"))
  | some .SET_PLAY        => some .play
  | some .SET_PAUSE       => some .pause
  | some .SET_STOP        => some .stop
  | some .SET_VOLUME      => some (.volume (intOf root "SET_VOLUME"))
  | some .SET_MUTE        => some (.mute (intOf root "SET_MUTE"))
  | some .SET_STEP_VOLUME => some (.stepVolume (intOf root "SET_STEP_VOLUME"))
  | some .NOTIFY_ALIVE    => some .alive
  | _                     => none

-- The message which a JSON value stands for.
def Message.ofRoot : Option Message :=
  ofCmd lib root (LightningCastCommCmd.ofInt (intOf root "Cmd"))

-- The fields which a command reads, with the types to which it converts them.
def LightningCastCommCmd.fields : Option LightningCastCommCmd → List (String × ValueType)
  | some .SET_VERSION     => [("Major", .intValue), ("Minor", .intValue), ("Patch", .intValue)]
  | some .SET_METADATA    => [("Title", .stringValue), ("Album", .stringValue),
      ("Artist", .stringValue), ("CoverUrl", .stringValue)]
  | some .SET_AUDIOFORMAT => [("SampleRate", .intValue), ("Format", .intValue), ("Channels", .intValue)]
  | some .SET_DURATION    => [("Duration", .intValue)]
  | some .SET_POSITION    => [("Position", .intValue)]
  | some .SET_STATUS      => [("PlayStatus", .intValue)]
  | some .SET_VOLUME      => [("SET_VOLUME", .intValue)]
  | some .SET_MUTE        => [("SET_MUTE", .intValue)]
  | some .SET_STEP_VOLUME => [("SET_STEP_VOLUME", .intValue)]
  | _                     => []

-- The fields have the types which the code expects.
def Typed (fields : List (String × ValueType)) : Prop :=
  ∀ f ∈ fields, (root.member f.1).isConvertibleTo f.2

end

variable {env : Env} {lib : Lib} {root : Value} {s : Session}

@[simp]
theorem typed_nil : Typed root [] := by
  simp [Typed]

@[simp]
theorem typed_cons {f : String × ValueType} {fs : List (String × ValueType)} :
    Typed root (f :: fs) ↔ (root.member f.1).isConvertibleTo f.2 ∧ Typed root fs := by
  simp [Typed]

theorem typed_touch (hr : root.isConvertibleTo .objectValue) {key : String}
    {fs : List (String × ValueType)} : Typed (root.touch key) fs ↔ Typed root fs := by
  simp only [Typed, Value.member_touch hr]

theorem ofCmd_touch (hr : root.isConvertibleTo .objectValue) {key : String}
    (c : Option LightningCastCommCmd) :
    Message.ofCmd lib (root.touch key) c = Message.ofCmd lib root c := by
  unfold Message.ofCmd
  simp only [intOf, bytesOf, Value.member_touch hr]

theorem getInt_returns (hr : root.isConvertibleTo .objectValue) {key : String}
    {P : Int32 → Session → Prop} : Returns (liftM (root.getInt key) : ParseM Int32) s P ↔
      (root.member key).isConvertibleTo .intValue ∧ P (intOf root key) s := by
  simp [Returns.lift_iff, Value.getInt_ok_iff, hr, intOf, and_assoc]

theorem getString_returns (hr : root.isConvertibleTo .objectValue) {key : String}
    {P : Bytes → Session → Prop} : Returns (liftM (root.getString lib key) : ParseM Bytes) s P ↔
      (root.member key).isConvertibleTo .stringValue ∧ P (bytesOf lib root key) s := by
  simp [Returns.lift_iff, Value.getString_ok_iff, hr, bytesOf, and_assoc]

section

variable (hr : root.isConvertibleTo .objectValue) {P : Unit → Session → Prop}
include hr

theorem doSetMetadata_returns : Returns (doSetMetadata env root) s P ↔
    Typed root (LightningCastCommCmd.fields (some .SET_METADATA)) ∧ P () { s with
      title    := bytesOf env.toLib root "Title"
      album    := bytesOf env.toLib root "Album"
      artist   := bytesOf env.toLib root "Artist"
      coverUrl := rewriteCoverUrl s.serverIP (bytesOf env.toLib root "CoverUrl") } := by
  simp only [doSetMetadata, LightningCastCommCmd.fields, Returns.bind_iff, getString_returns hr,
    Returns.get_iff, typed_cons, typed_nil, and_true, and_assoc]
  rw [Returns.ite_modify_iff]
  rintro ⟨ht, ha, hr, hu⟩
  simp only [ht, ha, hr, hu]

theorem doSetDuration_returns : Returns (doSetDuration root) s P ↔
    Typed root (LightningCastCommCmd.fields (some .SET_DURATION)) ∧
      P () { s with duration := intOf root "Duration" / 1000 } := by
  simp only [doSetDuration, LightningCastCommCmd.fields, Returns.bind_iff, getInt_returns hr,
    Returns.get_iff, typed_cons, typed_nil, and_true]
  rw [Returns.ite_modify_iff]
  intro hd
  simp only [hd]

omit hr in
theorem doPlay_returns : Returns (doPlay env) s P ↔ P () (s.apply env .play) := by
  simp only [doPlay, Session.apply, Returns.bind_iff, Returns.modify_iff]
  cases env.started <;> simp [Session.request]

-- Each branch of the `switch` reads its fields, and returns if they have the types which it expects.
theorem dispatch_returns {P : Bool → Session → Prop} (c : Option LightningCastCommCmd) :
    Returns (dispatch env root c) s P ↔ Typed root (LightningCastCommCmd.fields c) ∧
      match Message.ofCmd env.toLib root c with
      | some m => P true (s.apply env m)
      | none   => P false s := by
  cases c
  case none => simp [dispatch, LightningCastCommCmd.fields, Message.ofCmd]
  case some c =>
    cases c
    case SET_PLAY => simp [dispatch, LightningCastCommCmd.fields, Message.ofCmd, doPlay_returns]
    case SET_METADATA =>
      simp [dispatch, LightningCastCommCmd.fields, Message.ofCmd, Session.apply, sendAlive,
        doSetMetadata_returns hr]
    all_goals
      simp [dispatch, LightningCastCommCmd.fields, Message.ofCmd, Session.apply, getInt_returns hr,
        doSetDuration_returns hr, doSetLightningcastVersion, doSetAudioFormat, doSetPosition, doSetStatus,
        doPause, doStop, doSetVolume, doSetMute, doSetStepVolume, doSetAlive, sendAlive, and_assoc]

end

-- `doParse` reads `Cmd` in a root of the right type, before the fields of the command.
theorem resolveReference_returns {P : Value × Value → Session → Prop} {key : String} :
    Returns (liftM (root.resolveReference key) : ParseM (Value × Value)) s P ↔
      root.isConvertibleTo .objectValue ∧ P (root.member key, root.touch key) s := by
  simp [Returns.lift_iff, Value.resolveReference_ok_iff, -Prod.exists]

theorem asInt_returns {v : Value} {P : Int32 → Session → Prop} :
    Returns (liftM v.asInt : ParseM Int32) s P ↔ v.isConvertibleTo .intValue ∧ P v.toInt s := by
  simp [Returns.lift_iff, Value.asInt_ok_iff, and_assoc]

-- jsoncpp throws nothing: the reader returns, and where it accepts the payload, the root is an object or
-- null, `Cmd` is convertible to an int and the fields of the command have their types.
def TypedPayload (lib : Lib) (fields : Int32 → List (String × ValueType)) (payload : Bytes) : Prop :=
  match lib.parse payload with
  | .error _        => False
  | .ok none        => True
  | .ok (some root) => root.isConvertibleTo .objectValue ∧
      (root.member "Cmd").isConvertibleTo .intValue ∧ Typed root (fields (intOf root "Cmd"))

def WellTyped (lib : Lib) (payload : Bytes) : Prop :=
  TypedPayload lib (fun n => LightningCastCommCmd.fields (LightningCastCommCmd.ofInt n)) payload

-- The message is applied whole where the result is true, and nothing is changed where it is false.
def Applied (env : Env) (denotes : Value → Option Message) (payload : Bytes) (s : Session) :
    Bool → Session → Prop
  | true, s'  => ∃ root m, env.parse payload = .ok (some root) ∧ denotes root = some m ∧
      s' = s.apply env m
  | false, s' => s' = s

-- The message which a payload stands for.
def payloadMessage (lib : Lib) (payload : Bytes) : Option Message :=
  match lib.parse payload with
  | .ok (some root) => Message.ofRoot lib root
  | _               => none

theorem payloadMessage_eq_some {payload : Bytes} {m : Message} : payloadMessage lib payload = some m ↔
    ∃ root, lib.parse payload = .ok (some root) ∧ Message.ofRoot lib root = some m := by
  unfold payloadMessage
  split <;> simp_all

theorem doParse_returns {payload : Bytes} {P : Bool → Session → Prop} :
    Returns (doParse env payload) s P ↔ WellTyped env.toLib payload ∧
      match payloadMessage env.toLib payload with
      | some m => P true (s.apply env m)
      | none   => P false s := by
  simp only [doParse, Returns.bind_iff, Returns.lift_iff, WellTyped, TypedPayload, payloadMessage]
  cases hp : env.parse payload
  case error => simp
  case ok root =>
    cases root
    case none => simp
    case some root =>
      simp only [Except.ok.injEq, exists_eq_left', Returns.bind_iff, resolveReference_returns,
        asInt_returns, and_assoc]
      refine and_congr_right fun hr => and_congr_right fun _ => ?_
      simp only [dispatch_returns (root.touch_isConvertibleTo _), typed_touch hr, ofCmd_touch hr]
      rfl

theorem doParse_applied {payload : Bytes} :
    Returns (doParse env payload) s (Applied env (Message.ofRoot env.toLib) payload s) ↔
      WellTyped env.toLib payload := by
  rw [doParse_returns]
  apply and_iff_left
  split
  case h_1 m hm =>
    obtain ⟨root, hp, hm⟩ := payloadMessage_eq_some.mp hm
    exact ⟨root, m, hp, hm, rfl⟩
  case h_2 => rfl

end LightningCastClient
