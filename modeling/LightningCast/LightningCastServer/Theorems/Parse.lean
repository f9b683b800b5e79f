import LightningCast.LightningCastServer.Parse
import LightningCast.LightningCastClient.Theorems.Parse

open Throwing (Returns)
open Json (Value ValueType Lib)
open LightningCastClient (Env ParseM Session Message Applied TypedPayload intOf bytesOf)

namespace LightningCastServer

-- The message which a JSON value stands for.
def messageOf (lib : Lib) (root : Value) : Option Message :=
  match LightningCastHandshakeCmd.ofInt (intOf root "Cmd") with
  | some .OPEN => some (.openSession (bytesOf lib root "IpAddr"))
  | _          => none

-- The fields which a command reads, with the types to which it converts them.
def LightningCastHandshakeCmd.fields : Option LightningCastHandshakeCmd → List (String × ValueType)
  | some .OPEN => [("IpAddr", .stringValue)]
  | _          => []

def WellTyped (lib : Lib) (payload : Bytes) : Prop :=
  TypedPayload lib (fun n => LightningCastHandshakeCmd.fields (LightningCastHandshakeCmd.ofInt n)) payload

variable {env : Env} {s : Session} {payload : Bytes}

theorem asString_returns {v : Value} {P : Bytes → Session → Prop} :
    Returns (liftM (v.asString env.toLib) : ParseM Bytes) s P ↔
      v.isConvertibleTo .stringValue ∧ P (v.toBytes env.toLib) s := by
  simp [Returns.lift_iff, Value.asString_ok_iff, and_assoc]

theorem doParse_applied :
    Returns (doParse env payload) s (Applied env (messageOf env.toLib) payload s) ↔
      WellTyped env.toLib payload := by
  simp only [doParse, Returns.bind_iff, Returns.lift_iff, WellTyped, TypedPayload]
  cases hp : env.parse payload
  case error => simp
  case ok root =>
    cases root
    case none => simp [Applied]
    case some root =>
      simp only [Except.ok.injEq, exists_eq_left', Returns.bind_iff,
        LightningCastClient.resolveReference_returns, LightningCastClient.asInt_returns]
      refine and_congr_right fun hr => and_congr_right fun _ => ?_
      simp only [intOf]
      cases hc : LightningCastHandshakeCmd.ofInt (root.member "Cmd").toInt
      case none => simp [LightningCastHandshakeCmd.fields, Applied]
      case some c =>
        cases c
        case CLOSE => simp [LightningCastHandshakeCmd.fields, Applied]
        case OPEN =>
          simp only [Returns.bind_iff, LightningCastClient.resolveReference_returns, asString_returns,
            openSession, Returns.modify_iff, Returns.pure_iff, Value.touch_isConvertibleTo, true_and,
            Value.member_touch hr, LightningCastHandshakeCmd.fields, LightningCastClient.typed_cons,
            LightningCastClient.typed_nil, and_true]
          have hm : messageOf env.toLib root = some (.openSession (bytesOf env.toLib root "IpAddr")) := by
            simp only [messageOf, intOf, hc]
          exact and_iff_left ⟨root, _, hp, hm, rfl⟩

end LightningCastServer

-- A message is applied whole or rejected without a trace, and no exception leaves `doParse`, where
-- jsoncpp throws nothing on it, and only there.
theorem message_applied_iff (env : Env) (s : Session) (payload : Bytes) :
    (Returns (LightningCastClient.doParse env payload) s
        (Applied env (Message.ofRoot env.toLib) payload s) ↔
      LightningCastClient.WellTyped env.toLib payload) ∧
    (Returns (LightningCastServer.doParse env payload) s
        (Applied env (LightningCastServer.messageOf env.toLib) payload s) ↔
      LightningCastServer.WellTyped env.toLib payload) :=
  ⟨LightningCastClient.doParse_applied, LightningCastServer.doParse_applied⟩

-- A jsoncpp which knows one text, an audio format whose second field is not a number.
def audioFormat : Bytes :=
  ascii "\x7b\"Cmd\":4,\"SampleRate\":44100,\"Format\":\"x\"\x7d"

def audioFormatEnv : Env where
  parse p          := if p = audioFormat then .ok (some (.object [
      (ascii "Cmd", .int 4), (ascii "Format", .string (ascii "x")), (ascii "SampleRate", .int 44100)]))
    else .ok none
  doubleToString _ := []
  now              := {}
  started          := true

-- An exception leaves `doParse` after the sample rate has been overwritten.
theorem audioFormat_torn :
    (LightningCastClient.doParse audioFormatEnv audioFormat).run.run {} =
      (.error (.logicError "Value is not convertible to Int."), { sampleRate := 44100 }) ∧
    ¬Returns (LightningCastClient.doParse audioFormatEnv audioFormat) {}
      (Applied audioFormatEnv (Message.ofRoot audioFormatEnv.toLib) audioFormat {}) := by
  have h : (LightningCastClient.doParse audioFormatEnv audioFormat).run.run {} =
      (.error (.logicError "Value is not convertible to Int."), { sampleRate := 44100 }) := rfl
  refine ⟨h, ?_⟩
  simp only [Returns, h, not_false_eq_true]
