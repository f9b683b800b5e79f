import LightningCast.Messages.Theorems.RoundTrip
import LightningCast.LightningCastServer.Theorems.Parse
import LightningCast.SnapcastComm.Theorems.Parse

open Throwing (Returns)
open Json (Value Double Document FastWriter.write reread utf8)
open Json.Reader (parse stackLimit)
open LightningCastClient (Env Session ParseM intOf)

section

variable {decodeDouble : Bytes → Option Double} {doubleToString : Double → Bytes} {root : Value} {payload ip : Bytes}
  {env : Env} {s : Session}

-- A message which is nested too deeply is not caught by any of the three, and has changed nothing when it is thrown.
theorem deep_message_throws (hl : env.toLib = Json.jsoncpp decodeDouble doubleToString)
    (hd : Document decodeDouble root payload) (hn : ¬root.Nested stackLimit) (r : SnapcastComm.Parsing) :
    let e : Exception := .runtimeError "Exceeded stackLimit in readValue()."
    (LightningCastClient.doParse env payload).run.run s = (.error e, s) ∧
    (LightningCastServer.doParse env payload).run.run s = (.error e, s) ∧
    (SnapcastComm.parseReceipt env.toLib payload).run.run r = (.error e, r) := by
  intro e
  have hp : env.parse payload = .error e := by
    rw [hl]
    exact hd.parse_of_deep hn
  refine ⟨?_, ?_, ?_⟩
  · rw [LightningCastClient.doParse, hp]
    rfl
  · rw [LightningCastServer.doParse, hp]
    rfl
  · rw [SnapcastComm.parseReceipt, hp]
    rfl

-- Arrays in arrays.
def brackets : Nat → Value
  | 0     => .array []
  | n + 1 => .array [brackets n]

theorem writable_brackets (n : Nat) : (brackets n).Writable decodeDouble doubleToString := by
  induction n
  case zero      => exact .array nofun
  case succ n hi => exact .array (List.forall_mem_singleton.mpr hi)

theorem nested_brackets {n k : Nat} (h : (brackets n).Nested k) : n < k := by
  induction n generalizing k
  all_goals cases k
  case zero.zero        => exact h.elim
  case zero.succ        => exact Nat.succ_pos _
  case succ.zero        => exact h.elim
  case succ.succ hi k   => exact Nat.succ_lt_succ (hi (List.forall_mem_singleton.mp h))

theorem deep_message_throws_brackets :
    let env : Env := { toLib := Json.jsoncpp (fun _ => none) fun _ => [], now := {}, started := true }
    (LightningCastClient.doParse env (FastWriter.write (fun _ => []) (brackets stackLimit))).run.run {} =
      (.error (.runtimeError "Exceeded stackLimit in readValue()."), {}) := by
  intro env
  have hn : ¬(brackets stackLimit).asWritten.Nested stackLimit := fun h =>
    lt_irrefl _ (nested_brackets ((Value.nested_asWritten _ _).mp h))
  exact (deep_message_throws rfl (Json.document_write (writable_brackets _)) hn { sendStartResult := false }).left

namespace LightningCastServer

theorem doParse_open (hp : env.parse payload = .ok (some root)) (hr : root.isConvertibleTo .objectValue)
    (ht : (root.member "Cmd").isConvertibleTo .intValue)
    (hc : LightningCastHandshakeCmd.ofInt (intOf root "Cmd") = some .OPEN) (hi : root.member "IpAddr" = .string ip) :
    Returns (doParse env payload) s fun b s' => b = true ∧ s' = s.request (.openSession ip) := by
  refine Returns.bind_iff.mpr (Returns.lift_iff.mpr ⟨some root, hp, ?_⟩)
  simp only [Returns.bind_iff, LightningCastClient.resolveReference_returns, LightningCastClient.asInt_returns]
  refine ⟨hr, ht, ?_⟩
  rw [show LightningCastHandshakeCmd.ofInt (root.member "Cmd").toInt = some .OPEN from hc]
  simp only [Returns.bind_iff, LightningCastClient.resolveReference_returns, asString_returns, openSession,
    Returns.modify_iff, Returns.pure_iff, Value.touch_isConvertibleTo, Value.member_touch hr, hi, true_and]
  exact ⟨rfl, rfl⟩

end LightningCastServer

namespace SnapcastComm

theorem ofString_eq (hl : ip.length ≤ 2 ^ 31 - 6) : Value.ofString ip = .ok (.string ip) := by
  have hm : ip.length % 2 ^ 32 = ip.length := Nat.mod_eq_of_lt (by omega)
  simp only [Value.ofString, hm, List.take_length]
  exact if_pos hl

theorem parse_sendStart (hl : ip.length ≤ 2 ^ 31 - 6) (hr : (reread ip).length ≤ 2 ^ 31 - 6) :
    ∃ text, Send.sendStart doubleToString ip = .ok text ∧ parse decodeDouble text = .ok (some (.assigned
      [("Cmd", .ofInt (PlayerCmd.toInt .START)), ("SnapServerIPAddr", .string (reread ip))])) := by
  obtain ⟨root, hd, hn, hs⟩ := Value.document_assigned
    [("Cmd", .ofInt (PlayerCmd.toInt .START)), ("SnapServerIPAddr", .string ip)]
    (by simp [Value.isName_written])
    (by simp [Value.ofInt, Value.Writable.int, Value.Writable.string hr, Value.Nested, stackLimit])
  simp only [List.map_cons, List.map_nil, Value.stored_ofInt, Value.asWritten, Value.stored] at hs
  refine ⟨_, ?_, hs ▸ hd.parse_of_nested hn⟩
  rw [Send.sendStart, ofString_eq hl]
  rfl

end SnapcastComm

-- The texts without an address.
theorem parse_answers (isOpen : Bool) :
    parse decodeDouble (LightningCastClient.Send.sendAlive doubleToString) = .ok (some (.assigned
      [("Cmd", .ofInt LightningCastClient.LightningCastCommCmd.NOTIFY_ALIVE.toInt)])) ∧
    parse decodeDouble (LightningCastServer.Send.open doubleToString isOpen) = .ok (some (.assigned
      [("Cmd", .ofInt LightningCastServer.LightningCastHandshakeCmd.OPEN.toInt),
       ("IsOpen", .ofInt (if isOpen then 1 else 0))])) ∧
    parse decodeDouble (SnapcastComm.Send.sendPause doubleToString) = .ok (some (.assigned
      [("Cmd", .ofInt (SnapcastComm.PlayerCmd.toInt .STOP))])) ∧
    parse decodeDouble (SnapcastComm.Send.sendStop doubleToString) = .ok (some (.assigned
      [("Cmd", .ofInt (SnapcastComm.PlayerCmd.toInt .STOP))])) :=
  have hn : ∀ name ∈ ["Cmd"], Value.IsName name := by simp [Value.isName_written]
  have hn' : ∀ name ∈ ["Cmd", "IsOpen"], Value.IsName name := by simp [Value.isName_written]
  ⟨Value.parse_ints [("Cmd", _)] hn, Value.parse_ints [("Cmd", _), ("IsOpen", _)] hn', Value.parse_ints [("Cmd", _)] hn,
   Value.parse_ints [("Cmd", _)] hn⟩

theorem Json.Value.Canonical.member_string {name : String} (hc : root.Canonical) (hm : root.member name = .string ip) :
    ip.length ≤ 2 ^ 31 - 6 := by
  cases hc
  case object ms _ _ hv =>
    rw [Value.member] at hm
    cases hl : ms.lookup (ascii name)
    case none =>
      rw [hl] at hm
      cases hm
    case some v =>
      rw [hl] at hm
      cases (show v = .string ip from hm)
      obtain ⟨ms₁, ms₂, rfl, -⟩ := List.lookup_eq_some_iff.mp hl
      have hs : (Value.string ip).Canonical := hv (ascii name, .string ip) (by simp)
      cases hs
      assumption
  all_goals cases hm

-- The address with which a handshake opens a session is the one which the player is given when the session starts to
-- play, character by character.
theorem address_relayed (hl : env.toLib = Json.jsoncpp decodeDouble doubleToString)
    (hd : Document decodeDouble root payload) (hn : root.Nested stackLimit)
    (ht : (root.stored.member "Cmd").isConvertibleTo .intValue)
    (hc : LightningCastServer.LightningCastHandshakeCmd.ofInt (intOf root.stored "Cmd") = some .OPEN)
    (hi : root.stored.member "IpAddr" = .string ip) (hr : (reread ip).length ≤ 2 ^ 31 - 6) :
    Returns (LightningCastServer.doParse env payload) s (fun b s' => b = true ∧ s' = s.request (.openSession ip)) ∧
    ∃ text, SnapcastComm.Send.sendStart doubleToString ip = .ok text ∧
      parse decodeDouble text = .ok (some (.assigned
        [("Cmd", .ofInt (SnapcastComm.PlayerCmd.toInt .START)), ("SnapServerIPAddr", .string (reread ip))])) ∧
      (reread ip = ip ↔ ∃ cs, ip = utf8 cs) := by
  have hp := hd.parse_of_nested hn
  have ho : root.stored.isConvertibleTo .objectValue := by
    revert hi
    cases root.stored
    case object => exact fun _ => rfl
    all_goals nofun
  have hcanonical := (Json.canonical_of_parse hp).left
  obtain ⟨text, hs, ht'⟩ := SnapcastComm.parse_sendStart (hcanonical.member_string hi) hr
  refine ⟨LightningCastServer.doParse_open ?_ ho ht hc hi, text, hs, ht', Json.reread_eq_iff ip⟩
  rw [hl]
  exact hp

theorem address_relayed_v4 :
    let env : Env := { toLib := Json.jsoncpp (fun _ => none) fun _ => [], now := {}, started := true }
    let ip := ascii "10.0.0.2"
    let payload := FastWriter.write (fun _ => []) (.assigned [("IpAddr", .string ip), ("Cmd", .ofInt 1)])
    Returns (LightningCastServer.doParse env payload) {} (fun b s => b = true ∧ s = Session.request (.openSession ip) {}) ∧
      ∃ text, SnapcastComm.Send.sendStart (fun _ => []) ip = .ok text ∧ parse (fun _ => none) text =
        .ok (some (.assigned [("Cmd", .ofInt 1), ("SnapServerIPAddr", .string ip)])) := by
  intro env ip payload
  have hip : reread ip = ip := Value.IsName.reread (by decide)
  have hl : (reread ip).length ≤ 2 ^ 31 - 6 := by
    rw [hip]
    decide
  have hv : ∀ a ∈ [("IpAddr", Value.string ip), ("Cmd", .ofInt 1)],
      a.2.Writable (fun _ => none) (fun _ => []) ∧ a.2.Nested (stackLimit - 1) := by
    simp [Value.ofInt, Value.Writable.int, Value.Writable.string hl, Value.Nested, stackLimit]
  obtain ⟨root, hd, hn, hs⟩ := Value.document_assigned _ (by decide) hv
  simp only [List.map_cons, List.map_nil, Value.stored_ofInt, Value.asWritten, Value.stored, hip] at hs
  have hm : root.stored.member "IpAddr" = .string ip := by
    rw [hs]
    simp +decide [Value.assigned, Value.member, Value.lookup_setMember]
  have hlib : env.toLib = Json.jsoncpp (fun _ => none) fun _ => [] := rfl
  obtain ⟨ho, text, ht, hp, _⟩ := address_relayed hlib hd hn (by rw [hs]; decide) (by rw [hs]; decide) hm hl
  exact ⟨ho, text, ht, hip ▸ hp⟩

end
