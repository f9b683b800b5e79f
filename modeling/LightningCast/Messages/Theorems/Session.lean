import LightningCast.Messages.Theorems.RoundTrip
import LightningCast.LightningCastClient.Theorems.Loop

open Json (Value Double FastWriter.write)
open Json.Reader (stackLimit)

namespace LightningCastClient

-- A value has what a message asks for, in the types which the code expects. `m` is a message which `doParse` accepts:
-- `SET_EXIT` and unknown commands, which end the session, are none.
structure Denotes (lib : Json.Lib) (root : Value) (m : Message) : Prop where
  object : root.isConvertibleTo .objectValue
  cmd    : (root.member "Cmd").isConvertibleTo .intValue
  typed  : Typed root (LightningCastCommCmd.fields (LightningCastCommCmd.ofInt (intOf root "Cmd")))
  means  : Message.ofRoot lib root = some m

-- A payload is a JSON text which says `m`: its members may come in any order, more than once, and beside others.
def Says (decodeDouble : Bytes → Option Double) (doubleToString : Double → Bytes) (payload : Bytes) (m : Message) :
    Prop :=
  ∃ root, Json.Document decodeDouble root payload ∧ root.Nested stackLimit ∧
    Denotes (Json.jsoncpp decodeDouble doubleToString) root.stored m

variable {decodeDouble : Bytes → Option Double} {doubleToString : Double → Bytes} {payload : Bytes} {m : Message}

theorem accepts_of_says (h : Says decodeDouble doubleToString payload m) :
    Accepts (Json.jsoncpp decodeDouble doubleToString) payload m := by
  obtain ⟨root, hd, hn, ho⟩ := h
  have hp : (Json.jsoncpp decodeDouble doubleToString).parse payload = .ok (some root.stored) :=
    hd.parse_of_nested hn
  refine ⟨?_, payloadMessage_eq_some.mpr ⟨_, hp, ho.means⟩⟩
  simp only [WellTyped, TypedPayload, hp]
  exact ⟨ho.object, ho.cmd, ho.typed⟩

namespace SessionLoop

-- What happens in a session: the loop goes round without a message, or with one.
inductive Event
  | timeout
  | message (now : Timespec) (started : Bool) (m : Message)

def Event.message? : Event → Option Message
  | .timeout       => none
  | .message _ _ m => some m

def Event.apply (lib : Json.Lib) (s : Session) : Event → Session
  | .timeout               => s.request .sendAlive
  | .message now started m => s.apply { toLib := lib, now, started } m

def Act.payload? : Act → Option Bytes
  | .timeout _           => none
  | .message _ _ payload => some payload

-- What an iteration is, if it accepts its message.
inductive Act.Is (lib : Json.Lib) : Act → Event → Prop
  | timeout {now : Timespec} : Is lib (.timeout now) .timeout
  | message {now : Timespec} {started : Bool} {payload : Bytes} {m : Message} : Accepts lib payload m →
    Is lib (.message now started payload) (.message now started m)

variable {lib : Json.Lib} {s s' : State} {a : Act} {as : List Act} {e : Event} {ms : List Message}

-- Nothing but `checkCastServerAlive` has ended the loop.
def State.Unharmed (s : State) : Prop :=
  s.ended = none ∨ s.ended = some .notAlive

theorem step_is (h : step lib s a = some s') (hi : a.Is lib e) :
    s'.Unharmed ∧ s'.session = e.apply lib s.session := by
  cases hi
  case timeout =>
    simp only [step, Option.ite_none_right_eq_some, Option.some.injEq] at h
    obtain ⟨_, rfl⟩ := h
    refine ⟨?_, rfl⟩
    simp only [State.Unharmed]
    split
    case isTrue  => exact .inl rfl
    case isFalse => exact .inr rfl
  case message m hm =>
    rcases step_message h with ⟨m', hm', rfl⟩ | ⟨hn, _⟩
    · cases hm.right.symm.trans hm'.right
      exact ⟨.inl rfl, rfl⟩
    · exact absurd hm (hn _)

-- The events of a run whose messages are accepted.
theorem exists_events (h : List.Forall₂ (Accepts lib) (as.filterMap Act.payload?) ms) :
    ∃ es, List.Forall₂ (Act.Is lib) as es ∧ es.filterMap Event.message? = ms := by
  induction as generalizing ms
  case nil =>
    cases h
    exact ⟨[], .nil, rfl⟩
  case cons a as hi =>
    cases a
    case timeout now =>
      obtain ⟨es, he, hm⟩ := hi h
      exact ⟨.timeout :: es, .cons .timeout he, hm⟩
    case message now started payload =>
      have hp : (Act.message now started payload).payload? = some payload := rfl
      rw [List.filterMap_cons_some hp, List.forall₂_cons_left_iff] at h
      obtain ⟨m, ms, ha, h, rfl⟩ := h
      obtain ⟨es, he, hm⟩ := hi h
      exact ⟨.message now started m :: es, .cons (.message ha) he, congrArg (m :: ·) hm⟩

theorem exec_events {m : Machine State Act} (hm : m.step = step lib) {es : List Event}
    (he : m.exec s as = some s') (hs : s.Unharmed) (h : List.Forall₂ (Act.Is lib) as es) :
    s'.Unharmed ∧ s'.session = es.foldl (Event.apply lib) s.session := by
  induction h generalizing s
  case nil =>
    cases he
    exact ⟨hs, rfl⟩
  case cons a e as es hi _ hr =>
    rw [Machine.exec, hm, Option.bind_eq_some_iff] at he
    obtain ⟨s₁, hstep, he⟩ := he
    obtain ⟨hs₁, hv⟩ := step_is hstep hi
    rw [List.foldl_cons, ← hv]
    exact hr he hs₁

-- What the tablet says is what is done: if the bytes which it sends are frames of JSON texts, in whatever pieces they
-- come, then the session goes through the messages in their order, each one once, and no text ends it.
theorem messages_arrive {session : Session} {start : Timespec} {payloads : List Bytes}
    (hs : List.Forall₂ (Says decodeDouble doubleToString) payloads ms) (hl : ∀ p ∈ payloads, p.length < 2 ^ 32)
    {rs : List (Stream.Read UInt8)} (hr : Stream.Clean rs) (hc : Stream.content rs = payloads.flatMap frame) {n : Nat}
    (ha : as.filterMap Act.payload? = (doReads n rs).1)
    (he : (machine (Json.jsoncpp decodeDouble doubleToString) session start).exec
      (machine (Json.jsoncpp decodeDouble doubleToString) session start).init as = some s) :
    s.Unharmed ∧ ∃ es, List.Forall₂ (Act.Is (Json.jsoncpp decodeDouble doubleToString)) as es ∧
      es.filterMap Event.message? = ms.take n ∧
      s.session = es.foldl (Event.apply (Json.jsoncpp decodeDouble doubleToString))
        { session with aliveTime := start } := by
  rw [doReads_frames hl hr hc] at ha
  have hs := (List.forall₂_take n hs).imp fun _ _ => accepts_of_says
  obtain ⟨es, hi, hm⟩ := exists_events (ha ▸ hs)
  obtain ⟨hu, hv⟩ := exec_events rfl he (.inl rfl) hi
  exact ⟨hu, es, hi, hm, hv⟩

-- The volume is set, and nothing else comes for half a second.
theorem messages_arrive_volume :
    let lib     := Json.jsoncpp (fun _ => none) fun _ => []
    let payload := ascii "\x7b\"Cmd\":11,\"SET_VOLUME\":30\x7d\n"
    let as      := [Act.message { nsec := 100000000 } true payload, .timeout { nsec := 600000000 }]
    ∃ s es, (machine lib {} {}).exec (machine lib {} {}).init as = some s ∧ s.Unharmed ∧
      List.Forall₂ (Act.Is lib) as es ∧ es.filterMap Event.message? = [.volume 30] ∧
      s.session = es.foldl (Event.apply lib) {} := by
  intro lib payload as
  have ⟨s, he, _⟩ := (machine lib {} {}).exec_of_any as (fun _ => true) (by decide +kernel)
  let volume : List (String × Int32) := [("Cmd", 11), ("SET_VOLUME", 30)]
  have hn : ∀ name ∈ volume.map Prod.fst, Value.IsName name := by decide
  obtain ⟨root, hd, hr, hv⟩ := Value.document_ints volume hn
  have hp : FastWriter.write (fun _ => []) (.assigned (volume.map fun a => (a.1, .ofInt a.2))) = payload := by
    decide +kernel
  have hs : Says (fun _ => none) (fun _ => []) payload (.volume 30) := by
    refine ⟨root, hp ▸ hd, hr, ?_⟩
    rw [hv]
    have hcmd : intOf (.assigned (volume.map fun a => (a.1, .ofInt a.2))) "Cmd" = 11 := by decide
    have hval : intOf (.assigned (volume.map fun a => (a.1, .ofInt a.2))) "SET_VOLUME" = 30 := by decide
    refine ⟨rfl, by decide, by unfold Typed; decide, ?_⟩
    rw [Message.ofRoot, hcmd, show LightningCastCommCmd.ofInt 11 = some .SET_VOLUME from rfl, Message.ofCmd, hval]
  have hl : ∀ p ∈ [payload], p.length < 2 ^ 32 := by decide
  have hr : Stream.Clean [.data (frame payload)] := by decide
  have hc : Stream.content [.data (frame payload)] = [payload].flatMap frame := by decide
  have ha : as.filterMap Act.payload? = (doReads 1 [.data (frame payload)]).1 := (doReads_frames hl hr hc 1).symm
  obtain ⟨hu, es, hi, hm, hv⟩ := messages_arrive (.cons hs .nil) hl hr hc ha he
  exact ⟨s, es, he, hu, hi, hm, hv⟩

end SessionLoop

end LightningCastClient
