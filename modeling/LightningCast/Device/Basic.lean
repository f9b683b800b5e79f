import LightningCast.LightningCastClient.Basic
import LightningCast.SnapcastComm.Basic

-- The calls of `LightningCastClient` and of `main` into `SnapcastComm`, by the thread which makes them.
inductive Entry
  | doPlay (t : Thread)
  | doPause (t : Thread)
  | doStop (t : Thread)
  | exit
deriving DecidableEq

-- The call which a step of `LightningCastClient` begins.
def LightningCastClient.Act.entry : LightningCastClient.Act → Option Entry
  | .doRead _ .play  => some (.doPlay .client)
  | .doRead _ .pause => some (.doPause .client)
  | .doRead _ .stop  => some (.doStop .client)
  | .doStop t        => some (.doStop t)
  | .sessionStop     => some (.doStop .client)
  | .snapcastExit    => some .exit
  | _                => none

-- The thread whose call has returned at a step.
def LightningCastClient.Act.returns : LightningCastClient.Act → Option Thread
  | .stopped t                  => some t
  | .called _ | .sessionStopped => some .client
  | _                           => none

-- The call at whose beginning a step of `SnapcastComm` stands.
def SnapcastComm.Act.entry : SnapcastComm.Act → Option Entry
  | .doPlay t  => some (.doPlay t)
  | .doPause t => some (.doPause t)
  | .doStop t  => some (.doStop t)
  | .exit _    => some .exit
  | _          => none

-- The whole program: the two objects, coupled by the calls from the one into the other.
namespace Device

structure State where
  cast : LightningCastClient.State := {}
  link : SnapcastComm.State        := {}

inductive Act
  | cast (a : LightningCastClient.Act)
  | link (b : SnapcastComm.Act)
  | call (a : LightningCastClient.Act) (b : SnapcastComm.Act)

def step (s : State) : Act → Option State
  | .cast a =>
    if a.entry = none ∧ ∀ t ∈ a.returns, s.link.call t = none
    then (LightningCastClient.step s.cast a).map ({ s with cast := · }) else none
  | .link b =>
    if b.entry = none then (SnapcastComm.step s.link b).map ({ s with link := · }) else none
  | .call a b =>
    if a.entry ≠ none ∧ a.entry = b.entry
    then (LightningCastClient.step s.cast a).bind fun cast =>
      (SnapcastComm.step s.link b).map fun link => { cast, link }
    else none

def machine : Machine State Act where
  init := {}
  step := step

-- The part of an action which belongs to each of the objects.
def Act.castPart : Act → Option LightningCastClient.Act
  | .cast a | .call a _ => some a
  | .link _             => none

def Act.linkPart : Act → Option SnapcastComm.Act
  | .link b | .call _ b => some b
  | .cast _             => none

section

variable {s s' : State} {a : LightningCastClient.Act} {b : SnapcastComm.Act}

theorem step_cast : step s (.cast a) = some s' ↔
    (a.entry = none ∧ ∀ t ∈ a.returns, s.link.call t = none) ∧
      ∃ cast, LightningCastClient.step s.cast a = some cast ∧ { s with cast } = s' := by
  simp [step]

theorem step_link : step s (.link b) = some s' ↔
    b.entry = none ∧ ∃ link, SnapcastComm.step s.link b = some link ∧ { s with link } = s' := by
  simp [step]

theorem step_call : step s (.call a b) = some s' ↔
    (a.entry ≠ none ∧ a.entry = b.entry) ∧ ∃ cast, LightningCastClient.step s.cast a = some cast ∧
      ∃ link, SnapcastComm.step s.link b = some link ∧ { cast, link } = s' := by
  simp [step, Option.bind_eq_some_iff]

end

theorem cast_step {s s' : State} {a : Act} (h : step s a = some s') :
    LightningCastClient.machine.Follows s.cast s'.cast a.castPart := by
  cases a
  case cast a =>
    have ⟨_, _, h, hs⟩ := step_cast.mp h
    exact hs ▸ h
  case link b =>
    have ⟨_, _, _, hs⟩ := step_link.mp h
    exact hs ▸ rfl
  case call a b =>
    have ⟨_, _, h, _, _, hs⟩ := step_call.mp h
    exact hs ▸ h

theorem link_step {s s' : State} {a : Act} (h : step s a = some s') :
    SnapcastComm.machine.Follows s.link s'.link a.linkPart := by
  cases a
  case cast a =>
    have ⟨_, _, _, hs⟩ := step_cast.mp h
    exact hs ▸ rfl
  case link b =>
    have ⟨_, _, h, hs⟩ := step_link.mp h
    exact hs ▸ h
  case call a b =>
    have ⟨_, _, _, _, h, hs⟩ := step_call.mp h
    exact hs ▸ h

-- Each object does in the device what it can do by itself.
def castSimulation : Machine.Simulation machine LightningCastClient.machine where
  state  := State.cast
  act _  := Act.castPart
  init   := rfl
  step _ := cast_step

def linkSimulation : Machine.Simulation machine SnapcastComm.machine where
  state  := State.link
  act _  := Act.linkPart
  init   := rfl
  step _ := link_step

end Device
