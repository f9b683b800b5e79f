import LightningCast.Device.Basic
import LightningCast.SnapcastComm.Theorems.Connection
import LightningCast.SnapcastComm.Theorems.Deadlock
import LightningCast.LightningCastClient.Theorems.Session

namespace LightningCastClient

-- Only the server and the main thread call `Open` and `Exit`.
def State.Callers (s : State) : Prop :=
  s.call .client = none

theorem State.Callers.step {s s' : State} {a : Act} (hc : s.Callers)
    (h : LightningCastClient.step s a = some s') :
    s'.Callers := by
  unfold Callers at hc ⊢
  cases a <;> simp only [LightningCastClient.step, Option.ite_none_right_eq_some, Option.some.injEq] at h <;>
    obtain ⟨hg, rfl⟩ := h
  case socket | resolve | connect => split <;> exact hc
  all_goals
    simp only [goto_call, done_call, turn_call, Function.update_apply]
    grind [TestsReady]

theorem callers {s : State} (h : machine.Reachable s) : s.Callers :=
  h.invariant rfl State.Callers.step

-- The places of a session at which the client thread may have a connection to the player.
def HandlerPc.MayPlay : HandlerPc → Prop
  | .loop | .select | .scan .. | .checkWake _ | .calling _ | .unflag | .stop => True
  | _                                                                      => False

end LightningCastClient

namespace Device

variable {s s' : State}

-- Outside a session the player is quiet, and the `doStop` which ends one is about to make it so.
structure State.Settled (s : State) : Prop where
  quiet : ¬s.cast.handler.MayPlay → s.cast.handler ≠ .stopping → s.link.Quiet
  stops : s.cast.handler = .stopping → s.link.Stops

theorem State.Settled.of_mayPlay (h : s.cast.handler.MayPlay) : s.Settled where
  quiet hm _ := absurd h hm
  stops hs   := by rw [hs] at h; cases h

theorem State.Settled.of_quiet (hq : s.link.Quiet) : s.Settled where
  quiet _ _ := hq
  stops _   := hq.stops

-- A step of `LightningCastClient` which begins no call and sees none return.
theorem State.Settled.cast_step (i : s.Settled) {a : LightningCastClient.Act}
    {cast : LightningCastClient.State}
    (he : a.entry = none) (hr : ∀ t ∈ a.returns, s.link.call t = none)
    (h : LightningCastClient.step s.cast a = some cast) : ({ s with cast } : State).Settled := by
  obtain ⟨quiet, stops⟩ := i
  cases a <;> simp only [LightningCastClient.step, Option.ite_none_right_eq_some, Option.some.injEq] at h <;>
    obtain ⟨hg, rfl⟩ := h
  case doStop | sessionStop | snapcastExit => cases he
  case sessionStopped => exact .of_quiet <| (stops hg).right (hr .client rfl)
  -- outside the session
  case handle | resume | failFinish | finish =>
    exact .of_quiet <| quiet (by rw [hg.left]; exact id) (by simp [hg])
  case failFlag | flag | teardown => exact .of_quiet <| quiet (by rw [hg]; exact id) (by simp [hg])
  case socket ok | resolve ok | connect ok ip =>
    exact .of_quiet <| quiet (by rw [hg]; exact id) (by simp [hg])
  -- in the session
  case loop | checkWake | timeout => split <;> exact .of_mayPlay trivial
  case doRead wake msg => cases msg <;> exact .of_mayPlay trivial
  case select | selectError | readWake | called | scanned | unflag => exact .of_mayPlay trivial
  -- the callers
  all_goals exact ⟨quiet, stops⟩

-- A step of `LightningCastClient` which calls into `SnapcastComm`.
theorem State.Settled.call_step (hr : machine.Reachable s) (i : s.Settled) {a : LightningCastClient.Act}
    {b : SnapcastComm.Act} {cast : LightningCastClient.State} {link : SnapcastComm.State}
    (hn : a.entry ≠ none) (he : a.entry = b.entry) (hc : LightningCastClient.step s.cast a = some cast)
    (hl : SnapcastComm.step s.link b = some link) : ({ cast, link } : State).Settled := by
  have hr' := linkSimulation.reachable hr
  have hcl := LightningCastClient.callers (castSimulation.reachable hr)
  have hb (h : b.begins ≠ some .client) (hh : cast.handler = s.cast.handler) :
      ({ cast, link } : State).Settled :=
    ⟨fun hm hs => (i.quiet (hh ▸ hm) (hh ▸ hs)).step hr' h hl, fun hs => (i.stops (hh ▸ hs)).step hr' h hl⟩
  cases a <;> simp only [LightningCastClient.Act.entry, ne_eq, not_true] at hn he <;>
    simp only [LightningCastClient.step, Option.ite_none_right_eq_some, Option.some.injEq] at hc <;>
    obtain ⟨hg, rfl⟩ := hc
  case doRead wake msg => cases msg <;> first | exact absurd rfl hn | exact .of_mayPlay trivial
  case doStop t =>
    refine hb ?_ rfl
    cases b <;> cases he
    rintro ⟨⟩
    cases hg.symm.trans hcl
  case sessionStop =>
    cases b <;> cases he
    simp only [SnapcastComm.step, Option.ite_none_right_eq_some, Option.some.injEq] at hl
    obtain ⟨_, rfl⟩ := hl
    refine ⟨fun _ hs => absurd rfl hs, fun _ => ⟨?_, by simp⟩⟩
    simp [SnapcastComm.Call.Plays]
  case snapcastExit =>
    refine hb ?_ rfl
    cases b <;> cases he
    rintro ⟨⟩

theorem State.Settled.step (hr : machine.Reachable s) (i : s.Settled) {a : Act}
    (h : Device.step s a = some s') :
    s'.Settled := by
  cases a
  case cast a =>
    obtain ⟨⟨he, hret⟩, cast, hc, rfl⟩ := step_cast.mp h
    exact i.cast_step he hret hc
  case link b =>
    obtain ⟨he, link, hl, rfl⟩ := step_link.mp h
    have hr' := linkSimulation.reachable hr
    have hb : b.begins ≠ some .client := by
      cases b <;> simp_all [SnapcastComm.Act.begins, SnapcastComm.Act.entry]
    exact ⟨fun hm hs => (i.quiet hm hs).step hr' hb hl, fun hs => (i.stops hs).step hr' hb hl⟩
  case call a b =>
    obtain ⟨⟨hn, he⟩, cast, hc, link, hl, rfl⟩ := step_call.mp h
    exact i.call_step hr hn he hc hl

theorem settled (h : machine.Reachable s) : s.Settled := by
  have ⟨as, he⟩ := h
  exact Machine.Meets.trivial.invariant he (.of_quiet ⟨rfl, rfl, nofun⟩) fun hr i _ h => i.step hr h

-- When the handler of `LightningCastClient` is outside `do_open`, there is no connection to the player.
theorem playback_ends (h : machine.Reachable s) (ho : s.cast.handler.phase = .outside) :
    s.link.comm.serverFd = .none := by
  refine SnapcastComm.State.Quiet.serverFd (linkSimulation.reachable h) ((settled h).quiet ?_ ?_) <;>
    intro hs <;> cases hc : s.cast.handler <;>
    simp_all [LightningCastClient.HandlerPc.phase, LightningCastClient.HandlerPc.MayPlay]

-- A session is opened, and the client thread is about to read a `SET_PLAY`.
def beforePlay : List Act :=
  (LightningCastClient.session [49]).map .cast ++
  [.link (.handle none), .cast .loop, .cast (.select true), .call (.doRead false .play) (.doPlay .client)]

-- The player plays, and the client thread is about to leave the session.
def playing : List Act :=
  beforePlay ++ SnapcastComm.play.map .link ++ [.cast (.called false), .cast .scanned, .cast .loop]

-- The peer hangs up while the player plays.
def hangUp : List Act :=
  playing ++ [.cast (.select true), .cast (.doRead false .reject), .cast .unflag,
    .call .sessionStop (.doStop .client)] ++
  (SnapcastComm.stop .client).map .link ++ [.cast .sessionStopped, .cast .teardown]

set_option maxRecDepth 4000 in
theorem playback_ends_hangUp : ∃ s, machine.exec machine.init hangUp = some s ∧
    s.cast.handler = .handle ∧ s.link.comm.serverFd = .none := by
  have ⟨s, he, hs⟩ := machine.exec_of_any hangUp (fun s => s.cast.handler = .handle) (by decide)
  have hs := of_decide_eq_true hs
  exact ⟨s, he, hs, playback_ends ⟨_, he⟩ (by rw [hs]; rfl)⟩

end Device
