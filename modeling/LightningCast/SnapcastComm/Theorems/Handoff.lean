import LightningCast.Library.Handoff
import LightningCast.SnapcastComm.Basic

namespace SnapcastComm

open Mailbox (Cmd)

-- The places in `doPlay` up to the end of `sendStart`.
def Call.Plays : Call → Prop
  | .openCmd | .openWait | .reset | .write .START | .result _ => True
  | .lockWait r | .blocked r => r.cmd = .START
  | .write .STOP | .close | .closeWait => False

namespace State

-- `doParse` makes the client thread the only one which plays.
def ClientPlays (s : State) : Prop :=
  ∀ t c, s.call t = some c → c.Plays → t = .client

theorem ClientPlays.step {s s' : State} {a : Act} (hi : s.ClientPlays) (h : step s a = some s') :
    s'.ClientPlays := by
  intro t c
  replace hi := hi t
  cases a <;> simp only [SnapcastComm.step, Option.ite_none_right_eq_some, Option.some.injEq] at h <;>
    obtain ⟨hg, rfl⟩ := h <;>
    simp only [goto_call, done_call, read_call, consumed_call, startedWith_call,
      turn_call, Function.update_apply]
  all_goals grind [Call.Plays, TestsReady, TestsPending, request, Call.after]

end State

theorem client_plays {s : State} (h : machine.Reachable s) : s.ClientPlays :=
  h.invariant (by simp [State.ClientPlays, machine]) State.ClientPlays.step

def HandlerPc.phase : HandlerPc → Handoff.Phase
  | .handle | .wait | .returned  => .outside
  | .socket | .connect | .finish => .serving
  | _                            => .session

def Call.opener : Option Call → Handoff.Opener
  | some .openWait  => .opening
  | some .closeWait => .closing
  | _               => .idle

-- The client thread is the one which posts `OPEN`.
def State.handoff (s : State) : Handoff.State :=
  Handoff.view s.comm.toMailbox s.handler.phase (Call.opener (s.call .client))

def handoffAct (s : State) : Act → Option Handoff.Act
  | .openCmd ..           => some .postOpen
  | .close t _            => some (if t = .client then .postClose else .post .CLOSE)
  | .exit _               => some (.post .EXIT)
  | .opened t | .closed t => if t = .client then some .return else none
  | .handle w             => Handoff.Act.ofTurn s.comm.toMailbox (s.comm.toMailbox.handle .snapcast w)
  | .resume w             => Handoff.Act.ofTurn s.comm.toMailbox (s.comm.toMailbox.resume .snapcast w)
  | .finish _             => some (.finish true)
  | .teardown             => some .leave
  | _                     => none

section

variable {t : Thread} {c : Option Call} {s s' : State} {r : Request}

theorem opener_after : Call.opener (some (.after r)) = .idle := by
  cases hc : r.cmd <;> simp [Call.after, hc, Call.opener]

theorem State.TestsPending.opener (h : s.TestsPending t r) : Call.opener (s.call t) = .idle := by
  rcases h with h | ⟨h, _⟩ <;> rw [h] <;> rfl

-- A caller moves between places where it waits for no command.
theorem handoff_caller (hc : s'.call = Function.update s.call t c)
    (h : t = .client → Call.opener (s.call t) = .idle ∧ Call.opener c = .idle)
    (hcmd : s'.comm.cmd = s.comm.cmd) (hready : s'.comm.readySync = s.comm.readySync)
    (hp : s'.handler.phase = s.handler.phase) : s'.handoff = s.handoff :=
  Handoff.view_congr hcmd hready hp (hc ▸ Handoff.opener_update h)

-- The handler moves within a phase.
theorem handoff_handler (hc : s'.call = s.call) (hcmd : s'.comm.cmd = s.comm.cmd)
    (hready : s'.comm.readySync = s.comm.readySync) (hp : s'.handler.phase = s.handler.phase) :
    s'.handoff = s.handoff :=
  Handoff.view_congr hcmd hready hp (by rw [hc])

theorem handoff_turn {m : Mailbox Thread × Mailbox.Turn} (hp : s.handler.phase = .outside)
    (h : Mailbox.Handles s.comm.toMailbox m.1 m.2) :
    Handoff.machine.Follows s.handoff (s.turn m).handoff (Handoff.Act.ofTurn s.comm.toMailbox m) := by
  have ht : (s.turn m).handler.phase = .ofTurn m.2 := by
    cases hm : m.2 <;> simp [State.turn, hm, HandlerPc.ofTurn, HandlerPc.phase, Handoff.Phase.ofTurn]
  simp only [State.handoff, ht, hp]
  exact Handoff.view_turn h _

theorem read_phase {wake : Bool} {k : PlayerConn} : (s.read wake k).handler.phase = .session := by
  rcases s.read_cases wake k with ⟨_, _, _, h⟩ | ⟨_, _, h⟩ | ⟨_, h⟩ <;> rw [h] <;> rfl

end

theorem handoff_step {s s' : State} {a : Act} (hr : machine.Reachable s)
    (h : machine.step s a = some s') :
    Handoff.machine.Follows s.handoff s'.handoff (handoffAct s a) := by
  have hp := client_plays hr
  replace h : step s a = some s' := h
  cases a <;> simp only [step, Option.ite_none_right_eq_some, Option.some.injEq] at h <;>
    obtain ⟨hg, rfl⟩ := h <;> simp only [handoffAct]
  case openCmd t w =>
    cases hp t _ hg.left trivial
    simp [Handoff.follows_some, Handoff.step, State.handoff, Handoff.view, openCmd, hg, Call.opener]
  case close t w =>
    by_cases ht : t = .client
    case pos =>
      subst ht
      simp [Handoff.follows_some, Handoff.step, State.handoff, Handoff.view, close, hg, Call.opener]
    case neg =>
      simp [Handoff.follows_some, Handoff.step, State.handoff, Handoff.view, close, ht, Ne.symm ht]
  case opened t =>
    obtain ⟨⟨ht, _⟩, hf, hn⟩ := hg
    cases hp t _ ht trivial
    simp [Handoff.follows_some, Handoff.step, State.handoff, Handoff.view, ht, Call.opener, hf, hn]
  case closed t =>
    obtain ⟨⟨ht, _⟩, hf, hn⟩ := hg
    by_cases hc : t = .client
    case pos =>
      subst hc
      simp [Handoff.follows_some, Handoff.step, State.handoff, Handoff.view, ht, Call.opener, hf, hn]
    case neg =>
      rw [if_neg hc]
      exact handoff_caller rfl (absurd · hc) rfl rfl rfl
  case exit w   => simp [Handoff.follows_some, Handoff.step, State.handoff, Handoff.view, exit]
  case handle w => exact handoff_turn (s := s) (by rw [hg.left]; rfl) (Mailbox.handle_handles ..)
  case resume w => exact handoff_turn (s := s) (by rw [hg.left]; rfl) (Mailbox.resume_handles ..)
  case finish w =>
    simp [Handoff.follows_some, Handoff.step, State.handoff, Handoff.view, lockFinishCmd, hg,
      HandlerPc.phase]
  case teardown =>
    simp [Handoff.follows_some, Handoff.step, State.handoff, Handoff.view, hg, HandlerPc.phase]
  -- the steps within a phase
  case doPlay t | doPause t | doStop t =>
    exact handoff_caller rfl (fun _ => ⟨by rw [hg.right]; rfl, rfl⟩) rfl rfl rfl
  case refuse t c | send t c k | cut t c part =>
    exact handoff_caller rfl (fun _ => ⟨by rw [hg.left]; rfl, rfl⟩) rfl rfl rfl
  case reset t     => exact handoff_caller rfl (fun _ => ⟨by rw [hg]; rfl, rfl⟩) rfl rfl rfl
  case block t r   => exact handoff_caller rfl (fun _ => ⟨hg.left.opener, rfl⟩) rfl rfl rfl
  case consume t r => exact handoff_caller rfl (fun _ => ⟨hg.left.opener, opener_after⟩) rfl rfl rfl
  case started t r =>
    refine handoff_caller rfl (fun _ => ⟨by rw [hg]; rfl, ?_⟩) rfl rfl rfl
    split <;> rfl
  case doRead wake k =>
    exact handoff_handler (by simp) (by simp) (by simp) (by rw [read_phase, hg.left]; rfl)
  case loop | checkWake => split <;> exact handoff_handler rfl rfl rfl (by simp [hg, HandlerPc.phase])
  case answer | babble | hangUp | rewait => exact handoff_handler rfl rfl rfl rfl
  all_goals exact handoff_handler rfl rfl rfl (by simp [hg, HandlerPc.phase])

def simulation : Machine.Simulation machine Handoff.machine where
  state := State.handoff
  act   := handoffAct
  init  := rfl
  step  := handoff_step

theorem handoff_inv {s : State} (h : machine.Reachable s) : Handoff.Inv s.handoff :=
  Handoff.inv <| simulation.reachable h

end SnapcastComm
