import LightningCast.ServerFd.Theorems.Guarded
import LightningCast.SnapcastComm.Basic
import LightningCast.LightningCastClient.Basic

open ServerFd (Fd)

-- What the machines of the two classes show of `server_fd`. They take a failed `connectServer` as a single
-- step, from the call which fails to `server_fd = -1`.
namespace LightningCastClient

def CastFd.view : CastFd → Fd
  | .none   => .none
  | .socket => .made
  | .conn _ => .connected

def HandlerPc.view : HandlerPc → ServerFd.HandlerPc
  | .handle | .wait | .socket | .failFlag | .failFinish | .returned => .outside
  | .resolve                                                        => .resolve
  | .connect _                                                      => .connect
  | _                                                               => .session

def State.serverFd (s : State) : ServerFd.State where
  fd      := CastFd.view s.cast.serverFd
  handler := s.handler.view

variable {s s' : State} {a : Act}

def Act.serverFd : Act → List ServerFd.Act
  | .socket ok                        => [.connectServer ok]
  | .resolve true                     => [.connectServer true]
  | .resolve false | .connect false _ => [.connectServer false, .connectServer true, .connectServer true]
  | .connect true _                   => [.connectServer true, .connectServer true]
  | .teardown                         => [.teardown]
  | _                                 => []

theorem HandlerPc.view_ofTurn : (t : Mailbox.Turn) → (ofTurn t).view = .outside
  | .doOpen | .wait | .exit => rfl

theorem serverFd_step (h : step s a = some s') :
    (ServerFd.machine .lightningCastClient).exec s.serverFd a.serverFd = some s'.serverFd := by
  cases a <;> simp only [step, Option.ite_none_right_eq_some, Option.some.injEq] at h <;>
    obtain ⟨hg, rfl⟩ := h
  case handle | resume =>
    simp only [Act.serverFd, State.serverFd, State.turn, hg, HandlerPc.view_ofTurn]
    rfl
  case socket ok | resolve ok | connect ok ip =>
    cases ok <;> simp [Act.serverFd, State.serverFd, State.fail, hg, HandlerPc.view, CastFd.view,
      Machine.exec, ServerFd.machine, ServerFd.step, ServerFd.Class.connectServer, connectServer, Fd.apply]
  case teardown =>
    simp [Act.serverFd, State.serverFd, hg, HandlerPc.view, CastFd.view, Machine.exec, ServerFd.machine,
      ServerFd.step]
  case doRead wake msg =>
    cases msg <;> simp [Act.serverFd, State.serverFd, hg, HandlerPc.view]
  case loop | checkWake | timeout =>
    split <;> simp [Act.serverFd, State.serverFd, hg, HandlerPc.view]
  all_goals
    simp [Act.serverFd, State.serverFd, hg, HandlerPc.view, openCmd, close, exit, lockFinishCmd, setIsOpen]

end LightningCastClient

namespace SnapcastComm

def PlayerFd.view : PlayerFd → Fd
  | .none   => .none
  | .socket => .made
  | .conn _ => .connected

def HandlerPc.view : HandlerPc → ServerFd.HandlerPc
  | .handle | .wait | .socket | .returned => .outside
  | .connect                              => .connect
  | _                                     => .session

def State.serverFd (s : State) : ServerFd.State where
  fd      := PlayerFd.view s.comm.serverFd
  handler := s.handler.view

variable {s s' : State} {a : Act}

def Act.serverFd : Act → List ServerFd.Act
  | .socket | .connect => [.connectServer true]
  | .teardown          => [.teardown]
  | _                  => []

theorem HandlerPc.view_ofTurn : (t : Mailbox.Turn) → (ofTurn t).view = .outside
  | .doOpen | .wait | .exit => rfl

theorem PlayerFd.view_cutShort (part : Bool) : (fd : PlayerFd) → view (fd.cutShort part) = view fd
  | .none | .socket | .conn _ => rfl

theorem State.serverFd_read {wake : Bool} {k : PlayerConn} (hh : s.handler = .scan wake true)
    (hk : s.comm.serverFd = .conn k) : (s.read wake k).serverFd = s.serverFd := by
  rcases s.read_cases wake k with ⟨r, msgs, _, h⟩ | ⟨msgs, _, h⟩ | ⟨_, h⟩ <;>
    simp [h, serverFd, hh, hk, HandlerPc.view, PlayerFd.view]

theorem serverFd_step (h : step s a = some s') :
    (ServerFd.machine .snapcastComm).exec s.serverFd a.serverFd = some s'.serverFd := by
  cases a <;> simp only [step, Option.ite_none_right_eq_some, Option.some.injEq] at h <;>
    obtain ⟨hg, rfl⟩ := h
  case handle | resume =>
    simp only [Act.serverFd, State.serverFd, State.turn, hg, HandlerPc.view_ofTurn]
    rfl
  case socket | connect | teardown =>
    simp [Act.serverFd, State.serverFd, hg, HandlerPc.view, PlayerFd.view, Machine.exec, ServerFd.machine,
      ServerFd.step, ServerFd.Class.connectServer, connectServer, Fd.apply]
  case cut t c part => simp [Act.serverFd, State.serverFd, PlayerFd.view_cutShort]
  case doRead wake k =>
    rw [State.serverFd_read hg.left hg.right.left]
    rfl
  case loop | checkWake =>
    split <;> simp [Act.serverFd, State.serverFd, hg, HandlerPc.view]
  all_goals
    simp [Act.serverFd, State.serverFd, hg, HandlerPc.view, PlayerFd.view, openCmd, close, exit, lockFinishCmd,
      setResult, State.consumed, State.startedWith]

end SnapcastComm

-- In each class, what a run does to `server_fd` is what `connectServer` and the end of a session do to it.
theorem ServerFd.views {s : LightningCastClient.State} {s' : SnapcastComm.State} :
    (LightningCastClient.machine.Reachable s →
      (machine .lightningCastClient).Reachable s.serverFd) ∧
    (SnapcastComm.machine.Reachable s' → (machine .snapcastComm).Reachable s'.serverFd) :=
  ⟨fun ⟨_, he⟩ => ⟨_, Machine.exec_flatMap LightningCastClient.serverFd_step he⟩,
    fun ⟨_, he⟩ => ⟨_, Machine.exec_flatMap SnapcastComm.serverFd_step he⟩⟩
