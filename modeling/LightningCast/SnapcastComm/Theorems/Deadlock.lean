import LightningCast.SnapcastComm.Basic

namespace SnapcastComm

open Thread

-- The thread whose code an action executes, for the callers of `SnapcastComm`. `Exit` is called by `main`.
def Act.caller : Act → Option Thread
  | .doPlay t | .doPause t | .doStop t | .openCmd t _ | .close t _ | .rewait t | .opened t | .closed t
  | .reset t | .refuse t _ | .send t _ _ | .cut t _ _ | .block t _ | .consume t _ | .started t _ => some t
  | .exit _ => some .main
  | _       => none

-- The client thread is the only caller: the run processes its messages, in any order and number.
def ClientOnly (as : List Act) : Prop :=
  ∀ a ∈ as, a.caller = none ∨ a.caller = some .client

instance (as : List Act) : Decidable (ClientOnly as) :=
  inferInstanceAs (Decidable (∀ _ ∈ as, _ ∨ _))

namespace State

-- The handler is blocked in `select`, and nothing but the player can end that.
def Blind (s : State) : Prop :=
  s.handler = .select ∧ ¬s.comm.wakeFd ∧ ¬s.comm.serverFd.Readable

-- A caller waits for a command which the handler cannot notice.
def Stuck (s : State) : Prop :=
  s.Blind ∧ s.comm.cmd ≠ .NONE ∧ ∃ t, s.call t = some .openWait ∨ s.call t = some .closeWait

instance (s : State) : Decidable s.Blind :=
  inferInstanceAs (Decidable (_ ∧ _ ∧ _))

end State

def Act.opens : Act → Bool
  | .openCmd .. => true
  | _           => false

-- `Open` does not write to `wake_fd`, so its command must not find the handler in a quiet `select`.
def OpenNoticed (s : State) (a : Act) : Prop :=
  a.opens → ¬s.Blind

instance (s : State) (a : Act) : Decidable (OpenNoticed s a) :=
  inferInstanceAs (Decidable (_ → _))

theorem HandlerPc.ofTurn_ne_select : (t : Mailbox.Turn) → ofTurn t ≠ .select
  | .doOpen | .wait | .exit => nofun

-- Every command which stands in the slot during `select` can be noticed.
def State.Noticed (s : State) : Prop :=
  s.Blind → s.comm.cmd = .NONE

theorem State.Noticed.not_stuck {s : State} (h : s.Noticed) : ¬s.Stuck :=
  fun ⟨hb, hc, _⟩ => hc (h hb)

theorem State.Noticed.step {s s' : State} {a : Act} (hn : s.Noticed) (ha : a.caller ≠ some main)
    (ho : OpenNoticed s a) (h : SnapcastComm.step s a = some s') : s'.Noticed := by
  cases a <;> simp only [SnapcastComm.step, Option.ite_none_right_eq_some, Option.some.injEq] at h <;>
    obtain ⟨hg, rfl⟩ := h
  case exit => exact absurd rfl ha
  -- `Open` relies on the condition, `Close` writes to `wake_fd`.
  case openCmd => exact fun hb => absurd hb (ho rfl)
  case close   => simp [Noticed, Blind, close]
  -- The handler enters `select` only with an empty slot.
  case loop      => split <;> simp_all [Noticed, Blind]
  case checkWake => split <;> simp [Noticed, Blind]
  case doRead => simp [Noticed, Blind]
  case handle | resume => exact fun hb => absurd hb.left (HandlerPc.ofTurn_ne_select _)
  -- Writing to the player does not make the descriptor readable, and the player's events do.
  case send => simp_all [Noticed, Blind, PlayerFd.Readable]
  case cut  => simpa [Noticed, Blind] using hn
  case answer | babble | hangUp => simp [Noticed, Blind, PlayerFd.Readable, PlayerConn.Readable]
  all_goals simp_all [Noticed, Blind]

-- An `Open` which is posted to a handler in a quiet `select` is stuck at once.
theorem State.Blind.stuck {s s' : State} {a : Act} (hb : s.Blind) (ha : a.opens)
    (h : SnapcastComm.step s a = some s') : s'.Stuck := by
  cases a <;> simp only [Act.opens, Bool.false_eq_true] at ha
  case openCmd t w =>
    simp only [SnapcastComm.step, Option.ite_none_right_eq_some, Option.some.injEq] at h
    obtain ⟨_, rfl⟩ := h
    exact ⟨hb, by simp [openCmd], t, by simp⟩

-- With the client thread as the only caller, a run gets stuck exactly if it posts an `OPEN` to a handler
-- in a quiet `select`.
theorem no_deadlock_iff {as : List Act} {s : State} (hc : ClientOnly as)
    (he : machine.exec machine.init as = some s) :
    machine.Always (¬·.Stuck) as ↔ machine.Meets OpenNoticed as := by
  constructor
  case mp => exact fun hs => (hs.next he).mono fun _ _ ⟨_, h, hn⟩ ha hb => hn (hb.stuck ha h)
  case mpr =>
    intro ho bs s₁ hp h₁
    have hn : machine.Always State.Noticed as := by
      refine ((Machine.Meets.of_forall hc).and ho).always (by simp [State.Noticed, State.Blind, machine]) ?_
      intro s a s' _ hn ⟨hc, ho⟩ h
      exact hn.step (by rcases hc with hc | hc <;> simp [hc]) ho h
    exact (hn bs s₁ hp h₁).not_stuck

-- `doPlay` from `Open` on, with the handler waiting, up to the point where the handler has processed the
-- receipt and is back in `select`.
def play : List Act :=
  let r : Request := { id := 0, cmd := .START, conn := some 0 }
  let c : Receipt := { id := 0, cmd := .START, result := true }
  [.openCmd client (some snapcast), .resume none, .socket, .connect, .finish (some client), .opened client,
   .reset client, .send client .START { id := 0 }, .loop, .answer { id := 0, requests := [r] } r true, .select,
   .doRead false { id := 0, inbox := [.receipt c] }, .parse c false, .lockSignal c false, .consume client r,
   .started client r, .notify false none, .scanned, .loop]

-- `doPause` or `doStop` after it, up to the return of `Close`.
def stop (t : Thread) : List Act :=
  let r : Request := { id := 1, cmd := .STOP, conn := some 0 }
  let c : Receipt := { id := 1, cmd := .STOP, result := true }
  [.send t .STOP { id := 0 }, .answer { id := 0, requests := [r] } r true, .select,
   .doRead false { id := 0, inbox := [.receipt c] }, .parse c false, .lockSignal c false, .consume t r,
   .close t none, .notify false none, .scanned, .loop, .teardown, .handle (some t), .closed t]

-- `SET_PLAY`, `SET_PAUSE` and `SET_PLAY`, each processed before the next one is.
def playPausePlay : List Act :=
  [.handle none, .doPlay client] ++ play ++ [.doPause client] ++ stop client ++
  [.doPlay client, .openCmd client (some snapcast)]

set_option maxRecDepth 4000 in
theorem playPausePlay_not_stuck : machine.Always (¬·.Stuck) playPausePlay :=
  have ⟨_, he, _⟩ := machine.exec_of_any playPausePlay (fun _ => true) (by decide)
  (no_deadlock_iff (by decide) he).mpr (by decide)

-- Two `SET_PLAY` in a row. The player has started when the second one arrives, and is silent from then on.
def playTwice : List Act :=
  [.handle none, .doPlay client] ++ play ++ [.doPlay client, .openCmd client none]

theorem playTwice_stuck : ClientOnly playTwice ∧
    ∃ s, machine.exec machine.init playTwice = some s ∧ s.Stuck := by
  refine ⟨by decide, ?_⟩
  have ⟨s, he, hs⟩ := machine.exec_of_any playTwice
    (fun s => s.Blind ∧ s.comm.cmd ≠ .NONE ∧ s.call client = some .openWait) (by decide)
  have ⟨hb, hc, ho⟩ := of_decide_eq_true hs
  exact ⟨s, he, hb, hc, client, .inl ho⟩

end SnapcastComm
