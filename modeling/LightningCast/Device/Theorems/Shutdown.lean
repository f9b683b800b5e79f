import LightningCast.Device.Theorems.Playback
import LightningCast.LightningCastClient.Theorems.Shutdown
import LightningCast.SnapcastComm.Theorems.Shutdown

namespace Device

open Thread

-- Shutdown strands nobody: neither a thread which waits for a `handle` which has returned, or is going to,
-- nor the handler of `SnapcastComm`, in a `select` which does not notice its `Exit`.
structure State.StrandsNobody (s : State) : Prop where
  cast : s.cast.StrandsNobody
  link : s.link.StrandsNobody
  exit : s.cast.main.SnapcastExited → ¬s.link.Blind

-- `SnapcastComm::Exit` does not find the handler in a quiet `select`, and the handler does not go there
-- after it.
def ExitNoticed (s : State) (a : Act) : Prop :=
  (∀ b ∈ a.linkPart, b.exits → ¬s.link.Blind) ∧
  (s.cast.main.SnapcastExited → ∀ b ∈ a.linkPart, SnapcastComm.Sees s.link b)

-- In both objects no call is too late for its handler, and `SnapcastComm::Exit` is noticed.
def Timely (s : State) (a : Act) : Prop :=
  (∀ a' ∈ a.castPart, LightningCastClient.Timely s.cast a') ∧
  (∀ b ∈ a.linkPart, SnapcastComm.Timely s.link b) ∧ ExitNoticed s a

instance (s : State) (a : Act) : Decidable (ExitNoticed s a) :=
  inferInstanceAs (Decidable ((∀ _ ∈ _, _ → _) ∧ (_ → ∀ _ ∈ _, _)))

instance (s : State) (a : Act) : Decidable (Timely s a) :=
  inferInstanceAs (Decidable ((∀ _ ∈ _, _) ∧ (∀ _ ∈ _, _) ∧ _))

variable {s s' : State} {a : Act}

theorem entry_cast_eq_exit {a : LightningCastClient.Act} : a.entry = some .exit ↔ a = .snapcastExit := by
  cases a
  case doRead wake msg => cases msg <;> simp [LightningCastClient.Act.entry]
  all_goals simp [LightningCastClient.Act.entry]

theorem entry_link_eq_exit {b : SnapcastComm.Act} : b.entry = some .exit ↔ b.exits := by
  cases b <;> simp [SnapcastComm.Act.entry, SnapcastComm.Act.exits]

-- `SnapcastComm::Exit` is called by the main thread, and once.
theorem main_of_exits {b : SnapcastComm.Act} (h : step s a = some s') (hb : b ∈ a.linkPart) (he : b.exits) :
    s.cast.main = .snapcastExit ∧ s'.cast.main.SnapcastExited := by
  rw [← entry_link_eq_exit] at he
  cases a
  case cast => cases hb
  case link =>
    cases hb
    simp [(step_link.mp h).left] at he
  case call a b =>
    cases hb
    obtain ⟨⟨_, hn⟩, cast, hc, _, _, rfl⟩ := step_call.mp h
    obtain rfl := entry_cast_eq_exit.mp (hn.trans he)
    simp only [LightningCastClient.step, Option.ite_none_right_eq_some, Option.some.injEq] at hc
    obtain ⟨hg, rfl⟩ := hc
    exact ⟨hg, trivial⟩

theorem snapcastExited_iff (hr : machine.Reachable s) (h : step s a = some s')
    (he : ∀ b ∈ a.linkPart, ¬b.exits) : s'.cast.main.SnapcastExited ↔ s.cast.main.SnapcastExited := by
  have p : s.cast.Placed := LightningCastClient.placed (castSimulation.reachable hr)
  cases a
  case cast a =>
    obtain ⟨⟨hn, _⟩, cast, hc, rfl⟩ := step_cast.mp h
    exact LightningCastClient.snapcastExited_iff p hc fun ha => by simp [entry_cast_eq_exit.mpr ha] at hn
  case link b =>
    obtain ⟨_, _, _, rfl⟩ := step_link.mp h
    rfl
  case call a b =>
    obtain ⟨⟨_, hn⟩, cast, hc, _, _, rfl⟩ := step_call.mp h
    refine LightningCastClient.snapcastExited_iff p hc fun ha => he b rfl ?_
    exact entry_link_eq_exit.mp (hn.symm.trans (entry_cast_eq_exit.mpr ha))

-- Until the main thread has called `SnapcastComm::Exit`, the handler runs, and has no `EXIT` to find.
def State.LinkExitedFirst (s : State) : Prop :=
  s.link.Exiting → s.cast.main.SnapcastExited

theorem State.LinkExitedFirst.step (hr : machine.Reachable s) (i : s.LinkExitedFirst)
    (h : Device.step s a = some s') : s'.LinkExitedFirst := by
  intro he
  by_cases hx : ∃ b ∈ a.linkPart, b.exits
  case pos =>
    obtain ⟨b, hb, hx⟩ := hx
    exact (main_of_exits h hb hx).right
  case neg =>
    have hx : ∀ b ∈ a.linkPart, ¬b.exits := fun b hb h => hx ⟨b, hb, h⟩
    rw [snapcastExited_iff hr h hx]
    refine i ?_
    have hf := link_step h
    cases hl : a.linkPart <;> rw [hl] at hf
    case none   => exact hf ▸ he
    case some b => exact (SnapcastComm.State.exiting_step hf he).resolve_right (hx b hl)

theorem linkExitedFirst (h : machine.Reachable s) : s.LinkExitedFirst := by
  have ⟨as, he⟩ := h
  refine Machine.Meets.trivial.invariant he ?_ fun hr i _ h => i.step hr h
  simp [State.LinkExitedFirst, SnapcastComm.State.Exiting, machine]

theorem exitNoticed_iff (hr : machine.Reachable s) (i : s.StrandsNobody) (h : step s a = some s') :
    (s'.cast.main.SnapcastExited → ¬s'.link.Blind) ↔ ExitNoticed s a := by
  have hf := link_step h
  cases hl : a.linkPart <;> rw [hl] at hf
  case none =>
    have hm := (snapcastExited_iff hr h (by simp [hl])).mp
    refine iff_of_true (fun hx hb => i.exit (hm hx) ?_) (by simp [ExitNoticed, hl])
    rwa [show s'.link = s.link from hf] at hb
  case some b =>
    by_cases he : b.exits
    case pos =>
      have ⟨hm, hm'⟩ := main_of_exits h hl he
      have hx : ¬s.cast.main.SnapcastExited := by simp [hm, LightningCastClient.MainPc.SnapcastExited]
      simp [ExitNoticed, hl, he, hm', hx, SnapcastComm.blind_of_exits he hf]
    case neg =>
      have hm := snapcastExited_iff hr h (by simpa [hl] using he)
      have hb : (s.cast.main.SnapcastExited → ¬s'.link.Blind) ↔
          (s.cast.main.SnapcastExited → SnapcastComm.Sees s.link b) :=
        forall_congr' fun hx => SnapcastComm.blind_iff (i.exit hx) hf
      simp [ExitNoticed, hl, he, hm, hb]

theorem strandsNobody_iff (hr : machine.Reachable s) (i : s.StrandsNobody) (h : step s a = some s') :
    s'.StrandsNobody ↔ Timely s a := by
  have hcast : s'.cast.StrandsNobody ↔ ∀ a' ∈ a.castPart, LightningCastClient.Timely s.cast a' := by
    have hr := castSimulation.reachable hr
    have hf := cast_step h
    cases hc : a.castPart <;> rw [hc] at hf
    case none   => simpa [show s'.cast = s.cast from hf] using i.cast
    case some a =>
      have ht : s'.cast.StrandsNobody ↔ LightningCastClient.Timely s.cast a :=
        LightningCastClient.strandsNobody_iff (LightningCastClient.placed hr) (LightningCastClient.blocked hr)
          (LightningCastClient.exitedFirst hr) i.cast hf
      simpa using ht
  have hlink : s'.link.StrandsNobody ↔ ∀ b ∈ a.linkPart, SnapcastComm.Timely s.link b := by
    have hf := link_step h
    cases hl : a.linkPart <;> rw [hl] at hf
    case none   => simpa [show s'.link = s.link from hf] using i.link
    case some b =>
      have hx (he : b.exits) : s.link.handler ≠ .returned := by
        intro hd
        have hx : s.cast.main.SnapcastExited := linkExitedFirst hr (.inr hd)
        rw [(main_of_exits h hl he).left] at hx
        exact hx
      have ht : s'.link.StrandsNobody ↔ SnapcastComm.Timely s.link b :=
        SnapcastComm.strandsNobody_iff (SnapcastComm.blocked (linkSimulation.reachable hr)) i.link hx hf
      simpa using ht
  have hexit := exitNoticed_iff hr i h
  exact ⟨fun j => ⟨hcast.mp j.cast, hlink.mp j.link, hexit.mp j.exit⟩,
    fun ⟨hc, hl, hx⟩ => ⟨hcast.mpr hc, hlink.mpr hl, hexit.mpr hx⟩⟩

-- A run strands nobody if and only if no call in it is too late for its handler and `Exit` is noticed.
theorem shutdown_strands_nobody_iff {as : List Act} (he : machine.exec machine.init as = some s) :
    machine.Always State.StrandsNobody as ↔ machine.Meets Timely as := by
  refine machine.always_iff he ⟨?_, ?_, ?_⟩ strandsNobody_iff
  · simp [LightningCastClient.State.StrandsNobody, machine]
  · simp [SnapcastComm.State.StrandsNobody, machine]
  · simp [SnapcastComm.State.Blind, machine]

-- The session is over, and the main thread exits.
def exitAfterSession : List Act :=
  hangUp ++
  [.cast .exitCall, .cast (.getIsOpen main), .cast (.exit none), .cast (.handle none),
   .call .snapcastExit (.exit (some snapcast)), .link (.resume none), .cast .serverExit, .cast .serverReturn]

set_option maxRecDepth 4000 in
theorem exitAfterSession_strands_nobody : (∃ s, machine.exec machine.init exitAfterSession = some s ∧
    s.cast.handler = .returned ∧ s.link.handler = .returned) ∧
    machine.Always State.StrandsNobody exitAfterSession := by
  have ⟨s, he, hs⟩ := machine.exec_of_any exitAfterSession
    (fun s => s.cast.handler = .returned ∧ s.link.handler = .returned) (by decide)
  exact ⟨⟨s, he, of_decide_eq_true hs⟩, (shutdown_strands_nobody_iff he).mpr (by decide)⟩

-- The first handshake arrives when the handler has taken its `EXIT`.
def openAfterExit : List Act :=
  [.cast (.handle none), .cast .exitCall, .cast (.getIsOpen main), .cast (.exit (some client)),
   .cast (.resume none), .cast (.openCall [49]), .cast (.getIsOpen server), .cast (.openCmd none)]

-- The main thread exits while the client thread connects, which takes `EXIT` for its own `OPEN`.
def exitBesideConnect : List Act :=
  [.cast (.handle none), .cast (.openCall [49]), .cast (.getIsOpen server), .cast (.openCmd (some client)),
   .cast (.resume none), .cast (.socket true), .cast (.resolve true), .cast .exitCall, .cast (.getIsOpen main),
   .cast (.exit none), .cast (.connect true [49]), .cast .flag, .cast (.finish (some server)), .cast .opened]

-- The client thread plays before `SnapcastComm::Exit` is called.
def exitBesidePlay : List Act :=
  let doPlay : List Act :=
    [.link (.handle none), .cast .loop, .cast (.select true), .call (.doRead false .play) (.doPlay client)]
  exitBesideConnect ++ doPlay ++ SnapcastComm.play.map .link ++ [.call .snapcastExit (.exit none)]

-- In the first run the server thread waits in `Open` for a handler which has returned. In the second one
-- `SnapcastComm::Exit` has not written to `wake_fd`, and the handler is blocked in `select`.
set_option maxRecDepth 4000 in
theorem exit_strands :
    (∃ s, machine.exec machine.init openAfterExit = some s ∧ s.cast.handler = .returned ∧
      s.cast.call server = some .wait ∧ server ∈ s.cast.cast.condSync ∧ ¬s.cast.cast.Finished ∧
      ¬s.StrandsNobody) ∧
    ∃ s, machine.exec machine.init exitBesidePlay = some s ∧ s.cast.main = .serverExit ∧
      s.link.comm.cmd = .EXIT ∧ s.link.Blind ∧ ¬s.StrandsNobody := by
  constructor
  · have ⟨s, he, hs⟩ := machine.exec_of_any openAfterExit
      (fun s => s.cast.handler = .returned ∧ s.cast.call server = some .wait ∧ server ∈ s.cast.cast.condSync ∧
        ¬s.cast.cast.Finished) (by decide)
    have ⟨hd, hc, hm, hf⟩ := of_decide_eq_true hs
    exact ⟨s, he, hd, hc, hm, hf, fun i => hf (i.cast hd server _ hc).right.right⟩
  · have ⟨s, he, hs⟩ := machine.exec_of_any exitBesidePlay
      (fun s => s.cast.main = .serverExit ∧ s.link.comm.cmd = .EXIT ∧ s.link.Blind) (by decide)
    have ⟨hm, hc, hb⟩ := of_decide_eq_true hs
    exact ⟨s, he, hm, hc, hb, fun i => i.exit (by rw [hm]; trivial) hb⟩

end Device
