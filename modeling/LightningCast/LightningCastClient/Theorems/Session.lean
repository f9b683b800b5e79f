import LightningCast.LightningCastClient.Theorems.Handoff

namespace LightningCastClient

-- The descriptor which belongs to each place of the handler.
def HandlerPc.Holds (fd : CastFd) : HandlerPc → Prop
  | .handle | .wait | .returned | .socket | .failFlag | .failFinish => fd = .none
  | .resolve | .connect _                                           => fd = .socket
  | _                                                               => ∃ peer, fd = .conn peer

-- The places in `do_open` between `setIsOpen(true)` and `setIsOpen(false)`.
def HandlerPc.Connected : HandlerPc → Prop
  | .finish | .loop | .select | .scan .. | .checkWake _ | .calling _ | .unflag => True
  | _                                                                        => False

theorem HandlerPc.holds_ofTurn {fd : CastFd} : {t : Mailbox.Turn} → (ofTurn t).Holds fd ↔ fd = .none
  | .doOpen | .wait | .exit => .rfl

theorem HandlerPc.ofTurn_ne_flag : {t : Mailbox.Turn} → ofTurn t ≠ .flag
  | .doOpen | .wait | .exit => nofun

theorem HandlerPc.ofTurn_ne_connect : {t : Mailbox.Turn} → ∀ ip, ofTurn t ≠ .connect ip
  | .doOpen | .wait | .exit => nofun

namespace State

variable {s s' : State} {a : Act}

theorem holds_step (hi : s.handler.Holds s.cast.serverFd) (h : LightningCastClient.step s a = some s') :
    s'.handler.Holds s'.cast.serverFd := by
  cases a <;> simp only [LightningCastClient.step, Option.ite_none_right_eq_some, Option.some.injEq] at h <;>
    obtain ⟨hg, rfl⟩ := h
  case handle | resume =>
    rw [hg.left] at hi
    exact HandlerPc.holds_ofTurn.mpr hi
  case doRead wake msg => cases msg <;> simpa [hg, HandlerPc.Holds] using hi
  case socket ok | resolve ok | connect ok ip => cases ok <;> simp_all [fail, HandlerPc.Holds]
  case loop | checkWake | timeout => split <;> simpa [hg, HandlerPc.Holds] using hi
  all_goals simp_all [HandlerPc.Holds, openCmd, close, exit, lockFinishCmd, setIsOpen]

-- What the flag, the peer and the running `Open` have to do with each other.
structure Truthful (s : State) : Prop where
  connect : ∀ ip, s.handler = .connect ip → ip = s.cast.serverIP
  flag    : s.handler = .flag → s.cast.serverFd = .conn s.cast.serverIP ∧ s.cast.serverIP ∈ s.peers
  isOpen  : s.cast.isOpen → s.handler.Connected ∧ s.cast.serverFd = .conn s.cast.serverIP
  wait    : s.call .server = some .wait → s.cast.serverIP = s.ip ∧ (s.cast.isOpen → s.ip ∈ s.peers)
  opened  : ∀ o ∈ s.opened, o.result → o.ip ∈ o.peers

theorem Truthful.init : machine.init.Truthful := by
  constructor <;> simp [machine]

-- While the handler serves an `OPEN`, the server thread waits in `Open`.
theorem serving_waits (hr : machine.Reachable s) (hp : s.handler.phase = .serving) :
    s.call .server = some .wait := by
  have ⟨_, ho⟩ := (handoff_inv hr).serving hp
  simp only [handoff, Handoff.view] at ho
  unfold Call.opener at ho
  split at ho <;> simp_all

-- A caller moves on, the handler and its connection stay.
theorem Truthful.caller (i : s.Truthful) {t : Thread} {c : Option Call} (hc : c ≠ some .wait)
    (hcall : s'.call = Function.update s.call t c) (ho : s'.cast.isOpen → s.cast.isOpen)
    (hh : s'.handler = s.handler) (hip : s'.cast.serverIP = s.cast.serverIP)
    (hfd : s'.cast.serverFd = s.cast.serverFd) (hi : s'.ip = s.ip) (hp : s'.peers = s.peers)
    (hop : s'.opened = s.opened) : s'.Truthful where
  connect := by rw [hh, hip]; exact i.connect
  flag    := by rw [hh, hip, hfd, hp]; exact i.flag
  isOpen  := by rw [hh, hip, hfd]; exact fun h => i.isOpen (ho h)
  opened  := by rw [hop]; exact i.opened
  wait hw := by
    rw [hcall, Function.update_apply] at hw
    split at hw
    · exact absurd hw hc
    · rw [hip, hi, hp]; exact (i.wait hw).imp_right (· ∘ ho)

-- The handler moves on. It stays in the connected part, or the flag is down.
theorem Truthful.handler (i : s.Truthful) (hf : s'.handler ≠ .flag) (hn : ∀ ip, s'.handler ≠ .connect ip)
    (ho : s'.cast.isOpen → s.cast.isOpen)
    (hc : s'.cast.isOpen → s'.handler.Connected ∧ s'.cast.serverFd = s.cast.serverFd)
    (hip : s'.cast.serverIP = s.cast.serverIP) (hcall : s'.call = s.call) (hi : s'.ip = s.ip)
    (hp : s'.peers = s.peers) (hop : s'.opened = s.opened) : s'.Truthful where
  connect ip h := absurd h (hn ip)
  flag h       := absurd h hf
  isOpen h     := ⟨(hc h).left, by rw [(hc h).right, hip]; exact (i.isOpen (ho h)).right⟩
  wait         := by rw [hcall, hip, hi, hp]; exact fun hw => (i.wait hw).imp_right (· ∘ ho)
  opened       := by rw [hop]; exact i.opened

theorem Truthful.not_isOpen (i : s.Truthful) (h : ¬s.handler.Connected) : ¬s.cast.isOpen :=
  fun ho => h (i.isOpen ho).left

-- `connectServer` does not begin or end a call, so the server thread finds no place of it to disturb.
theorem Truthful.not_serving (hr : machine.Reachable s) (h : s.call .server ≠ some .wait) :
    s.handler ≠ .flag ∧ ∀ ip, s.handler ≠ .connect ip := by
  have hw := mt (serving_waits hr) h
  constructor
  · intro hh
    exact hw (by rw [hh]; rfl)
  · intro ip hh
    exact hw (by rw [hh]; rfl)

theorem Truthful.fail (i : s.Truthful) (ho : ¬s.cast.isOpen) : s.fail.Truthful :=
  i.handler (by simp [State.fail]) (by simp [State.fail]) id (absurd · ho) rfl rfl rfl rfl rfl

theorem Truthful.step (i : s.Truthful) (hr : machine.Reachable s)
    (h : LightningCastClient.step s a = some s') :
    s'.Truthful := by
  cases a <;> simp only [LightningCastClient.step, Option.ite_none_right_eq_some, Option.some.injEq] at h <;>
    obtain ⟨hg, rfl⟩ := h
  -- the callers
  case getIsOpen t => exact i.caller (by split <;> simp) rfl id rfl rfl rfl rfl rfl rfl
  case doStop t | stopped t | close t w => exact i.caller (by simp) rfl id rfl rfl rfl rfl rfl rfl
  case closed t        => exact i.caller (by simp) rfl (by simp [setIsOpen]) rfl rfl rfl rfl rfl rfl
  case exitCall | exit => exact i.caller (by simp) rfl id rfl rfl rfl rfl rfl rfl
  case rewait | spurious | snapcastExit | serverExit | serverReturn =>
    exact ⟨i.connect, i.flag, i.isOpen, i.wait, i.opened⟩
  case openCall ip =>
    obtain ⟨hf, hn⟩ := not_serving hr (by simp [hg])
    exact ⟨fun ip hh => absurd hh (hn ip), fun hh => absurd hh hf, i.isOpen, by simp, i.opened⟩
  case openCmd w =>
    obtain ⟨hf, hn⟩ := not_serving hr (by simp [hg])
    refine ⟨fun ip hh => absurd hh (hn ip), fun hh => absurd hh hf, ?_, ?_, i.opened⟩ <;> simp [openCmd]
  case opened =>
    refine ⟨i.connect, i.flag, i.isOpen, by simp, ?_⟩
    simp only [List.forall_mem_append, List.forall_mem_singleton]
    exact ⟨i.opened, (i.wait hg.left.left).right⟩
  -- the handler in `connectServer`
  case resolve ok =>
    have ho := i.not_isOpen (by simp [hg, HandlerPc.Connected])
    cases ok
    case false => exact i.fail ho
    case true  =>
      refine ⟨?_, by simp, (absurd · ho), i.wait, i.opened⟩
      rintro ip ⟨⟩
      rfl
  case connect ok ip =>
    have ho := i.not_isOpen (by simp [hg, HandlerPc.Connected])
    cases ok
    case false => exact i.fail ho
    case true  =>
      cases i.connect ip hg
      refine ⟨by simp, fun _ => ⟨rfl, by simp⟩, (absurd · ho), fun hw => ?_, i.opened⟩
      exact (i.wait hw).imp_right fun _ h => absurd h ho
  case flag =>
    obtain ⟨hfd, hp⟩ := i.flag hg
    refine ⟨by simp, by simp, fun _ => ⟨trivial, hfd⟩, fun hw => ?_, i.opened⟩
    obtain ⟨hip, _⟩ := i.wait hw
    exact ⟨hip, fun _ => hip ▸ hp⟩
  case socket ok =>
    have ho := i.not_isOpen (by simp [hg, HandlerPc.Connected])
    cases ok
    case false => exact i.fail ho
    case true  => exact i.handler (by simp) (by simp) id (absurd · ho) rfl rfl rfl rfl rfl
  -- the handler outside the connected part
  case handle | resume =>
    have ho := i.not_isOpen (by simp [hg, HandlerPc.Connected])
    exact i.handler HandlerPc.ofTurn_ne_flag HandlerPc.ofTurn_ne_connect id (absurd · ho) rfl rfl rfl rfl rfl
  case failFinish | sessionStop | sessionStopped | teardown =>
    have ho := i.not_isOpen (by simp [hg, HandlerPc.Connected])
    exact i.handler (by simp) (by simp) id (absurd · ho) rfl rfl rfl rfl rfl
  case failFlag | unflag =>
    exact i.handler (by simp) (by simp) (by simp [setIsOpen]) (by simp [setIsOpen]) rfl rfl rfl rfl rfl
  -- the handler in the connected part
  case loop | checkWake | timeout =>
    split <;> exact i.handler (by simp) (by simp) id (fun _ => ⟨trivial, rfl⟩) rfl rfl rfl rfl rfl
  case doRead wake msg =>
    cases msg <;> exact i.handler (by simp) (by simp) id (fun _ => ⟨trivial, rfl⟩) rfl rfl rfl rfl rfl
  all_goals exact i.handler (by simp) (by simp) id (fun _ => ⟨trivial, rfl⟩) rfl rfl rfl rfl rfl

end State

theorem truthful {s : State} (h : machine.Reachable s) : s.Truthful := by
  have ⟨as, he⟩ := h
  exact Machine.Meets.trivial.invariant he .init fun hr i _ h => i.step hr h

theorem holds {s : State} (h : machine.Reachable s) : s.handler.Holds s.cast.serverFd :=
  h.invariant (P := fun s => s.handler.Holds s.cast.serverFd) rfl State.holds_step

theorem serverFd_eq_none {s : State} (h : machine.Reachable s) (hp : s.handler.phase = .outside) :
    s.cast.serverFd = .none := by
  have hf := holds h
  cases hs : s.handler <;> simp only [hs, HandlerPc.phase, reduceCtorEq] at hp hf <;> exact hf

-- While the flag is up, the handler is in the connected part with a connection to `serverIP`. Outside
-- `do_open` the flag is down and there is no descriptor, nor is there one for `socket` to replace. And an
-- `Open` which has returned true has seen a connection to its own address.
theorem session_flag {s : State} (h : machine.Reachable s) :
    (s.cast.isOpen → s.handler.Connected ∧ s.cast.serverFd = .conn s.cast.serverIP) ∧
    (s.handler.phase = .outside → ¬s.cast.isOpen ∧ s.cast.serverFd = .none) ∧
    (s.handler = .socket → s.cast.serverFd = .none) ∧
    (∀ o ∈ s.opened, o.result → o.ip ∈ o.peers) := by
  have i := truthful h
  refine ⟨i.isOpen, fun hp => ⟨i.not_isOpen ?_, serverFd_eq_none h hp⟩, fun hs => ?_, i.opened⟩
  · cases hs : s.handler <;> simp [hs, HandlerPc.phase, HandlerPc.Connected] at hp ⊢
  · have hf := holds h
    rwa [hs] at hf

-- A session to `ip` is opened.
def session (ip : Bytes) : List Act :=
  [.handle none, .openCall ip, .getIsOpen .server, .openCmd (some .client), .resume none, .socket true,
   .resolve true, .connect true ip, .flag, .finish (some .server), .opened]

theorem session_flag_session : ∃ s, machine.exec machine.init (session [49]) = some s ∧ s.cast.isOpen ∧
    s.handler.Connected ∧ s.cast.serverFd = .conn s.cast.serverIP := by
  have ⟨s, he, hs⟩ := machine.exec_of_any (session [49]) (fun s => s.cast.isOpen) (by decide)
  exact ⟨s, he, hs, (session_flag ⟨_, he⟩).left hs⟩

end LightningCastClient
