import LightningCast.ServerFd.Basic

namespace ServerFd

-- What a handler at its place has made of `server_fd`.
def HandlerPc.Has : HandlerPc → Fd → Prop
  | .outside, fd                => fd = .none
  | .resolve, fd | .connect, fd => fd = .made
  | .nonBlocking, fd            => fd = .connected
  | .close, fd                  => fd = .made ∨ fd = .connected
  | .reset, fd                  => fd = .closed
  | .session, fd                => fd = .connected

-- A call which holds `server_mutex` and finds a descriptor finds a connected one.
def State.Sound (s : State) : Prop :=
  s.current ≠ none → s.fd ≠ .none → s.fd = .connected

instance (s : State) : Decidable s.Sound :=
  inferInstanceAs (Decidable (_ → _ → _))

def WritesConnected (s : State) : Act → Prop
  | .write _ => s.fd = .connected
  | _        => True

-- No other thread takes `server_mutex` while `server_fd` is neither -1 nor connected, and none holds it when
-- `connectServer` makes the descriptor or closes it.
def Careful (c : Class) (s : State) : Act → Prop
  | .lock t           => t = c.handler ∨ s.fd = .none ∨ s.fd = .connected
  | .connectServer ok => ∀ r ∈ c.connectServer s.handler ok, r.2 = .socket ∨ r.2 = .close → s.current = none
  | _                 => True

instance (c : Class) (s : State) : (a : Act) → Decidable (Careful c s a)
  | .lock _          => inferInstanceAs (Decidable (_ ∨ _))
  | .connectServer _ => inferInstanceAs (Decidable (∀ _ ∈ _, _))
  | .teardown | .call _ | .test | .write _ => inferInstanceAs (Decidable True)

-- The handler calls `processSend` in a session only.
structure State.Inv (c : Class) (s : State) : Prop where
  has     : s.handler.Has s.fd
  waiting : c.handler ∈ s.waiting → s.handler = .session
  current : ∀ cur ∈ s.current, cur.thread = c.handler → s.handler = .session

variable {c : Class} {s s' : State} {a : Act} {pc pc' : HandlerPc} {e : Effect} {ok : Bool}

theorem connectServer_has {fd : Fd} (h : c.connectServer pc ok = some (pc', e)) (hf : pc.Has fd) :
    pc'.Has (fd.apply e) := by
  cases c <;> cases pc <;> cases ok <;>
    simp only [Class.connectServer, LightningCastClient.connectServer, SnapcastComm.connectServer,
      reduceCtorEq, Option.some.injEq, Prod.mk.injEq] at h <;>
    obtain ⟨rfl, rfl⟩ := h <;> simp_all [HandlerPc.Has, Fd.apply]

theorem has_reset {fd : Fd} (h : c.connectServer pc ok = some (pc', .reset)) (hf : pc.Has fd) :
    fd ≠ .connected := by
  cases c <;> cases pc <;> cases ok <;>
    simp_all [Class.connectServer, LightningCastClient.connectServer, SnapcastComm.connectServer,
      HandlerPc.Has]

theorem connectServer_session : c.connectServer .session ok = none := by
  cases c <;> cases ok <;> rfl

theorem step_connectServer (h : step c s (.connectServer ok) = some s') :
    ∃ pc e, c.connectServer s.handler ok = some (pc, e) ∧ s' = { s with handler := pc, fd := s.fd.apply e } := by
  simp only [step, Option.map_eq_some_iff] at h
  obtain ⟨⟨pc, e⟩, hc, rfl⟩ := h
  exact ⟨pc, e, hc, rfl⟩

theorem step_teardown (h : step c s .teardown = some s') :
    s.current = none ∧ c.handler ∉ s.waiting ∧ s' = { s with handler := .outside, fd := .none } := by
  simp only [step, Option.ite_none_right_eq_some, Option.some.injEq] at h
  obtain ⟨⟨_, hw, hc⟩, rfl⟩ := h
  exact ⟨hc, hw, rfl⟩

theorem step_call {t : Thread} (h : step c s (.call t) = some s') :
    s.CanCall c t ∧ s' = { s with waiting := insert t s.waiting } := by
  simp only [step, Option.ite_none_right_eq_some, Option.some.injEq] at h
  exact ⟨h.left, h.right.symm⟩

theorem step_lock {t : Thread} (h : step c s (.lock t) = some s') : t ∈ s.waiting ∧ s.current = none ∧
    s' = { s with waiting := s.waiting.erase t, current := some { thread := t, writing := false } } := by
  simp only [step, Option.ite_none_right_eq_some, Option.some.injEq] at h
  obtain ⟨⟨hw, hc⟩, rfl⟩ := h
  exact ⟨hw, hc, rfl⟩

theorem step_test (h : step c s .test = some s') : ∃ t, s.current = some { thread := t, writing := false } ∧
    s' = { s with current := if s.fd = .none then none else some { thread := t, writing := true } } := by
  simp only [step] at h
  split at h <;> cases h
  case h_1 t ht => exact ⟨t, ht, rfl⟩

theorem step_write {last : Bool} (h : step c s (.write last) = some s') :
    ∃ t, s.current = some { thread := t, writing := true } ∧
      s' = { s with current := if last then none else s.current } := by
  simp only [step] at h
  split at h <;> cases h
  case h_1 t ht => exact ⟨t, ht, by rw [ht]⟩

theorem State.Inv.step (i : s.Inv c) (h : ServerFd.step c s a = some s') : s'.Inv c := by
  obtain ⟨has, waiting, current⟩ := i
  cases a
  case connectServer ok =>
    obtain ⟨pc, e, hc, rfl⟩ := step_connectServer h
    -- The handler is not in a session, so none of the calls is its own.
    have hs : s.handler ≠ .session := fun hs => by simp [hs, connectServer_session] at hc
    exact ⟨connectServer_has hc has, fun hw => absurd (waiting hw) hs, fun cur hm ht =>
      absurd (current cur hm ht) hs⟩
  case teardown =>
    obtain ⟨hc, hw, rfl⟩ := step_teardown h
    exact ⟨rfl, fun hm => absurd hm hw, fun cur hm => by simp [hc] at hm⟩
  case call t =>
    obtain ⟨⟨_, _, _, ht⟩, rfl⟩ := step_call h
    refine ⟨has, fun hm => ?_, current⟩
    rcases Finset.mem_insert.mp hm with rfl | hm
    · exact ht rfl
    · exact waiting hm
  case lock t =>
    obtain ⟨hw, _, rfl⟩ := step_lock h
    refine ⟨has, fun hm => waiting (Finset.mem_of_mem_erase hm), fun cur hm ht => ?_⟩
    cases hm
    exact waiting (ht ▸ hw)
  case test =>
    obtain ⟨t, hc, rfl⟩ := step_test h
    refine ⟨has, waiting, fun cur hm ht => ?_⟩
    simp only [Option.mem_def] at hm
    split at hm <;> cases hm
    exact current _ hc ht
  case write last =>
    obtain ⟨t, hc, rfl⟩ := step_write h
    refine ⟨has, waiting, fun cur hm => current cur ?_⟩
    simp only [Option.mem_def] at hm
    split at hm
    · cases hm
    · exact hm

theorem inv (h : (machine c).Reachable s) : s.Inv c :=
  h.invariant ⟨rfl, by simp [machine], by simp [machine]⟩ fun i hs => i.step hs

-- The calls are sound, and the one which writes has a connected descriptor.
structure State.Guarded (s : State) : Prop where
  sound   : s.Sound
  writing : ∀ cur ∈ s.current, cur.writing → s.fd = .connected

theorem State.Guarded.step (i : s.Inv c) (g : s.Guarded) (hc : Careful c s a)
    (h : ServerFd.step c s a = some s') : s'.Guarded := by
  obtain ⟨sound, writing⟩ := g
  cases a
  case connectServer ok =>
    obtain ⟨pc, e, he, rfl⟩ := step_connectServer h
    by_cases hn : s.current = none
    case pos => exact ⟨absurd hn, fun cur hm => by simp [hn] at hm⟩
    case neg =>
      have hne : e ≠ .socket ∧ e ≠ .close := not_or.mp fun h => hn (hc (pc, e) he h)
      cases e
      case keep    => exact ⟨sound, writing⟩
      case connect => exact ⟨fun _ _ => rfl, fun _ _ _ => rfl⟩
      case socket  => exact absurd rfl hne.left
      case close   => exact absurd rfl hne.right
      case reset   =>
        have hfd : s.fd ≠ .connected := has_reset he i.has
        exact ⟨fun _ h => absurd rfl h, fun cur hm hw => absurd (writing cur hm hw) hfd⟩
  case teardown =>
    obtain ⟨hn, _, rfl⟩ := step_teardown h
    exact ⟨absurd hn, fun cur hm => by simp [hn] at hm⟩
  case call t =>
    obtain ⟨_, rfl⟩ := step_call h
    exact ⟨sound, writing⟩
  case lock t =>
    obtain ⟨hw, _, rfl⟩ := step_lock h
    refine ⟨fun _ hfd => ?_, fun cur hm hwr => ?_⟩
    · rcases hc with rfl | hc | hc
      · have := i.has
        rwa [i.waiting hw] at this
      · exact absurd hc hfd
      · exact hc
    · cases hm
      cases hwr
  case test =>
    obtain ⟨t, hcur, rfl⟩ := step_test h
    have hs : s.fd ≠ .none → s.fd = .connected := sound (by simp [hcur])
    exact ⟨fun _ => hs, fun cur hm _ => by
      simp only [Option.mem_def, Option.ite_none_left_eq_some] at hm
      exact hs hm.left⟩
  case write last =>
    obtain ⟨t, hcur, rfl⟩ := step_write h
    have hs : s.fd = .connected := writing _ hcur rfl
    exact ⟨fun _ _ => hs, fun _ _ _ => hs⟩

-- What a sound state after a step says about the step.
theorem careful_of_sound (h : step c s a = some s') (hs : s'.Sound) : Careful c s a := by
  cases a
  case connectServer ok =>
    obtain ⟨pc, e, he, rfl⟩ := step_connectServer h
    rintro r hr (hre | hre) <;> by_contra hn <;> cases Option.some.inj (he.symm.trans hr) <;> cases hre <;>
      exact absurd (hs hn (by simp [Fd.apply])) (by simp [Fd.apply])
  case lock t =>
    obtain ⟨_, _, rfl⟩ := step_lock h
    by_cases hfd : s.fd = .none
    case pos => exact .inr <| .inl hfd
    case neg => exact .inr <| .inr (hs (by simp) hfd)
  all_goals trivial

-- In either class, the calls of `processSend` see and write to nothing but connected sockets, in a whole
-- run, if and only if `connectServer` and the other threads keep out of each other's way. The handler's
-- own calls, and the end of a session, always do.
theorem writes_connected_iff (c : Class) {as : List Act} {s : State}
    (he : (machine c).exec (machine c).init as = some s) :
    ((machine c).Always State.Sound as ∧ (machine c).Meets WritesConnected as) ↔
      (machine c).Meets (Careful c) as := by
  constructor
  case mp =>
    rintro ⟨hs, _⟩ bs a s₁ hp h₁
    obtain ⟨s', h, hs'⟩ := hs.next he bs a s₁ hp h₁
    exact careful_of_sound h hs'
  case mpr =>
    intro hc
    have hg : (machine c).Always State.Guarded as := by
      refine hc.always ⟨by simp [State.Sound, machine], by simp [machine]⟩ ?_
      exact fun hr hg hc h => hg.step (inv hr) hc h
    refine ⟨fun bs s hp h => (hg bs s hp h).sound, fun bs a s₁ hp h₁ => ?_⟩
    obtain ⟨s', h⟩ := Machine.Meets.executed he bs a s₁ hp h₁
    cases a
    case write last =>
      obtain ⟨t, hcur, _⟩ := step_write (c := c) h
      exact (hg bs s₁ ((List.prefix_append ..).trans hp) h₁).writing _ hcur rfl
    all_goals trivial

-- A key is pressed in a session, and there is none after it.
def keyInSession : List Act :=
  [.connectServer true, .connectServer true, .connectServer true, .connectServer true, .call .client,
   .call .main, .lock .client, .test, .write true, .lock .main, .test, .write false, .write true, .teardown,
   .call .main, .lock .main, .test, .connectServer true, .connectServer false, .connectServer true,
   .connectServer true]

theorem keyInSession_sound : (machine .lightningCastClient).Always State.Sound keyInSession ∧
    (machine .lightningCastClient).Meets WritesConnected keyInSession :=
  have ⟨_, he, _⟩ := (machine .lightningCastClient).exec_of_any keyInSession (fun _ => true) (by decide)
  (writes_connected_iff _ he).mpr (by decide)

-- A key is pressed while the handler connects, and a `sendStop` comes while it tries to.
theorem whileConnecting_unsound :
    (∃ s, (machine .lightningCastClient).exec (machine .lightningCastClient).init
        [.connectServer true, .call .main, .lock .main, .test] = some s ∧
      s.current = some { thread := .main, writing := true } ∧ s.fd = .made ∧ ¬s.Sound) ∧
    ∃ s, (machine .snapcastComm).exec (machine .snapcastComm).init
        [.connectServer true, .connectServer false, .call .server, .lock .server, .test] = some s ∧
      s.current = some { thread := .server, writing := true } ∧ s.fd = .made ∧ ¬s.Sound := by
  have ⟨s₁, h₁, hs₁⟩ := (machine .lightningCastClient).exec_of_any
    [.connectServer true, .call .main, .lock .main, .test]
    (fun s => s.current = some { thread := .main, writing := true } ∧ s.fd = .made ∧ ¬s.Sound) (by decide)
  have ⟨s₂, h₂, hs₂⟩ := (machine .snapcastComm).exec_of_any
    [.connectServer true, .connectServer false, .call .server, .lock .server, .test]
    (fun s => s.current = some { thread := .server, writing := true } ∧ s.fd = .made ∧ ¬s.Sound) (by decide)
  exact ⟨⟨s₁, h₁, of_decide_eq_true hs₁⟩, s₂, h₂, of_decide_eq_true hs₂⟩

end ServerFd
