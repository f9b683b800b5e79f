import LightningCast.LightningCastClient.Remote

open Json (Value)

namespace LightningCastClient.Remote

-- What is sent is in range, and no sum has overflowed.
structure State.InRange (s : State) : Prop where
  volume   : ∀ v, .value .NOTIFY_VOLUME v ∈ s.sent → 0 ≤ v.toInt ∧ v.toInt ≤ 100
  seek     : ∀ p, .value .NOTIFY_SEEK p ∈ s.sent → 0 ≤ p.toInt
  overflow : ¬s.overflow

-- The volume and the position are such that a key makes something sensible of them.
structure SaneKey (s : State) (ch : Char) : Prop where
  louder   : ch = 'r' → s.session.currentVolume.toInt ≤ Value.maxInt - 5 ∧
    (s.connected → -5 ≤ s.session.currentVolume.toInt)
  softer   : ch = 'e' → Value.minInt + 5 ≤ s.session.currentVolume.toInt ∧
    (s.connected → s.session.currentVolume.toInt ≤ 105)
  forward  : ch = 'u' → s.session.position.toInt ≤ Value.maxInt - 5 ∧
    (s.connected → -5 ≤ s.session.position.toInt)
  backward : ch = 'y' → Value.minInt + 5 ≤ s.session.position.toInt ∧
    (s.connected → 5 ≤ s.session.position.toInt)

def Sane (s : State) : Act → Prop
  | .start                 => 0 ≤ s.session.currentVolume.toInt ∧ s.session.currentVolume.toInt ≤ 100
  | .key ch                => SaneKey s ch
  | .message .. | .close   => True

theorem saneKey_iff {s : State} {ch : Char} : SaneKey s ch ↔
    (ch = 'r' → s.session.currentVolume.toInt ≤ Value.maxInt - 5 ∧
      (s.connected → -5 ≤ s.session.currentVolume.toInt)) ∧
    (ch = 'e' → Value.minInt + 5 ≤ s.session.currentVolume.toInt ∧
      (s.connected → s.session.currentVolume.toInt ≤ 105)) ∧
    (ch = 'u' → s.session.position.toInt ≤ Value.maxInt - 5 ∧
      (s.connected → -5 ≤ s.session.position.toInt)) ∧
    (ch = 'y' → Value.minInt + 5 ≤ s.session.position.toInt ∧
      (s.connected → 5 ≤ s.session.position.toInt)) :=
  ⟨fun ⟨r, e, u, y⟩ => ⟨r, e, u, y⟩, fun ⟨r, e, u, y⟩ => ⟨r, e, u, y⟩⟩

instance (s : State) (ch : Char) : Decidable (SaneKey s ch) :=
  decidable_of_iff' _ saneKey_iff

instance (s : State) : (a : Act) → Decidable (Sane s a)
  | .start               => inferInstanceAs (Decidable (_ ∧ _))
  | .key ch              => inferInstanceAs (Decidable (SaneKey s ch))
  | .message .. | .close => inferInstanceAs (Decidable True)

-- The values which may be sent with a command.
def Allowed (cmd : LightningCastCommCmd) (value : Int32) : Prop :=
  (cmd = .NOTIFY_VOLUME → 0 ≤ value.toInt ∧ value.toInt ≤ 100) ∧ (cmd = .NOTIFY_SEEK → 0 ≤ value.toInt)

variable {s s' : State} {a : Act}

theorem inRange_congr (hs : s'.sent = s.sent) (ho : s'.overflow = s.overflow) : s'.InRange ↔ s.InRange :=
  ⟨fun ⟨h₁, h₂, h₃⟩ => ⟨hs ▸ h₁, hs ▸ h₂, ho ▸ h₃⟩, fun ⟨h₁, h₂, h₃⟩ => ⟨hs ▸ h₁, hs ▸ h₂, ho ▸ h₃⟩⟩

theorem inRange_sendRemoteCommand {cmd : LightningCastCommCmd} {value : Int32} :
    (s.sendRemoteCommand cmd value).InRange ↔ s.InRange ∧ (s.connected → Allowed cmd value) := by
  unfold State.sendRemoteCommand
  split
  case isFalse hc => simp [hc]
  case isTrue hc =>
    simp only [hc, forall_const]
    constructor
    case mp =>
      intro h
      refine ⟨⟨fun v hv => h.volume v ?_, fun p hp => h.seek p ?_, h.overflow⟩, ?_, ?_⟩
      · exact List.mem_append_left _ hv
      · exact List.mem_append_left _ hp
      · rintro rfl
        exact h.volume value (List.mem_append_right _ (by simp [remoteCommand]))
      · rintro rfl
        exact h.seek value (List.mem_append_right _ (by simp [remoteCommand]))
    case mpr =>
      intro ⟨h, hv, hp⟩
      refine ⟨fun v hm => ?_, fun p hm => ?_, h.overflow⟩ <;>
        simp only [List.mem_append, List.mem_singleton, remoteCommand] at hm
      · rcases hm with hm | hm
        · exact h.volume v hm
        · grind
      · rcases hm with hm | hm
        · exact h.seek p hm
        · grind

theorem inRange_withSum {n : Int} {f : Int32 → State} : (s.withSum n f).InRange ↔
    (Value.minInt ≤ n ∧ n ≤ Value.maxInt) ∧ (f (.ofInt n)).InRange := by
  unfold State.withSum intOfInt
  split
  case isTrue h  => simp [h]
  case isFalse h => exact iff_of_false (fun hr => hr.overflow rfl) (fun hr => h hr.left)

-- The bounds which `main` sets.
theorem toInt_louder (v : Int32) : (if v < 100 then v else 100).toInt = min v.toInt 100 := by
  have hc : (100 : Int32).toInt = 100 := by decide
  split
  case isTrue h  => have := Int32.lt_iff_toInt_lt.mp h; omega
  case isFalse h => have := mt Int32.lt_iff_toInt_lt.mpr h; omega

theorem toInt_softer (v : Int32) : (if v > 0 then v else 0).toInt = max v.toInt 0 := by
  have hc : (0 : Int32).toInt = 0 := by decide
  split
  case isTrue h  => have := Int32.lt_iff_toInt_lt.mp h; omega
  case isFalse h => have := mt Int32.lt_iff_toInt_lt.mpr h; omega

theorem inRange_withSum_volume {n : Int} {f : Int32 → Int32} {g : Int → Int}
    (hf : ∀ v, (f v).toInt = g v.toInt) :
    (s.withSum n fun v => s.sendRemoteCommand .NOTIFY_VOLUME (f v)).InRange ↔
      (Value.minInt ≤ n ∧ n ≤ Value.maxInt) ∧ s.InRange ∧ (s.connected → 0 ≤ g n ∧ g n ≤ 100) := by
  simp only [inRange_withSum, inRange_sendRemoteCommand]
  refine and_congr_right fun ⟨hl, hu⟩ => ?_
  simp [Allowed, hf, Int32.toInt_ofInt_of_le hl (Int.lt_of_le_sub_one hu)]

theorem inRange_withSum_seek {n : Int} :
    (s.withSum n fun p => s.sendRemoteCommand .NOTIFY_SEEK p).InRange ↔
      (Value.minInt ≤ n ∧ n ≤ Value.maxInt) ∧ s.InRange ∧ (s.connected → 0 ≤ n) := by
  simp only [inRange_withSum, inRange_sendRemoteCommand]
  refine and_congr_right fun ⟨hl, hu⟩ => ?_
  simp [Allowed, Int32.toInt_ofInt_of_le hl (Int.lt_of_le_sub_one hu)]

theorem inRange_key (ch : Char) : (s.key ch).InRange ↔ s.InRange ∧ Sane s (.key ch) := by
  have hv := s.session.currentVolume.le_toInt
  have hv' := s.session.currentVolume.toInt_lt
  have hp := s.session.position.le_toInt
  have hp' := s.session.position.toInt_lt
  unfold State.key
  split
  case h_6 =>
    rw [inRange_withSum_volume (g := (min · 100)) toInt_louder]
    simp only [Sane, saneKey_iff, Value.minInt, Value.maxInt]
    grind
  case h_7 =>
    rw [inRange_withSum_volume (g := (max · 0)) toInt_softer]
    simp only [Sane, saneKey_iff, Value.minInt, Value.maxInt]
    grind
  case h_8 | h_9 =>
    rw [inRange_withSum_seek]
    simp only [Sane, saneKey_iff, Value.minInt, Value.maxInt]
    grind
  case h_10 => simp_all [Sane, saneKey_iff]
  all_goals simp [inRange_sendRemoteCommand, Allowed, Sane, saneKey_iff]

theorem inRange_start : s.start.InRange ↔ s.InRange ∧ Sane s .start := by
  have hc : ({ s with connected := true } : State).InRange ↔ s.InRange := inRange_congr rfl rfl
  simp [State.start, inRange_sendRemoteCommand, hc, Allowed, Sane]

-- What one step sends is in range if and only if it finds sane values.
theorem inRange_step (h : step s a = some s') : s'.InRange ↔ s.InRange ∧ Sane s a := by
  cases a <;> simp only [step] at h
  case start =>
    split at h <;> cases h
    exact inRange_start
  case message env payload =>
    split at h
    case isFalse => cases h
    case isTrue =>
      split at h <;> cases h <;>
        exact .trans (inRange_congr (by rfl) (by rfl)) (and_iff_left trivial).symm
  case close =>
    cases h
    exact .trans (inRange_congr (by rfl) (by rfl)) (and_iff_left trivial).symm
  case key ch =>
    cases h
    exact inRange_key ch

-- In every run, what is sent is in range and no sum overflows if and only if every key and every session
-- finds the volume and the position within its own bounds.
theorem in_range_iff {as : List Act} (he : machine.exec machine.init as = some s) :
    s.InRange ↔ machine.Meets Sane as := by
  induction as using List.reverseRecOn generalizing s
  case nil =>
    cases he
    exact iff_of_true ⟨by simp [machine], by simp [machine], by simp [machine]⟩ .nil
  case append_singleton as a hi =>
    have ⟨s₁, he, h⟩ := Machine.exec_concat_some.mp he
    rw [inRange_step h, hi he, Machine.Meets.concat_iff he]

-- A jsoncpp which reads every text as the volume 30.
def volumeEnv : Env where
  parse _          := .ok (some (.object [(ascii "Cmd", .int 11), (ascii "SET_VOLUME", .int 30)]))
  doubleToString _ := []
  now              := {}
  started          := true

-- The tablet sets the volume, and the keys turn it up and down.
theorem upAndDown_inRange : ∃ s, machine.exec machine.init
      [.start, .message volumeEnv [], .key 'r', .key 'e', .key 'u', .close, .start] = some s ∧
    .value .NOTIFY_VOLUME 35 ∈ s.sent ∧ .value .NOTIFY_VOLUME 25 ∈ s.sent ∧ s.InRange := by
  have ⟨s, he, hs⟩ := machine.exec_of_any
    [.start, .message volumeEnv [], .key 'r', .key 'e', .key 'u', .close, .start]
    (fun s => .value .NOTIFY_VOLUME 35 ∈ s.sent ∧ .value .NOTIFY_VOLUME 25 ∈ s.sent) (by decide)
  have ⟨hr, hl⟩ := of_decide_eq_true hs
  exact ⟨s, he, hr, hl, (in_range_iff he).mpr (by decide)⟩

-- A session begins, and the first key rewinds.
theorem rewind_negative : ∃ s, machine.exec machine.init [.start, .key 'y'] = some s ∧
    .value .NOTIFY_SEEK (-5) ∈ s.sent ∧ ¬s.InRange := by
  have ⟨s, he, hs⟩ := machine.exec_of_any [.start, .key 'y'] (.value .NOTIFY_SEEK (-5) ∈ ·.sent) (by decide)
  have hs := of_decide_eq_true hs
  exact ⟨s, he, hs, fun h => absurd (h.seek _ hs) (by decide)⟩

end LightningCastClient.Remote
