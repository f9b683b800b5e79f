import LightningCast.Json.Theorems.RoundTrip

namespace Json

open Reader

namespace Value

-- The members are in the order of their names, of which none is there twice.
def Sorted (ms : List (Bytes × Value)) : Prop :=
  ms.Pairwise fun m m' => m.1 < m'.1

-- The values which the reader builds.
inductive Canonical : Value → Prop
  | null : Canonical null
  | bool {b : Bool} : Canonical (bool b)
  | int {n : Int64} : n.toInt < 2 ^ 31 → Canonical (int n)
  | uint {n : UInt64} : 2 ^ 31 ≤ n.toNat → Canonical (uint n)
  | real {d : Double} : Canonical (real d)
  | string {s : Bytes} : s.length ≤ 2 ^ 31 - 6 → Canonical (string s)
  | array {vs : List Value} : (∀ v ∈ vs, Canonical v) → Canonical (array vs)
  | object {ms : List (Bytes × Value)} : Sorted ms → (∀ m ∈ ms, m.1.length < 2 ^ 30) → (∀ m ∈ ms, Canonical m.2) →
    Canonical (object ms)

-- The values whose strings consist of characters, and whose numbers are read again as they have been written.
inductive Proper (decodeDouble : Bytes → Option Double) (doubleToString : Double → Bytes) : Value → Prop
  | null : Proper decodeDouble doubleToString null
  | bool {b : Bool} : Proper decodeDouble doubleToString (bool b)
  | int {n : Int64} : Proper decodeDouble doubleToString (int n)
  | uint {n : UInt64} : Proper decodeDouble doubleToString (uint n)
  | real {d : Double} : Number decodeDouble (doubleToString d) (real d) → Proper decodeDouble doubleToString (real d)
  | string {s : Bytes} : reread s = s → Proper decodeDouble doubleToString (string s)
  | array {vs : List Value} : (∀ v ∈ vs, Proper decodeDouble doubleToString v) →
    Proper decodeDouble doubleToString (array vs)
  | object {ms : List (Bytes × Value)} : (∀ m ∈ ms, reread m.1 = m.1) →
    (∀ m ∈ ms, Proper decodeDouble doubleToString m.2) → Proper decodeDouble doubleToString (object ms)

section

variable {decodeDouble : Bytes → Option Double} {doubleToString : Double → Bytes} {name : Bytes} {v : Value}
  {ms : List (Bytes × Value)}

theorem setMember_last (h : ∀ m ∈ ms, m.1 < name) : setMember name v ms = ms ++ [(name, v)] := by
  induction ms
  case nil => rfl
  case cons m ms hi =>
    obtain ⟨hm, hms⟩ := List.forall_mem_cons.mp h
    have hne : name ≠ m.1 := by
      rintro rfl
      exact List.lt_irrefl _ hm
    rw [setMember, if_neg hne, if_neg (List.lt_asymm hm), hi hms]
    rfl

-- Members which come in the order of their names are stored in this order.
theorem ofMembers_sorted (hs : Sorted ms) : ofMembers ms = object ms := by
  have hf (ms ms' : List (Bytes × Value)) (hs : Sorted (ms' ++ ms)) :
      ms.foldl (fun ms m => setMember m.1 m.2 ms) ms' = ms' ++ ms := by
    induction ms generalizing ms'
    case nil => exact (List.append_nil _).symm
    case cons m ms hi =>
      have hl : ∀ m' ∈ ms', m'.1 < m.1 :=
        fun m' hm => (List.pairwise_append.mp hs).right.right m' hm m (List.mem_cons_self ..)
      rw [List.foldl_cons, setMember_last hl, hi _ (by simpa using hs), List.append_assoc]
      rfl
  rw [ofMembers, hf ms [] hs]
  rfl

theorem mem_setMember {m : Bytes × Value} (hm : m ∈ setMember name v ms) : m = (name, v) ∨ m ∈ ms := by
  induction ms
  case nil => exact .inl (List.mem_singleton.mp hm)
  case cons m' ms hi =>
    rw [setMember] at hm
    split at hm
    case isTrue => exact (List.mem_cons.mp hm).imp_right (List.mem_cons_of_mem _)
    case isFalse =>
      split at hm
      case isTrue  => exact List.mem_cons.mp hm
      case isFalse =>
        rcases List.mem_cons.mp hm with rfl | hm
        · exact .inr (List.mem_cons_self ..)
        · exact (hi hm).imp_right (List.mem_cons_of_mem _)

theorem sorted_setMember (hs : Sorted ms) : Sorted (setMember name v ms) := by
  induction ms
  case nil => exact List.pairwise_singleton ..
  case cons m ms hi =>
    obtain ⟨hm, hs⟩ := List.pairwise_cons.mp hs
    rw [setMember]
    split
    case isTrue h =>
      subst h
      exact List.pairwise_cons.mpr ⟨hm, hs⟩
    case isFalse hne =>
      split
      case isTrue hlt =>
        refine List.pairwise_cons.mpr ⟨fun m' hm' => ?_, List.pairwise_cons.mpr ⟨hm, hs⟩⟩
        rcases List.mem_cons.mp hm' with rfl | hm'
        · exact hlt
        · exact List.lt_trans hlt (hm m' hm')
      case isFalse hlt =>
        have hlt : m.1 < name := Std.lt_of_le_of_ne hlt (Ne.symm hne)
        refine List.pairwise_cons.mpr ⟨fun m' hm' => ?_, hi hs⟩
        rcases mem_setMember hm' with rfl | hm'
        · exact hlt
        · exact hm m' hm'

theorem stored_asWritten (hv : v.Canonical) (hp : v.Proper decodeDouble doubleToString) : v.asWritten.stored = v := by
  induction hv
  case int hn   => rw [asWritten, ofInteger, if_pos hn, Int64.ofInt_toInt, stored]
  case uint n hn =>
    rw [asWritten, ofInteger, if_neg (by omega), stored]
    exact congrArg Value.uint UInt64.ofNat_toNat
  case string =>
    obtain _ | _ | _ | _ | _ | hs := hp
    rw [asWritten, stored, hs]
  case array vs _ hi =>
    obtain _ | _ | _ | _ | _ | _ | hvs := hp
    have hm : ∀ v ∈ vs, (stored ∘ asWritten) v = v := fun v hv => hi v hv (hvs v hv)
    rw [asWritten, stored, List.map_map, List.map_congr_left hm, List.map_id']
  case object ms hs _ _ hi =>
    obtain _ | _ | _ | _ | _ | _ | _ | ⟨hn, hms⟩ := hp
    have hm : ∀ m ∈ ms, (reread m.1, m.2.asWritten.stored) = m := by
      intro m hm
      rw [hn m hm, hi m hm (hms m hm)]
    rw [asWritten, stored, List.map_map]
    refine (congrArg ofMembers ((List.map_congr_left hm).trans (List.map_id ms))).trans ?_
    exact ofMembers_sorted hs
  all_goals rw [asWritten, stored]

theorem writable_of_proper (hv : v.Canonical) (hp : v.Proper decodeDouble doubleToString) :
    v.Writable decodeDouble doubleToString := by
  induction hv
  case null => exact .null
  case bool => exact .bool
  case int  => exact .int
  case uint => exact .uint
  case real =>
    obtain _ | _ | _ | _ | hd := hp
    exact .real hd
  case string hl =>
    obtain _ | _ | _ | _ | _ | hs := hp
    exact .string (by rwa [hs])
  case array hi =>
    obtain _ | _ | _ | _ | _ | _ | hvs := hp
    exact .array fun v hv => hi v hv (hvs v hv)
  case object hl _ hi =>
    obtain _ | _ | _ | _ | _ | _ | _ | ⟨hn, hms⟩ := hp
    refine .object (fun m hm => ?_) fun m hm => hi m hm (hms m hm)
    rw [hn m hm]
    exact hl m hm

end

end Value

-- All values which `reader` finds have the property `P`.
def Reader.ValueReader.Finds (reader : ValueReader) (P : Value → Prop) : Prop :=
  ∀ {current v current'}, reader.run current = .ok (some v, current') → P v

section

variable {nested : ValueReader} {P : Value → Prop} {v : Value} {vs : List Value} {ms : List (Bytes × Value)}
  {name current current' t : Bytes} {max value n : Nat} {decodeDouble : Bytes → Option Double}

theorem readElements_finds (hn : nested.Finds P) (hvs : ∀ v ∈ vs, P v)
    (h : readElements nested vs current = .ok (some v, current')) : ∃ vs, v = .array vs ∧ ∀ v ∈ vs, P v := by
  have ha {vs : List Value} {v : Value} (hvs : ∀ v ∈ vs, P v) (hv : P v) : ∀ v' ∈ vs ++ [v], P v' :=
    List.forall_mem_append.mpr ⟨hvs, List.forall_mem_singleton.mpr hv⟩
  fun_induction readElements nested vs current
  case case3 hv _ _ =>
    cases h
    exact ⟨_, rfl, ha hvs (hn hv)⟩
  case case4 hv _ _ _ hi => exact hi (ha hvs (hn hv)) h
  all_goals cases h

theorem readMembers_finds (hn : nested.Finds P) (hs : Value.Sorted ms) (hms : ∀ m ∈ ms, m.1.length < 2 ^ 30 ∧ P m.2)
    (h : readMembers nested name ms current = .ok (some v, current')) :
    ∃ ms, v = .object ms ∧ Value.Sorted ms ∧ ∀ m ∈ ms, m.1.length < 2 ^ 30 ∧ P m.2 := by
  have hc (name : Bytes) : (Value.czString name).length < 2 ^ 30 := by
    rw [Value.czString, List.length_take]
    have := Nat.mod_lt name.length (show 2 ^ 30 > 0 by decide)
    omega
  have ha {name : Bytes} {v : Value} {ms : List (Bytes × Value)} (hms : ∀ m ∈ ms, m.1.length < 2 ^ 30 ∧ P m.2)
      (hv : P v) : ∀ m ∈ Value.setMember (Value.czString name) v ms, m.1.length < 2 ^ 30 ∧ P m.2 := by
    intro m hm
    rcases Value.mem_setMember hm with rfl | hm
    · exact ⟨hc name, hv⟩
    · exact hms m hm
  fun_induction readMembers nested name ms current
  case case1 =>
    cases h
    exact ⟨_, rfl, hs, hms⟩
  case case7 hv _ _ _ =>
    cases h
    exact ⟨_, rfl, Value.sorted_setMember hs, ha hms (hn hv)⟩
  case case8 hv _ _ _ _ hi => exact hi (Value.sorted_setMember hs) (ha hms (hn hv)) h
  all_goals cases h

-- A number whose digits are an integer in range is not larger than what the loop allows.
theorem decodeDigits_le (hm : max < max / 10 * 100) (hv : value ≤ max) (h : decodeDigits max value t = some n) :
    n ≤ max := by
  have hd : ∀ d ∈ t, isDigit d := by
    intro d hd
    by_contra hn
    rw [decodeDigits_none hd hn] at h
    cases h
  rw [decodeDigits_eq hd hm hv] at h
  simp only at h
  split at h
  case isTrue hle =>
    cases h
    exact hle
  case isFalse => cases h

theorem canonical_of_decodeNumber (h : decodeNumber decodeDouble t = some v) : v.Canonical ∧ ∀ n, v.Nested (n + 1) := by
  have hr {o : Option Double} (h : .real <$> o = some v) : v.Canonical ∧ ∀ n, v.Nested (n + 1) := by
    obtain ⟨d, -, rfl⟩ := Option.map_eq_some_iff.mp h
    exact ⟨.real, fun _ => trivial⟩
  rw [decodeNumber] at h
  split at h
  case h_1 => exact hr h
  case h_2 n hn =>
    split at h
    case isTrue hneg =>
      cases h
      rw [if_pos hneg, if_pos hneg] at hn
      have hle := decodeDigits_le (by decide) (Nat.zero_le _) hn
      refine ⟨.int ?_, fun _ => trivial⟩
      rw [Int64.toInt_ofInt_of_le (by omega) (by omega)]
      omega
    case isFalse hneg =>
      rw [if_neg hneg, if_neg hneg] at hn
      have hle := decodeDigits_le (by decide) (Nat.zero_le _) hn
      split at h
      case isTrue hlt =>
        cases h
        refine ⟨.int ?_, fun _ => trivial⟩
        rw [Int64.toInt_ofInt_of_le (by omega) (by omega)]
        omega
      case isFalse hlt =>
        cases h
        refine ⟨.uint ?_, fun _ => trivial⟩
        rw [UInt64.toNat_ofNat', Nat.mod_eq_of_lt (by omega)]
        omega

theorem canonical_of_ofString {s : Bytes} (h : Value.ofString s = .ok v) : v.Canonical ∧ ∀ n, v.Nested (n + 1) := by
  rw [Value.ofString] at h
  split at h
  case isTrue hl =>
    cases h
    refine ⟨.string ?_, fun _ => trivial⟩
    rw [List.length_take]
    omega
  case isFalse => cases h

theorem readToValue_finds (hn : nested.Finds fun v => v.Canonical ∧ v.Nested n)
    (h : readToValue decodeDouble nested current = .ok (some v, current')) : v.Canonical ∧ v.Nested (n + 1) := by
  have harray {vs : List Value} (hvs : ∀ v ∈ vs, v.Canonical ∧ v.Nested n) :
      (Value.array vs).Canonical ∧ (Value.array vs).Nested (n + 1) :=
    ⟨.array fun v hv => (hvs v hv).left, fun v hv => (hvs v hv).right⟩
  unfold readToValue at h
  simp only at h
  split at h
  case h_1 =>
    obtain ⟨ms, rfl, hs, hms⟩ := readMembers_finds hn .nil (by simp) h
    exact ⟨.object hs (fun m hm => (hms m hm).left) fun m hm => (hms m hm).right.left,
      fun m hm => (hms m hm).right.right⟩
  case h_2 =>
    unfold readArray at h
    simp only at h
    split at h
    case isTrue =>
      cases h
      exact harray (by simp)
    case isFalse =>
      obtain ⟨vs, rfl, hvs⟩ := readElements_finds hn (by simp) h
      exact harray hvs
  case h_3 =>
    obtain ⟨hc, hd⟩ := canonical_of_decodeNumber (congrArg Prod.fst (Except.ok.inj h))
    exact ⟨hc, hd n⟩
  case h_4 =>
    split at h
    case h_1 => cases h
    case h_2 decoded _ =>
      cases hd : Value.ofString decoded
      case error =>
        rw [hd] at h
        cases h
      case ok =>
        rw [hd] at h
        cases h
        obtain ⟨hc, hd⟩ := canonical_of_ofString hd
        exact ⟨hc, hd n⟩
  case h_5 =>
    cases h
    exact ⟨.bool, trivial⟩
  case h_6 =>
    cases h
    exact ⟨.bool, trivial⟩
  case h_7 =>
    cases h
    exact ⟨.null, trivial⟩
  case h_8 => cases h

theorem readValue_finds (n : Nat) : (readValue decodeDouble n).Finds fun v => v.Canonical ∧ v.Nested n := by
  induction n
  case zero      => exact fun h => nomatch h
  case succ n hi => exact readToValue_finds hi

theorem canonical_of_parse {document : Bytes} (h : parse decodeDouble document = .ok (some v)) :
    v.Canonical ∧ v.Nested stackLimit := by
  rw [parse] at h
  cases hv : (readValue decodeDouble stackLimit).run document
  case error =>
    rw [hv] at h
    cases h
  case ok p =>
    obtain ⟨v', current⟩ := p
    rw [hv] at h
    cases h
    exact readValue_finds stackLimit hv

-- Whatever has been parsed is in the form which the reader gives to values. When it is written, it is read as the
-- same value if its strings consist of characters.
theorem parse_canonical {doubleToString : Double → Bytes} {document : Bytes}
    (h : parse decodeDouble document = .ok (some v)) :
    v.Canonical ∧ v.Nested stackLimit ∧ (v.Proper decodeDouble doubleToString →
      parse decodeDouble (FastWriter.write doubleToString v) = .ok (some v)) := by
  obtain ⟨hc, hn⟩ := canonical_of_parse h
  refine ⟨hc, hn, fun hp => ?_⟩
  have hv := parse_write_of_nested (Value.writable_of_proper hc hp) hn
  rwa [Value.stored_asWritten hc hp] at hv

-- An array which is read from its text, and written again.
theorem parse_canonical_array : (Value.array [.int 1, .string (ascii "x")]).Canonical ∧
    (Value.array [.int 1, .string (ascii "x")]).Nested stackLimit ∧
    parse (fun _ => none) (FastWriter.write (fun _ => []) (.array [.int 1, .string (ascii "x")])) =
      .ok (some (.array [.int 1, .string (ascii "x")])) := by
  have hx : reread (ascii "x") = ascii "x" := by decide +kernel
  have hd : Digits (ascii "1") := ⟨by decide, List.forall_mem_singleton.mpr (by decide)⟩
  have hi : Text (fun _ => none) 1 (.int 1) (ascii "1") := .number (.int hd (by decide))
  have hs : Text (fun _ => none) 1 (.string (ascii "x")) (ascii "\"x\"") :=
    .string (by decide) ⟨ascii "x", .plain (by decide) (by decide) .nil, rfl⟩
  have ht : Text (fun _ => none) 2 (.array [.int 1, .string (ascii "x")]) (ascii "[1,\"x\"]") :=
    .array (.cons spaces_nil hi spaces_nil (.last spaces_nil hs spaces_nil))
  have hp : parse (fun _ => none) (ascii "[1,\"x\"]\n") =
      .ok (some (Value.array [.int 1, .string (ascii "x")]).stored) :=
    parse_of_text ht (by decide) spaces_nil ends_newline
  rw [show (Value.array [.int 1, .string (ascii "x")]).stored = .array [.int 1, .string (ascii "x")] by
    simp [Value.stored]] at hp
  have hv : (Value.array [.int 1, .string (ascii "x")]).Proper (fun _ => none) (fun _ => []) :=
    .array (by simp [Value.Proper.int, Value.Proper.string hx])
  obtain ⟨hc, hn, hw⟩ := parse_canonical hp
  exact ⟨hc, hn, hw hv⟩

end

end Json
