import LightningCast.Messages.Basic
import LightningCast.Frame.Theorems.RoundTrip
import LightningCast.Json.Theorems.Canonical
import LightningCast.LightningCastClient.Theorems.Parse

open Json (Value Double Document reread)
open Json.Reader (parse stackLimit)
open Json.FastWriter (write)

namespace Json.Value

section

variable {as : List (String × Value)} {name : Bytes} {v : Value} {ms : List (Bytes × Value)} {n : Nat}
  {decodeDouble : Bytes → Option Double} {doubleToString : Double → Bytes}

theorem map_setMember (f : Value → Value) :
    (setMember name v ms).map (fun m => (m.1, f m.2)) = setMember name (f v) (ms.map fun m => (m.1, f m.2)) := by
  induction ms
  case nil => rfl
  case cons m ms hi =>
    simp only [setMember, List.map_cons]
    split
    case isTrue => rfl
    case isFalse =>
      split
      case isTrue  => rfl
      case isFalse => rw [List.map_cons, hi]

-- The members after assignments.
def assignedMembers (as : List (String × Value)) (ms : List (Bytes × Value)) : List (Bytes × Value) :=
  as.foldl (fun ms a => setMember (ascii a.1) a.2 ms) ms

theorem assigned_eq (as : List (String × Value)) : assigned as = object (assignedMembers as []) :=
  rfl

theorem sorted_assignedMembers (hs : Sorted ms) : Sorted (assignedMembers as ms) := by
  induction as generalizing ms
  case nil          => exact hs
  case cons a as hi => exact hi (sorted_setMember hs)

theorem mem_assignedMembers {m : Bytes × Value} (hm : m ∈ assignedMembers as ms) :
    (∃ a ∈ as, m = (ascii a.1, a.2)) ∨ m ∈ ms := by
  induction as generalizing ms
  case nil => exact .inr hm
  case cons a as hi =>
    rcases hi hm with ⟨a', ha, rfl⟩ | hm
    · exact .inl ⟨a', List.mem_cons_of_mem _ ha, rfl⟩
    · rcases mem_setMember hm with rfl | hm
      · exact .inl ⟨a, List.mem_cons_self .., rfl⟩
      · exact .inr hm

theorem map_assignedMembers (f : Value → Value) : (assignedMembers as ms).map (fun m => (m.1, f m.2)) =
    assignedMembers (as.map fun a => (a.1, f a.2)) (ms.map fun m => (m.1, f m.2)) := by
  induction as generalizing ms
  case nil => rfl
  case cons a as hi =>
    rw [assignedMembers, List.foldl_cons, ← assignedMembers, hi, map_setMember]
    rfl

theorem forall_assigned {P : Bytes × Value → Prop} (h : ∀ a ∈ as, P (ascii a.1, a.2)) :
    ∀ m ∈ assignedMembers as [], P m := by
  intro m hm
  rcases mem_assignedMembers hm with ⟨a, ha, rfl⟩ | hm
  · exact h a ha
  · cases hm

theorem lookup_setMember (key : Bytes) :
    (setMember name v ms).lookup key = if key = name then some v else ms.lookup key := by
  induction ms
  case nil => grind [setMember]
  case cons m ms hi =>
    obtain ⟨k, w⟩ := m
    rw [setMember]
    split
    case isTrue => grind
    case isFalse =>
      split
      case isTrue  => grind
      case isFalse => grind

-- The names of the members are written as they are.
theorem stored_asWritten_assigned (hn : ∀ a ∈ as, reread (ascii a.1) = ascii a.1) :
    (assigned as).asWritten.stored = assigned (as.map fun a => (a.1, a.2.asWritten.stored)) := by
  have hm : ∀ m ∈ assignedMembers as [], (reread m.1, m.2.asWritten.stored) = (m.1, m.2.asWritten.stored) :=
    forall_assigned fun a ha => by rw [hn a ha]
  have hs : Sorted ((assignedMembers as []).map fun m => (m.1, m.2.asWritten.stored)) :=
    List.pairwise_map.mpr (sorted_assignedMembers .nil)
  rw [assigned_eq, asWritten, stored, List.map_map]
  refine (congrArg ofMembers (List.map_congr_left hm)).trans ?_
  rw [ofMembers_sorted hs, map_assignedMembers fun v => v.asWritten.stored]
  rfl

-- The names which the program gives to members.
def IsName (name : String) : Prop :=
  (name.toList.all fun c => c.toNat < 0x80) ∧ name.length < 2 ^ 30

instance (name : String) : Decidable (IsName name) :=
  inferInstanceAs (Decidable (_ ∧ _))

theorem ascii_eq_utf8 {s : String} (h : s.toList.all fun c => c.toNat < 0x80) : ascii s = utf8 s.toList := by
  have hf (cs : List Char) (h : ∀ c ∈ cs, c.toNat < 0x80) : cs.map (fun c => UInt8.ofNat c.toNat) = utf8 cs := by
    induction cs
    case nil => rfl
    case cons c cs hi =>
      obtain ⟨hc, hcs⟩ := List.forall_mem_cons.mp h
      have ht : (UInt8.ofNat c.toNat).toNat = c.toNat := by
        rw [UInt8.toNat_ofNat', Nat.mod_eq_of_lt (by omega)]
      rw [List.map_cons, hi hcs, utf8, utf8, List.flatMap_cons, utf8EncodeChar_ascii ht.symm (by omega)]
      rfl
  exact hf s.toList (List.all_iff_forall_prop.mp h)

theorem IsName.reread {name : String} (hn : IsName name) : reread (ascii name) = ascii name :=
  (reread_eq_iff _).mpr ⟨_, ascii_eq_utf8 hn.left⟩

theorem IsName.length {name : String} (hn : IsName name) : (ascii name).length < 2 ^ 30 :=
  (List.length_map ..).trans_lt hn.right

-- These are the names in what the program writes.
theorem isName_written : ∀ name ∈ ["Cmd", "IsOpen", "Major", "Minor", "Patch", "SnapServerIPAddr", "Value"],
    IsName name := by
  decide

theorem document_assigned (as : List (String × Value)) (hn : ∀ a ∈ as, IsName a.1)
    (hv : ∀ a ∈ as, a.2.Writable decodeDouble doubleToString ∧ a.2.Nested (stackLimit - 1)) :
    ∃ root, Document decodeDouble root (write doubleToString (assigned as)) ∧ root.Nested stackLimit ∧
      root.stored = assigned (as.map fun a => (a.1, a.2.asWritten.stored)) := by
  have hw : (assigned as).Writable decodeDouble doubleToString := by
    refine .object (forall_assigned fun a ha => ?_) (forall_assigned fun a ha => (hv a ha).left)
    rw [(hn a ha).reread]
    exact (hn a ha).length
  have hd : (assigned as).Nested stackLimit := forall_assigned fun a ha => (hv a ha).right
  have hs := stored_asWritten_assigned fun a ha => (hn a ha).reread
  exact ⟨_, document_write hw, (nested_asWritten _ _).mpr hd, hs⟩

theorem stored_ofInt (n : Int32) : (ofInt n).asWritten.stored = ofInt n := by
  have hn := n.toInt_lt
  rw [ofInt, asWritten, ofInteger, Int32.toInt_toInt64, if_pos hn, stored]
  rw [← Int32.toInt_toInt64, Int64.ofInt_toInt]

-- A message without strings.
theorem document_ints (as : List (String × Int32)) (hn : ∀ name ∈ as.map Prod.fst, IsName name) :
    ∃ root, Document decodeDouble root (write doubleToString (assigned (as.map fun a => (a.1, ofInt a.2)))) ∧
      root.Nested stackLimit ∧ root.stored = assigned (as.map fun a => (a.1, ofInt a.2)) := by
  obtain ⟨root, hd, hr, hs⟩ := document_assigned (as.map fun a => (a.1, ofInt a.2))
    (List.forall_mem_map.mpr fun a ha => hn a.1 (List.mem_map_of_mem ha))
    (List.forall_mem_map.mpr fun a _ => ⟨.int, trivial⟩)
  simp only [List.map_map, Function.comp_def, stored_ofInt] at hs
  exact ⟨root, hd, hr, hs⟩

theorem parse_ints (as : List (String × Int32)) (hn : ∀ name ∈ as.map Prod.fst, IsName name) :
    parse decodeDouble (write doubleToString (assigned (as.map fun a => (a.1, ofInt a.2)))) =
      .ok (some (assigned (as.map fun a => (a.1, ofInt a.2)))) := by
  obtain ⟨root, hd, hr, hs⟩ := document_ints as hn
  rw [hd.parse_of_nested hr, hs]

end

end Json.Value

-- How long the texts are.

namespace Json.FastWriter

theorem uintToString_length {n k : Nat} (hn : n < 10 ^ (k + 1)) (current : Bytes) :
    (uintToString n current).length ≤ current.length + (k + 1) := by
  induction k generalizing n current
  case zero =>
    rw [uintToString, if_neg (by omega), List.length_cons]
  case succ k hi =>
    rw [uintToString]
    split
    case isTrue =>
      refine (hi (by omega) _).trans ?_
      rw [List.length_cons]
      omega
    case isFalse =>
      rw [List.length_cons]
      omega

theorem valueToString_length (n : Int64) : (valueToString n).length ≤ 21 := by
  have hu {n : Nat} (hn : n < 2 ^ 64) : (uintToString n []).length ≤ 20 := uintToString_length (k := 19) (by omega) []
  have hl := n.toInt_lt
  have hm := (-n).toInt_lt
  unfold valueToString
  split
  case isTrue => exact Nat.succ_le_succ (hu (by decide))
  case isFalse =>
    split
    case isTrue  => exact Nat.succ_le_succ (hu (by omega))
    case isFalse => exact (hu (by omega)).trans (by decide)

theorem intercalate_length {ts : List Bytes} {k : Nat} (h : ∀ t ∈ ts, t.length ≤ k) :
    ([0x2C].intercalate ts).length ≤ ts.length * (k + 1) := by
  induction ts
  case nil => exact Nat.zero_le _
  case cons t ts hi =>
    obtain ⟨ht, hts⟩ := List.forall_mem_cons.mp h
    have hi := hi hts
    cases ts
    case nil =>
      rw [List.intercalate_singleton, List.length_singleton]
      omega
    case cons t' ts =>
      rw [List.intercalate_cons_cons, List.length_append, List.length_append, List.length_singleton]
      rw [List.length_cons (a := t), Nat.add_one_mul]
      omega

theorem setMember_length (name : Bytes) (v : Value) (ms : List (Bytes × Value)) :
    (Value.setMember name v ms).length ≤ ms.length + 1 := by
  induction ms
  case nil => exact le_refl _
  case cons m ms hi =>
    rw [Value.setMember]
    split
    case isTrue => exact Nat.le_succ _
    case isFalse =>
      split
      case isTrue  => exact le_refl _
      case isFalse => exact Nat.succ_le_succ hi

theorem assignedMembers_length (as : List (String × Value)) (ms : List (Bytes × Value)) :
    (Value.assignedMembers as ms).length ≤ ms.length + as.length := by
  induction as generalizing ms
  case nil => exact le_refl _
  case cons a as hi =>
    have hl := setMember_length (ascii a.1) a.2 ms
    refine (hi (Value.setMember (ascii a.1) a.2 ms)).trans ?_
    rw [List.length_cons]
    omega

-- A message without strings.
theorem write_assigned_length {as : List (String × Int32)} {doubleToString : Double → Bytes}
    (hn : ∀ a ∈ as, (valueToQuotedStringN (ascii a.1)).length ≤ 9) :
    (write doubleToString (.assigned (as.map fun a => (a.1, .ofInt a.2)))).length ≤ as.length * 32 + 3 := by
  have hm : ∀ m ∈ Value.assignedMembers (as.map fun a => (a.1, .ofInt a.2)) [],
      (valueToQuotedStringN m.1 ++ 0x3A :: writeValue doubleToString m.2).length ≤ 31 := by
    refine Value.forall_assigned (List.forall_mem_map.mpr fun a ha => ?_)
    have hl := hn a ha
    have hv := valueToString_length a.2.toInt64
    show (valueToQuotedStringN (ascii a.1) ++ 0x3A :: writeValue doubleToString (.int a.2.toInt64)).length ≤ 31
    rw [writeValue, List.length_append, List.length_cons]
    omega
  have hi := intercalate_length (List.forall_mem_map.mpr hm)
  have hl := assignedMembers_length (as.map fun a => (a.1, .ofInt a.2)) []
  simp only [List.length_map, List.length_nil] at hi hl
  rw [write, Value.assigned_eq, writeValue]
  simp only [List.length_append, List.length_cons, List.length_nil]
  omega

end Json.FastWriter

namespace LightningCastClient

open LightningCastClient.Send

-- The remote command which a value means: the version, or a command with its value.
def RemoteCommand.ofRoot (root : Value) : Option RemoteCommand := do
  let cmd ← LightningCastCommCmd.ofInt (intOf root "Cmd")
  return if cmd = .NOTIFY_VERSION
    then .version (intOf root "Major") (intOf root "Minor") (intOf root "Patch")
    else .value cmd (intOf root "Value")

-- The remote command which is received with a payload.
def RemoteCommand.ofPayload (decodeDouble : Bytes → Option Double) (payload : Bytes) : Option RemoteCommand :=
  match parse decodeDouble payload with
  | .ok (some root) => ofRoot root
  | _               => none

section

variable {decodeDouble : Bytes → Option Double} {doubleToString : Double → Bytes} {cmd : LightningCastCommCmd}
  {value n : Int32}

theorem toInt_ofInt (n : Int32) : (Value.ofInt n).toInt = n :=
  Int32.toInt32_toInt64 n

theorem ofRoot_rootWriter (cmd : LightningCastCommCmd) (value : Int32) :
    RemoteCommand.ofRoot (rootWriter cmd value) = some (remoteCommand cmd value) := by
  rw [rootWriter, remoteCommand]
  split
  case isTrue hc =>
    subst hc
    decide
  case isFalse hc =>
    simp +decide [RemoteCommand.ofRoot, intOf, Value.assigned, Value.member, Value.lookup_setMember, toInt_ofInt,
      LightningCastCommCmd.ofInt_toInt, hc]

theorem parse_sendRemoteCommand (cmd : LightningCastCommCmd) (value : Int32) :
    parse decodeDouble (sendRemoteCommand doubleToString cmd value) = .ok (some (rootWriter cmd value)) := by
  rw [sendRemoteCommand, rootWriter]
  split
  case isTrue  =>
    exact Value.parse_ints [("Cmd", cmd.toInt), ("Major", 1), ("Minor", 0), ("Patch", 0)]
      (by simp [Value.isName_written])
  case isFalse =>
    exact Value.parse_ints [("Cmd", cmd.toInt), ("Value", value)] (by simp [Value.isName_written])

theorem sendRemoteCommand_length (cmd : LightningCastCommCmd) (value : Int32) :
    (sendRemoteCommand doubleToString cmd value).length < 2 ^ 32 := by
  have hlt (as : List (String × Int32)) (hn : ∀ a ∈ as, (Json.FastWriter.valueToQuotedStringN (ascii a.1)).length ≤ 9)
      (ha : as.length ≤ 4) :
      (write doubleToString (.assigned (as.map fun a => (a.1, .ofInt a.2)))).length < 2 ^ 32 :=
    (Json.FastWriter.write_assigned_length hn).trans_lt (by omega)
  have hnames : ∀ name ∈ ["Cmd", "Major", "Minor", "Patch", "Value"],
      (Json.FastWriter.valueToQuotedStringN (ascii name)).length ≤ 9 := by
    decide +kernel
  rw [sendRemoteCommand, rootWriter]
  split
  case isTrue  => exact hlt [("Cmd", cmd.toInt), ("Major", 1), ("Minor", 0), ("Patch", 0)] (by simp [hnames]) (by simp)
  case isFalse => exact hlt [("Cmd", cmd.toInt), ("Value", value)] (by simp [hnames]) (by simp)

-- The remote commands which threads send are the ones which are received, in the order in which the threads took the
-- mutex, however the bytes of their texts are cut.
theorem remote_commands_arrive {T : Type} [DecidableEq T] {as : List (ProcessSend.Act T)} {s : ProcessSend.State T}
    {cmds : List (LightningCastCommCmd × Int32)}
    (he : ProcessSend.machine.exec ProcessSend.machine.init as = some s)
    (hc : ProcessSend.machine.Meets (fun _ a => ¬a.cuts) as) (hn : s.current = none)
    (hs : s.sent = cmds.map fun c => sendRemoteCommand doubleToString c.1 c.2) {rs : List (Stream.Read UInt8)}
    (hr : Stream.Clean rs) (ho : Stream.content rs = s.out) (n : Nat) :
    (doReads n rs).1.map (RemoteCommand.ofPayload decodeDouble) =
      (cmds.take n).map fun c => some (remoteCommand c.1 c.2) := by
  have hw := ProcessSend.whole hc he
  simp only [ProcessSend.State.Whole, ProcessSend.State.left, hn, Option.elim_none, List.append_nil] at hw
  have hp : ∀ p ∈ s.sent, p.length < 2 ^ 32 := by
    rw [hs]
    exact List.forall_mem_map.mpr fun c _ => sendRemoteCommand_length c.1 c.2
  have hf (c : LightningCastCommCmd × Int32) :
      RemoteCommand.ofPayload decodeDouble (sendRemoteCommand doubleToString c.1 c.2) =
        some (remoteCommand c.1 c.2) := by
    rw [RemoteCommand.ofPayload, parse_sendRemoteCommand]
    exact ofRoot_rootWriter c.1 c.2
  rw [doReads_frames hp hr (ho.trans hw), hs, ← List.map_take, List.map_map]
  exact List.map_congr_left fun c _ => hf c

-- A thread has to wait until the volume is sent.
theorem remote_commands_arrive_twoThreads :
    let volume := ascii "\x7b\"Cmd\":111,\"Value\":51\x7d\n"
    let exit   := ascii "\x7b\"Cmd\":102,\"Value\":0\x7d\n"
    let out    := frame volume ++ frame exit
    (doReads 2 [.data (out.take 11), .again, .data (out.drop 11)]).1.map (RemoteCommand.ofPayload fun _ => none) =
      [some (.value .NOTIFY_VOLUME 51), some (.value .NOTIFY_EXIT 0)] := by
  intro volume exit out
  let as : List (ProcessSend.Act Thread) :=
    [.call .main volume, .call .client exit, .lock .main, .write (.accept 20), .write .again, .write (.accept 11),
     .lock .client, .write (.accept 30)]
  have ⟨s, he, hs⟩ := ProcessSend.machine.exec_of_any as
    (fun s => s.current.isNone ∧ s.sent = [volume, exit] ∧ s.out = out) (by decide +kernel)
  have ⟨hn, hs, ho⟩ := of_decide_eq_true hs
  have hn := Option.isNone_iff_eq_none.mp hn
  have hc : [volume, exit] = [(LightningCastCommCmd.NOTIFY_VOLUME, 51), (.NOTIFY_EXIT, 0)].map
      fun c => sendRemoteCommand (fun _ => []) c.1 c.2 := by
    decide +kernel
  exact remote_commands_arrive he (by decide) hn (hs.trans hc) (by decide) (Eq.trans (by decide) ho.symm) 2

end

end LightningCastClient
