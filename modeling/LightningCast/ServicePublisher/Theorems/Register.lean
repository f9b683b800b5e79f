import LightningCast.ServicePublisher.Basic
import Mathlib.Data.List.Pairwise

open Throwing (Returns)

-- What there is to publish of an entry: the address of a non-loopback `AF_INET` one.
def IfAddrs.address (ifa : IfAddrs) : Option UInt32 :=
  match ifa.ifaAddr with
  | none      => none
  | some addr => if ¬ifa.IsLoopback ∧ addr.saFamily = SockAddr.afInet then some addr.sinAddr else none

-- A loop which dereferences `ifa_addr` unless the entry is a loopback can pass it.
def IfAddrs.Safe (ifa : IfAddrs) : Prop :=
  ¬ifa.IsLoopback → ifa.ifaAddr ≠ none

instance (ifa : IfAddrs) : Decidable ifa.Safe :=
  inferInstanceAs (Decidable (_ → _))

namespace ServicePublisher

def addresses (ifalist : List IfAddrs) : List UInt32 :=
  ifalist.filterMap IfAddrs.address

-- The calls which publish the addresses, each of them once and in their order.
def announcement (ap1name : Bytes) (port : Int32) : List UInt32 → List Call
  | []        => []
  | ip :: ips =>
    .setHostname hostname ip :: ips.map (.addRr hostname ·) ++
      [.registerSvc ap1name extendedregtype port.toUInt32.toUInt16 none [ascii "ver=1.0"]]

-- The address which a call hands over.
def Call.ip : Call → Option UInt32
  | setHostname _ ip => some ip
  | addRr _ ip       => some ip
  | registerSvc ..   => none

theorem announcement_ips (ap1name : Bytes) (port : Int32) (ips : List UInt32) :
    (announcement ap1name port ips).filterMap Call.ip = ips := by
  cases ips
  case nil => rfl
  case cons ip ips =>
    have h : (ips.map (Call.addRr hostname ·)).filterMap Call.ip = ips := by
      rw [List.filterMap_map]
      exact List.filterMap_some
    simp [announcement, List.filterMap_append, Call.ip, h]

-- The usable addresses are handed over in the calls which publish them, or it fails and nothing is
-- published, since there are none.
structure Announced (ap1name : Bytes) (port : Int32) (ifalist : List IfAddrs) (result : Int32)
    (calls : List Call) : Prop where
  handed    : calls.filterMap Call.ip = addresses ifalist
  published : calls = announcement ap1name port (addresses ifalist)
  failed    : result = -1 ↔ addresses ifalist = []
  nothing   : calls = [] ↔ addresses ifalist = []

theorem announcement_eq_nil {ap1name : Bytes} {port : Int32} {ips : List UInt32} :
    announcement ap1name port ips = [] ↔ ips = [] := by
  cases ips <;> simp [announcement]

theorem Announced.of_announcement {ap1name : Bytes} {port : Int32} {ifalist : List IfAddrs} {result : Int32}
    {calls : List Call} (hc : calls = announcement ap1name port (addresses ifalist))
    (hr : result = -1 ↔ addresses ifalist = []) : Announced ap1name port ifalist result calls where
  handed    := by rw [hc, announcement_ips]
  published := hc
  failed    := hr
  nothing   := by rw [hc, announcement_eq_nil]

-- No entry which comes after a usable one has no address, except for loopbacks.
def NullsFirst (ifalist : List IfAddrs) : Prop :=
  ifalist.Pairwise fun ifa later => ifa.address ≠ none → later.Safe

instance (ifalist : List IfAddrs) : Decidable (NullsFirst ifalist) :=
  inferInstanceAs (Decidable (List.Pairwise _ _))

variable {ifa : IfAddrs} {ifalist next : List IfAddrs} {name : Bytes} {calls : List Call}

theorem address_eq_some {ip : UInt32} : ifa.address = some ip ↔
    ¬ifa.IsLoopback ∧ ∃ addr, ifa.ifaAddr = some addr ∧ addr.saFamily = SockAddr.afInet ∧ addr.sinAddr = ip := by
  unfold IfAddrs.address
  cases ifa.ifaAddr <;> simp [and_assoc]

-- The first loop goes on after an entry which is not usable, and ends at one which is.
theorem lookForMain_skip {P : List IfAddrs → List Call → Prop} (h : ifa.address = none) :
    Returns (lookForMain name (ifa :: next)) calls P ↔ Returns (lookForMain name next) calls P := by
  unfold IfAddrs.address at h
  cases ha : ifa.ifaAddr <;> simp only [ha] at h
  case none => simp [lookForMain, ha]
  case some addr =>
    by_cases hl : ifa.IsLoopback
    case pos => simp [lookForMain, hl]
    case neg =>
      have hf : addr.saFamily ≠ SockAddr.afInet := by simpa [hl] using h
      simp [lookForMain, hl, ha, deref, hf, Returns.lift_iff]

theorem lookForMain_break {P : List IfAddrs → List Call → Prop} {ip : UInt32} (h : ifa.address = some ip) :
    Returns (lookForMain name (ifa :: next)) calls P ↔
      P (ifa :: next) (calls ++ [.setHostname name ip]) := by
  obtain ⟨hl, addr, ha, hf, rfl⟩ := address_eq_some.mp h
  simp [lookForMain, hl, ha, deref, hf, mdnsdSetHostname, Returns.lift_iff]

theorem lookForMain_append {P : List IfAddrs → List Call → Prop} {before : List IfAddrs}
    (h : ∀ ifa ∈ before, ifa.address = none) :
    Returns (lookForMain name (before ++ next)) calls P ↔ Returns (lookForMain name next) calls P := by
  induction before
  case nil => rfl
  case cons ifa before hi =>
    have ⟨ha, h⟩ := List.forall_mem_cons.mp h
    rw [List.cons_append, lookForMain_skip ha, hi h]

theorem lookForMain_null {P : List IfAddrs → List Call → Prop} (h : ∀ ifa ∈ ifalist, ifa.address = none) :
    Returns (lookForMain name ifalist) calls P ↔ P [] calls := by
  rw [← ifalist.append_nil, lookForMain_append h]
  exact Returns.pure_iff

-- The second loop passes an entry which is safe, and publishes its address.
theorem addOthers_cons {P : Unit → List Call → Prop} : Returns (addOthers name (ifa :: next)) calls P ↔
    ifa.Safe ∧ Returns (addOthers name next) (calls ++ ifa.address.toList.map (.addRr name ·)) P := by
  by_cases hl : ifa.IsLoopback
  case pos =>
    have ha : ifa.address = none :=
      Option.eq_none_iff_forall_ne_some.mpr fun ip h => (address_eq_some.mp h).left hl
    simp [addOthers, IfAddrs.Safe, hl, ha]
  case neg =>
    cases ha : ifa.ifaAddr
    case none => simp [addOthers, IfAddrs.Safe, hl, ha, deref, Returns.lift_iff]
    case some addr =>
      by_cases hf : addr.saFamily = SockAddr.afInet <;>
        simp [addOthers, IfAddrs.Safe, IfAddrs.address, hl, ha, hf, deref, mdnsdAddRr, Returns.lift_iff]

theorem addOthers_returns {P : Unit → List Call → Prop} : Returns (addOthers name ifalist) calls P ↔
    (∀ ifa ∈ ifalist, ifa.Safe) ∧ P () (calls ++ (addresses ifalist).map (.addRr name ·)) := by
  induction ifalist generalizing calls
  case nil => simp [addOthers, addresses]
  case cons ifa next hi =>
    rw [addOthers_cons, hi, List.forall_mem_cons, and_assoc]
    have hc : addresses (ifa :: next) = ifa.address.toList ++ addresses next := by
      cases ha : ifa.address <;> simp [addresses, ha]
    simp [hc]

theorem nullsFirst_of_unusable (h : ∀ ifa ∈ ifalist, ifa.address = none) : NullsFirst ifalist :=
  List.pairwise_of_forall_mem_list fun ifa hm _ _ ha => absurd (h ifa hm) ha

-- The order of the nulls matters from the first usable entry on.
theorem nullsFirst_append {before : List IfAddrs} (hb : ∀ ifa ∈ before, ifa.address = none)
    (ha : ifa.address ≠ none) : NullsFirst (before ++ ifa :: next) ↔ ∀ later ∈ next, later.Safe := by
  simp only [NullsFirst, List.pairwise_append, List.pairwise_cons]
  constructor
  case mp  => exact fun ⟨_, ⟨h, _⟩, _⟩ later hm => h later hm ha
  case mpr =>
    intro h
    refine ⟨nullsFirst_of_unusable hb, ⟨fun later hm _ => h later hm, ?_⟩, ?_⟩
    · exact List.pairwise_of_forall_mem_list fun _ _ later hm _ => h later hm
    · exact fun ifa hm _ _ h => absurd (hb ifa hm) h

-- Whatever the list is, all usable addresses are published and no null pointer is dereferenced, if and only
-- if the second loop meets no null pointer.
theorem register_announces_iff (ap1name : Bytes) (port : Int32) (ifalist : List IfAddrs) :
    Returns (mdnsTinysvcmdnsRegister true (some ifalist) ap1name port) [] (Announced ap1name port ifalist) ↔
      NullsFirst ifalist := by
  cases hi : addresses ifalist
  case nil =>
    have hb := List.filterMap_eq_nil_iff.mp hi
    refine iff_of_true ?_ (nullsFirst_of_unusable hb)
    simp only [mdnsTinysvcmdnsRegister, not_true, if_false, Returns.bind_iff, lookForMain_null hb,
      Returns.pure_iff]
    exact .of_announcement (by rw [hi]; rfl) (by simp [hi])
  case cons ip ips =>
    obtain ⟨before, ifa, next, rfl, hb, ha, hn⟩ := List.filterMap_eq_cons_iff.mp hi
    have hn : addresses next = ips := hn
    rw [nullsFirst_append hb (by simp [ha])]
    simp only [mdnsTinysvcmdnsRegister, not_true, if_false, Returns.bind_iff, lookForMain_append hb,
      lookForMain_break ha, addOthers_returns, mdnsdRegisterSvc, Returns.modify_iff, Returns.pure_iff]
    refine and_iff_left (.of_announcement ?_ (by simp [hi]))
    simp [hi, announcement, hn]

-- An interface with an IPv4 address, and a tunnel which is up but has no address.
def nullAfterMain : List IfAddrs := [
  { ifaFlags := 0x1043, ifaAddr := some { saFamily := SockAddr.afInet, sinAddr := 0x0201a8c0 } },
  { ifaFlags := 0x10d1, ifaAddr := none }
]

-- The hostname is set and the service is never registered, since `ifa->ifa_addr->sa_family` crashes.
theorem nullAfterMain_crashes :
    (mdnsTinysvcmdnsRegister true (some nullAfterMain) serviceName lightningcastTcpPort).run.run [] =
      (.error .nullDereference, [.setHostname hostname 0x0201a8c0]) ∧
    ¬Returns (mdnsTinysvcmdnsRegister true (some nullAfterMain) serviceName lightningcastTcpPort) []
      (Announced serviceName lightningcastTcpPort nullAfterMain) := by
  have h : (mdnsTinysvcmdnsRegister true (some nullAfterMain) serviceName lightningcastTcpPort).run.run [] =
      (.error .nullDereference, [.setHostname hostname 0x0201a8c0]) := rfl
  refine ⟨h, ?_⟩
  simp only [Returns, h, not_false_eq_true]

end ServicePublisher
