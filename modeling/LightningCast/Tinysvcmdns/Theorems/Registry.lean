import LightningCast.Tinysvcmdns.Register
import LightningCast.Tinysvcmdns.Theorems.Label

open Worklist (add addAll)

namespace Mdns

open RrType

theorem cmpNlabel_iff {L1 L2 : NLabel} : cmpNlabel L1 L2 ↔ cString L1 = cString L2 :=
  decide_eq_true_iff

theorem cString_cString (bs : Bytes) : cString (cString bs) = cString bs :=
  cString_eq_self (zero_notMem_cString bs)

theorem headD_cString (bs : Bytes) : (cString bs).headD 0 = bs.headD 0 := by
  cases bs
  case nil => rfl
  case cons b bs =>
    by_cases hb : b = 0 <;> simp [cString, hb]

theorem headD_congr {L1 L2 : NLabel} (h : cString L1 = cString L2) : L1.headD 0 = L2.headD 0 := by
  rw [← headD_cString L1, h, headD_cString]

-- A record is an answer to a question for the name and the type.
def IsAnswer (name : NLabel) (type : RrType) (rr : RrEntry) : Prop :=
  cString name = cString rr.name ∧ (type = rr.type ∨ type = RR_ANY ∧ rr.type ≠ RR_NSEC)

instance (name : NLabel) (type : RrType) (rr : RrEntry) : Decidable (IsAnswer name type rr) :=
  inferInstanceAs (Decidable (_ ∧ _))

-- The places of all records, in the order in which they have been added.
def Mdnsd.places (svr : Mdnsd) : List Ptr :=
  List.range svr.fresh

def Mdnsd.records (svr : Mdnsd) : List RrEntry :=
  svr.places.map svr.rr

-- The places of the answers.
def Mdnsd.answers (svr : Mdnsd) (name : NLabel) (type : RrType) : List Ptr :=
  svr.places.filter fun p => IsAnswer name type (svr.rr p)

def rrOfName (group : List RrGroup) (name : NLabel) : List Ptr :=
  (rrGroupFind group name).elim [] RrGroup.rr

-- The groups hold all records, those of each name in their order. No name is one which `dup_nlabel` rejects.
structure Mdnsd.Indexed (svr : Mdnsd) : Prop where
  names    : ∀ name ∈ svr.group.map RrGroup.name, name.headD 0 ≤ 63
  group    : ∀ name, rrOfName svr.group name = svr.places.filter fun p => cString name = cString (svr.rr p).name
  announce : ∀ p ∈ svr.announce, p < svr.fresh
  services : ∀ p ∈ svr.services, p < svr.fresh

section

variable {group : List RrGroup} {name name' : NLabel} {p : Ptr}

theorem rrListAppend_fst (l : List Ptr) (p : Ptr) : (rrListAppend l p).1 = add l p := by
  unfold rrListAppend add
  split <;> rfl

theorem rrListAppend_length (l : List Ptr) (p : Ptr) :
    (rrListAppend l p).1.length = l.length + (rrListAppend l p).2 := by
  unfold rrListAppend
  split <;> simp

theorem mem_of_rrGroupFind {g : RrGroup} (h : rrGroupFind group name = some g) :
    g ∈ group ∧ cString g.name = cString name := by
  unfold rrGroupFind at h
  have hc := List.find?_some h
  exact ⟨List.mem_of_find?_eq_some h, cmpNlabel_iff.mp hc⟩

theorem rrGroupFind_congr (h : cString name = cString name') : rrGroupFind group name = rrGroupFind group name' := by
  simp only [rrGroupFind, cmpNlabel, h]

theorem rrGroupFind_cons (g : RrGroup) (group : List RrGroup) : rrGroupFind (g :: group) name =
    if cString g.name = cString name then some g else rrGroupFind group name := by
  unfold rrGroupFind
  rw [List.find?_cons]
  by_cases h : cString g.name = cString name <;> simp [cmpNlabel, h]

theorem rrGroupUpdate_eq_none_iff {f : RrGroup → RrGroup} :
    rrGroupUpdate name f group = none ↔ rrGroupFind group name = none := by
  induction group
  case nil => exact iff_of_true rfl rfl
  case cons g group hi =>
    unfold rrGroupUpdate
    rw [rrGroupFind_cons]
    by_cases hg : cString g.name = cString name <;> simp [cmpNlabel, hg, hi]

theorem rrGroupFind_of_update {f : RrGroup → RrGroup} {group' : List RrGroup}
    (h : rrGroupUpdate name f group = some group') (hf : ∀ g, (f g).name = g.name) : rrGroupFind group' name' =
      if cString name' = cString name then (rrGroupFind group name').map f else rrGroupFind group name' := by
  induction group generalizing group'
  case nil => cases h
  case cons g group hi =>
    unfold rrGroupUpdate at h
    rw [rrGroupFind_cons]
    by_cases hg : cString g.name = cString name
    case pos =>
      simp only [cmpNlabel, hg, decide_true, if_true, Option.some_inj] at h
      subst h
      rw [rrGroupFind_cons, hf, hg]
      by_cases hn : cString name' = cString name
      case pos => simp [hn]
      case neg => simp [hn, Ne.symm hn]
    case neg =>
      simp only [cmpNlabel, hg, decide_false, Bool.false_eq_true, if_false] at h
      obtain ⟨group'', hu, rfl⟩ := Option.map_eq_some_iff.mp h
      rw [rrGroupFind_cons, hi hu]
      by_cases hn : cString name' = cString name
      case pos => simp [hn, hg]
      case neg => simp [hn]

theorem names_of_update {f : RrGroup → RrGroup} {group' : List RrGroup}
    (h : rrGroupUpdate name f group = some group') (hf : ∀ g, (f g).name = g.name) :
    group'.map RrGroup.name = group.map RrGroup.name := by
  induction group generalizing group'
  case nil => cases h
  case cons g group hi =>
    unfold rrGroupUpdate at h
    split at h
    case isTrue =>
      cases h
      simp [hf]
    case isFalse =>
      obtain ⟨group'', hu, rfl⟩ := Option.map_eq_some_iff.mp h
      simp [hi hu]

-- The groups with another record.
def withRr (group : List RrGroup) (name : NLabel) (rr : Ptr) : List RrGroup :=
  (rrGroupUpdate name (fun g => { g with rr := (rrListAppend g.rr rr).1 }) group).getD
    ({ name := cString name, rr := [rr] } :: group)

theorem rrGroupAdd_of_le (h : name.headD 0 ≤ 63) : rrGroupAdd group name p = .ok (withRr group name p) := by
  unfold rrGroupAdd withRr
  split
  case h_1 h' => rw [h', Option.getD_some]; rfl
  case h_2 h' => rw [h', Option.getD_none, dupNlabel, if_pos h]; rfl

-- A name which `dup_nlabel` rejects has no group.
theorem rrGroupAdd_of_not_le (hn : ∀ name ∈ group.map RrGroup.name, name.headD 0 ≤ 63)
    (h : ¬name.headD 0 ≤ 63) : rrGroupAdd group name p = .error .abort := by
  unfold rrGroupAdd
  split
  case h_2 => rw [dupNlabel, if_neg h]; rfl
  case h_1 group' hu =>
    cases hg : rrGroupFind group name
    case none   => simp [rrGroupUpdate_eq_none_iff.mpr hg] at hu
    case some g =>
      obtain ⟨hm, hc⟩ := mem_of_rrGroupFind hg
      have hle := hn g.name (List.mem_map_of_mem hm)
      exact absurd (headD_congr hc ▸ hle) h

theorem rrGroupAdd_eq_ok {group' : List RrGroup} (h : rrGroupAdd group name p = .ok group') :
    withRr group name p = group' := by
  unfold rrGroupAdd at h
  unfold withRr
  split at h
  case h_1 h' =>
    rw [h', Option.getD_some]
    exact Except.ok.inj h
  case h_2 h' =>
    rw [h', Option.getD_none]
    obtain ⟨n, hd, h⟩ := Except.bind_eq_ok_iff.mp h
    obtain ⟨-, rfl⟩ := Except.ite_eq_ok_iff.mp hd
    exact Except.ok.inj h

theorem names_withRr (hn : ∀ name ∈ group.map RrGroup.name, name.headD 0 ≤ 63) (h : name.headD 0 ≤ 63) :
    ∀ n ∈ (withRr group name p).map RrGroup.name, n.headD 0 ≤ 63 := by
  unfold withRr
  cases hu : rrGroupUpdate name (fun g => { g with rr := (rrListAppend g.rr p).1 }) group
  case some => rwa [Option.getD_some, names_of_update hu fun _ => rfl]
  case none =>
    rw [Option.getD_none, List.map_cons, List.forall_mem_cons, headD_cString]
    exact ⟨h, hn⟩

-- The group of a name is the first one with this name, also after a record has been added.
theorem rrOfName_withRr : rrOfName (withRr group name p) name' =
    if cString name' = cString name then add (rrOfName group name') p else rrOfName group name' := by
  unfold withRr rrOfName
  cases hu : rrGroupUpdate name (fun g => { g with rr := (rrListAppend g.rr p).1 }) group
  case some group' =>
    have hf : rrGroupFind group' name' = _ := rrGroupFind_of_update hu fun _ => rfl
    rw [Option.getD_some, hf]
    by_cases hn : cString name' = cString name
    case pos =>
      cases hg : rrGroupFind group name'
      case none   => simp [rrGroupUpdate_eq_none_iff.mpr ((rrGroupFind_congr hn).symm.trans hg)] at hu
      case some g => simp [hn, rrListAppend_fst]
    case neg => simp [hn]
  case none =>
    simp only [Option.getD_none, rrGroupFind_cons, cString_cString]
    by_cases hn : cString name' = cString name
    case pos => simp [hn, rrGroupFind_congr hn, rrGroupUpdate_eq_none_iff.mp hu, add]
    case neg => simp [hn, Ne.symm hn]

end

section

variable {svr svr' : Mdnsd} {rr : RrEntry} {p : Ptr} {name : NLabel} {type : RrType} {rrHead : List Ptr}

theorem mem_places : p ∈ svr.places ↔ p < svr.fresh :=
  List.mem_range

theorem mem_answers : p ∈ svr.answers name type ↔ p < svr.fresh ∧ IsAnswer name type (svr.rr p) := by
  rw [Mdnsd.answers, List.mem_filter, mem_places, decide_eq_true_iff]

theorem answers_nodup : (svr.answers name type).Nodup :=
  List.nodup_range.filter _

-- If all texts fit, they are there as they have been given.
theorem foldl_rrAddTxt {l : List (Option Bytes)} {txts : List Bytes} (hl : l.head? ≠ some none)
    (ht : ∀ t ∈ txts, t.length ≤ 63) : txts.foldl rrAddTxt l = l ++ txts.map createLabel := by
  induction txts generalizing l
  case nil => simp
  case cons t txts hi =>
    obtain ⟨ht', ht⟩ := List.forall_mem_cons.mp ht
    have ha : rrAddTxt l t = l ++ [createLabel t] := by
      unfold rrAddTxt
      split
      case h_1 => simp at hl
      case h_2 => rfl
    have hc : createLabel t ≠ none := by simp [createLabel, Nat.not_lt.mpr ht']
    have hh : (l ++ [createLabel t]).head? ≠ some none := by
      cases l
      case nil  => simpa using hc
      case cons => simpa using hl
    rw [List.foldl_cons, ha, hi hh ht, List.map_cons, List.append_assoc, List.singleton_append]

theorem rrCreateTxt_data {name : NLabel} {txts : List Bytes} (hn : txts ≠ []) (ht : ∀ t ∈ txts, t.length ≤ 63) :
    (rrCreateTxt name txts).data = .txt (txts.map createLabel) := by
  obtain ⟨t, txts, rfl⟩ := List.exists_cons_of_ne_nil hn
  obtain ⟨ht', ht⟩ := List.forall_mem_cons.mp ht
  have hc : ([createLabel t] : List (Option Bytes)).head? ≠ some none := by
    simp [createLabel, Nat.not_lt.mpr ht']
  exact congrArg RrData.txt (foldl_rrAddTxt hc ht)

-- Adding records.

-- The daemon with another record.
def Mdnsd.push (svr : Mdnsd) (rr : RrEntry) : Mdnsd :=
  { svr with
    rr    := Function.update svr.rr svr.fresh rr
    fresh := svr.fresh + 1
    group := withRr svr.group rr.name svr.fresh }

theorem mdnsdAddRr_of_le (h : rr.name.headD 0 ≤ 63) : mdnsdAddRr svr rr = .ok (svr.push rr) := by
  rw [mdnsdAddRr, rrGroupAdd_of_le h]
  rfl

-- What the functions which register leave behind if they return.

theorem mdnsdAddRr_eq_ok (h : mdnsdAddRr svr rr = .ok svr') : svr.push rr = svr' := by
  obtain ⟨group, hg, h⟩ := Except.bind_eq_ok_iff.mp h
  cases h
  simp only [Mdnsd.push, rrGroupAdd_eq_ok hg]

theorem serviceRecords_eq_ok {instanceName srvType : Bytes} {port : UInt16} {hostname : Option Bytes}
    {txt : List Bytes} {svrHostname : Option NLabel} {service : Service}
    (h : serviceRecords svrHostname instanceName srvType port hostname txt = .ok service) :
    ∃ nlabel target name services,
      (createLabel instanceName).mapM (joinNlabel · (createNlabel srvType)) = .ok (some nlabel) ∧
      serviceTarget hostname svrHostname = .ok target ∧ dupNlabel nlabel = .ok name ∧
      dupNlabel SERVICES_DNS_SD_NLABEL = .ok services ∧
      { txtE  := if txt = [] then none else some (rrCreateTxt name txt)
        srvE  := rrCreateSrv name port target
        ptrE  := rrCreatePtr (createNlabel srvType) (rrCreateSrv name port target)
        bptrE := rrCreatePtr services (rrCreatePtr (createNlabel srvType) (rrCreateSrv name port target)) } =
        service := by
  obtain ⟨_ | nlabel, hj, h⟩ := Except.bind_eq_ok_iff.mp h
  all_goals obtain ⟨target, ht, h⟩ := Except.bind_eq_ok_iff.mp h
  case none => cases h
  case some =>
    obtain ⟨name, hn, h⟩ := Except.bind_eq_ok_iff.mp h
    obtain ⟨services, hs, h⟩ := Except.bind_eq_ok_iff.mp h
    exact ⟨nlabel, target, name, services, hj, ht, hn, hs, Except.ok.inj h⟩

theorem setHostname_eq_ok {hostname : Bytes} {e : NLabel → RrEntry}
    (h : setHostname svr hostname e type = .ok svr') : svr.hostname = none ∧ ∃ svr₁,
      mdnsdAddRr { svr with hostname := some (createNlabel hostname) } (e (createNlabel hostname)) = .ok svr₁ ∧
        mdnsdAddRr svr₁ (rrCreateNsec (createNlabel hostname) 120 type) = .ok svr' := by
  unfold setHostname at h
  split at h
  case isTrue hn => exact ⟨hn, Except.bind_eq_ok_iff.mp h⟩
  case isFalse   => cases h

theorem addService_eq_ok {service : Service} (h : addService svr service = .ok svr') :
    ∃ svr₁ svr₂ svr₃ svr₄, service.txtE.elim (pure svr) (mdnsdAddRr svr) = .ok svr₁ ∧
      mdnsdAddRr svr₁ service.srvE = .ok svr₂ ∧ mdnsdAddRr svr₂ service.ptrE = .ok svr₃ ∧
      mdnsdAddRr svr₃ service.bptrE = .ok svr₄ ∧ { svr₄ with
        announce := (rrListAppend svr₄.announce svr₂.fresh).1
        services := (rrListAppend svr₄.services svr₂.fresh).1 } = svr' := by
  obtain ⟨svr₁, h₁, h⟩ := Except.bind_eq_ok_iff.mp h
  obtain ⟨svr₂, h₂, h⟩ := Except.bind_eq_ok_iff.mp h
  obtain ⟨svr₃, h₃, h⟩ := Except.bind_eq_ok_iff.mp h
  obtain ⟨svr₄, h₄, h⟩ := Except.bind_eq_ok_iff.mp h
  exact ⟨svr₁, svr₂, svr₃, svr₄, h₁, h₂, h₃, h₄, Except.ok.inj h⟩

theorem lt_of_mem_rrListAppend {l : List Ptr} {q n : Ptr} (hl : ∀ p ∈ l, p < n) (hq : q < n)
    (hp : p ∈ (rrListAppend l q).1) : p < n := by
  rw [rrListAppend_fst] at hp
  rcases Worklist.mem_add.mp hp with hp | rfl
  · exact hl p hp
  · exact hq

theorem rr_push (h : p < svr.fresh) : (svr.push rr).rr p = svr.rr p :=
  Function.update_of_ne h.ne ..

theorem rr_fresh_push : (svr.push rr).rr svr.fresh = rr :=
  Function.update_self ..

theorem places_push : (svr.push rr).places = svr.places ++ [svr.fresh] :=
  List.range_succ

theorem records_push : (svr.push rr).records = svr.records ++ [rr] := by
  have h : svr.places.map (svr.push rr).rr = svr.places.map svr.rr :=
    List.map_congr_left fun p hp => rr_push (mem_places.mp hp)
  rw [Mdnsd.records, places_push, List.map_append, h, List.map_singleton, rr_fresh_push, Mdnsd.records]

theorem filter_push (svr : Mdnsd) (rr : RrEntry) (f : RrEntry → Bool) :
    (svr.push rr).places.filter (fun p => f ((svr.push rr).rr p)) =
      svr.places.filter (fun p => f (svr.rr p)) ++ if f rr then [svr.fresh] else [] := by
  have h : svr.places.filter (fun p => f ((svr.push rr).rr p)) = svr.places.filter fun p => f (svr.rr p) :=
    List.filter_congr fun p hp => by rw [rr_push (mem_places.mp hp)]
  rw [places_push, List.filter_append, h, List.filter_singleton, rr_fresh_push, cond_eq_ite]

namespace Mdnsd.Indexed

theorem start (rr : Ptr → RrEntry) : (mdnsdStart rr).Indexed := by
  constructor
  case group => exact fun _ => rfl
  all_goals exact fun p hp => absurd hp (List.not_mem_nil)

theorem push (h : svr.Indexed) (hn : rr.name.headD 0 ≤ 63) : (svr.push rr).Indexed := by
  constructor
  case names => exact names_withRr h.names hn
  case group =>
    intro name
    have hf := filter_push svr rr fun r => cString name = cString r.name
    rw [hf, ← h.group name]
    have hr : rrOfName (svr.push rr).group name = _ := rrOfName_withRr
    rw [hr]
    by_cases hn : cString name = cString rr.name
    case pos =>
      have hnot : svr.fresh ∉ rrOfName svr.group name := by
        rw [h.group name, List.mem_filter, mem_places]
        exact fun hm => lt_irrefl _ hm.left
      simp [hn, Worklist.add_of_notMem hnot]
    case neg => simp [hn]
  case announce => exact fun p hp => (h.announce p hp).trans (Nat.lt_succ_self _)
  case services => exact fun p hp => (h.services p hp).trans (Nat.lt_succ_self _)

theorem mdnsdAddRr_eq (h : svr.Indexed) (rr : RrEntry) :
    Mdns.mdnsdAddRr svr rr = if rr.name.headD 0 ≤ 63 then .ok (svr.push rr) else .error .abort := by
  split
  case isTrue hn  => exact mdnsdAddRr_of_le hn
  case isFalse hn =>
    rw [Mdns.mdnsdAddRr, rrGroupAdd_of_not_le h.names hn]
    rfl

theorem mdnsdAddRr (h : svr.Indexed) (ha : Mdns.mdnsdAddRr svr rr = .ok svr') : svr'.Indexed := by
  obtain ⟨hn, rfl⟩ := Except.ite_eq_ok_iff.mp (h.mdnsdAddRr_eq rr ▸ ha)
  exact h.push hn

theorem setHostname {hostname : Bytes} {e : NLabel → RrEntry} (h : svr.Indexed)
    (hs : Mdns.setHostname svr hostname e type = .ok svr') : svr'.Indexed := by
  obtain ⟨-, svr₁, h₁, h₂⟩ := setHostname_eq_ok hs
  have h' : Indexed { svr with hostname := some (createNlabel hostname) } := ⟨h.names, h.group, h.announce, h.services⟩
  exact (h'.mdnsdAddRr h₁).mdnsdAddRr h₂

theorem txtE {service : Service} (h : svr.Indexed)
    (hs : service.txtE.elim (pure svr) (Mdns.mdnsdAddRr svr) = .ok svr') : svr'.Indexed := by
  cases ht : service.txtE
  all_goals rw [ht] at hs
  case none    => exact Except.ok.inj hs ▸ h
  case some rr => exact h.mdnsdAddRr hs

theorem addService {service : Service} (h : svr.Indexed) (hs : Mdns.addService svr service = .ok svr') :
    svr'.Indexed := by
  obtain ⟨svr₁, svr₂, svr₃, svr₄, h₁, h₂, h₃, h₄, rfl⟩ := addService_eq_ok hs
  have i := (((h.txtE h₁).mdnsdAddRr h₂).mdnsdAddRr h₃).mdnsdAddRr h₄
  have hlt : svr₂.fresh < svr₄.fresh := by
    rw [← mdnsdAddRr_eq_ok h₄, ← mdnsdAddRr_eq_ok h₃]
    exact Nat.lt_succ_of_lt (Nat.lt_succ_self _)
  exact ⟨i.names, i.group, fun p => lt_of_mem_rrListAppend i.announce hlt,
    fun p => lt_of_mem_rrListAppend i.services hlt⟩

theorem call {c : ServicePublisher.Call} (h : svr.Indexed) (hs : Mdns.call svr c = .ok svr') : svr'.Indexed := by
  cases c
  case setHostname hostname ip =>
    have hs : Mdns.setHostname svr hostname (rrCreateA · ip) RR_A = .ok svr' := hs
    exact h.setHostname hs
  case addRr => exact h.mdnsdAddRr hs
  case registerSvc =>
    obtain ⟨service, _, hs⟩ := Except.bind_eq_ok_iff.mp hs
    exact h.addService hs

theorem calls {cs : List ServicePublisher.Call} (h : svr.Indexed) (hs : Mdns.calls svr cs = .ok svr') :
    svr'.Indexed := by
  induction cs generalizing svr
  case nil =>
    cases hs
    exact h
  case cons c cs hi =>
    obtain ⟨svr₁, hc, hs⟩ := Except.bind_eq_ok_iff.mp hs
    exact hi (h.call hc) hs

end Mdnsd.Indexed

-- Looking for answers.

theorem isAnswer_iff (rr : RrEntry) : IsAnswer name type rr ↔
    ¬(type = RR_ANY ∧ rr.type = RR_NSEC) ∧ (type = rr.type ∨ type = RR_ANY) ∧ cmpNlabel name rr.name := by
  rw [IsAnswer, cmpNlabel_iff]
  by_cases ht : type = rr.type
  case pos =>
    have hn : ¬(type = RR_ANY ∧ rr.type = RR_NSEC) := by
      rintro ⟨hany, hnsec⟩
      exact absurd (hany.symm.trans (ht.trans hnsec)) (by decide)
    simp [ht, ht ▸ hn]
  case neg => grind

theorem populateAnswer_eq (ans : List Ptr × Nat) (p : Ptr) : populateAnswer svr name type ans p =
    if IsAnswer name type (svr.rr p)
    then ((rrListAppend ans.1 p).1, ans.2 + (rrListAppend ans.1 p).2)
    else ans := by
  simp only [isAnswer_iff, populateAnswer]
  split
  case isTrue h  => rw [if_neg fun ha => ha.left h]
  case isFalse h => simp [h]

theorem foldl_populateAnswer (svr : Mdnsd) (name : NLabel) (type : RrType) (l : List Ptr) (ans : List Ptr × Nat) :
    let ans' := l.foldl (populateAnswer svr name type) ans
    ans'.1 = addAll ans.1 (l.filter fun p => IsAnswer name type (svr.rr p)) ∧
      ans'.1.length + ans.2 = ans.1.length + ans'.2 := by
  induction l generalizing ans
  case nil => exact ⟨rfl, rfl⟩
  case cons p l hi =>
    rw [List.foldl_cons, List.filter_cons, populateAnswer_eq]
    by_cases ha : IsAnswer name type (svr.rr p)
    case pos =>
      obtain ⟨hl, hn⟩ := hi ((rrListAppend ans.1 p).1, ans.2 + (rrListAppend ans.1 p).2)
      have ha' := rrListAppend_length ans.1 p
      simp only [ha, if_true, decide_true, Worklist.addAll_cons, ← rrListAppend_fst]
      refine ⟨hl, ?_⟩
      simp only at hn
      omega
    case neg => simpa [ha] using hi ans

theorem populateAnswers_eq (h : svr.Indexed) (rrHead : List Ptr) (name : NLabel) (type : RrType) :
    let ans := populateAnswers svr rrHead name type
    ans.1 = addAll rrHead (svr.answers name type) ∧ ans.1.length = rrHead.length + ans.2 := by
  have hf : svr.answers name type = (rrOfName svr.group name).filter fun p => IsAnswer name type (svr.rr p) := by
    rw [h.group name, List.filter_filter, Mdnsd.answers]
    refine List.filter_congr fun p _ => ?_
    rw [Bool.eq_iff_iff, Bool.and_eq_true, decide_eq_true_iff, decide_eq_true_iff]
    exact (and_iff_left_of_imp And.left).symm
  unfold populateAnswers
  unfold rrOfName at hf
  cases hg : rrGroupFind svr.group name
  case none   => simp [hf, hg]
  case some g =>
    obtain ⟨hl, hn⟩ := foldl_populateAnswer svr name type g.rr (rrHead, 0)
    rw [hf, hg]
    exact ⟨hl, hn⟩

end

def Service.records (service : Service) : List RrEntry :=
  service.txtE.toList ++ [service.srvE, service.ptrE, service.bptrE]

-- What the groups are for: a list of records, in which the answers to a question are found by looking at all
-- of them.
structure Database where
  records  : List RrEntry  := []
  hostname : Option NLabel := none

namespace Database

def answers (db : Database) (name : NLabel) (type : RrType) : List RrEntry :=
  db.records.filter (IsAnswer name type ·)

-- A name whose first label has more than 63 bytes makes the program abort.
def add (db : Database) (rrs : List RrEntry) : Except Fault Database :=
  if ∀ rr ∈ rrs, rr.name.headD 0 ≤ 63
  then .ok { db with records := db.records ++ rrs }
  else .error .abort

def call (db : Database) : ServicePublisher.Call → Except Fault Database
  | .setHostname hostname ip =>
    let nlabel := createNlabel hostname
    if db.hostname = none
    then { db with hostname := some nlabel }.add [rrCreateA nlabel ip, rrCreateNsec nlabel 120 RR_A]
    else .error .abort
  | .addRr name ip => db.add [rrCreateA (createNlabel name) ip]
  | .registerSvc instanceName type port hostname txt => do
    let service ← serviceRecords db.hostname instanceName type port hostname txt
    db.add service.records

theorem add_append (db : Database) (rrs rrs' : List RrEntry) : db.add (rrs ++ rrs') = db.add rrs >>= (·.add rrs') := by
  unfold add
  by_cases h : ∀ rr ∈ rrs, rr.name.headD 0 ≤ 63
  case pos =>
    rw [if_pos h]
    refine (if_congr (List.forall_mem_append.trans (and_iff_right h)) ?_ rfl)
    rw [List.append_assoc]
  case neg =>
    rw [if_neg h, if_neg fun h' => h (List.forall_mem_append.mp h').left]
    rfl

theorem add_of_le {db : Database} {rrs : List RrEntry} (h : ∀ rr ∈ rrs, rr.name.headD 0 ≤ 63) :
    db.add rrs = .ok { db with records := db.records ++ rrs } :=
  if_pos h

end Database

def Mdnsd.database (svr : Mdnsd) : Database where
  records  := svr.records
  hostname := svr.hostname

section

variable {svr : Mdnsd} {rr : RrEntry} {name : NLabel} {type : RrType}

theorem database_mdnsdAddRr (h : svr.Indexed) (rr : RrEntry) :
    Mdnsd.database <$> mdnsdAddRr svr rr = svr.database.add [rr] := by
  rw [h.mdnsdAddRr_eq]
  by_cases hn : rr.name.headD 0 ≤ 63
  case pos =>
    rw [if_pos hn, Database.add_of_le (List.forall_mem_singleton.mpr hn)]
    refine congrArg Except.ok ?_
    simp only [Mdnsd.database, records_push]
    rfl
  case neg =>
    have hn' : ¬∀ r ∈ [rr], r.name.headD 0 ≤ 63 := fun h => hn (h rr (List.mem_singleton_self rr))
    rw [if_neg hn, Database.add, if_neg hn']
    rfl

-- One step of the daemon after another.
theorem database_bind {x : Except Fault Mdnsd} {f : Mdnsd → Except Fault Mdnsd} {y : Except Fault Database}
    {g : Database → Except Fault Database} (hx : Mdnsd.database <$> x = y)
    (hf : ∀ svr, x = .ok svr → Mdnsd.database <$> f svr = g svr.database) :
    Mdnsd.database <$> (x >>= f) = y >>= g := by
  subst hx
  cases x
  case error => rfl
  case ok svr => exact hf svr rfl

theorem database_txtE (h : svr.Indexed) (service : Service) :
    Mdnsd.database <$> service.txtE.elim (pure svr) (mdnsdAddRr svr) = svr.database.add service.txtE.toList := by
  cases service.txtE
  case none =>
    rw [Option.toList_none, Database.add_of_le (by simp), List.append_nil]
    rfl
  case some rr => exact database_mdnsdAddRr h rr

theorem database_addService (h : svr.Indexed) (service : Service) :
    Mdnsd.database <$> addService svr service = svr.database.add service.records := by
  have hr : service.records = service.txtE.toList ++ ([service.srvE] ++ ([service.ptrE] ++ [service.bptrE])) := rfl
  rw [hr, Database.add_append]
  refine database_bind (database_txtE h service) fun svr₁ h₁ => ?_
  have i₁ := h.txtE h₁
  rw [Database.add_append]
  refine database_bind (database_mdnsdAddRr i₁ service.srvE) fun svr₂ h₂ => ?_
  have i₂ := i₁.mdnsdAddRr h₂
  rw [Database.add_append]
  refine database_bind (database_mdnsdAddRr i₂ service.ptrE) fun svr₃ h₃ => ?_
  rw [← database_mdnsdAddRr (i₂.mdnsdAddRr h₃)]
  cases mdnsdAddRr svr₃ service.bptrE <;> rfl

theorem database_setHostname (h : svr.Indexed) (hostname : Bytes) (e : NLabel → RrEntry) (type : RrType) :
    Mdnsd.database <$> setHostname svr hostname e type =
    if svr.hostname = none
    then { svr.database with hostname := some (createNlabel hostname) }.add
      [e (createNlabel hostname), rrCreateNsec (createNlabel hostname) 120 type]
    else .error .abort := by
  unfold setHostname
  split
  case isFalse => rfl
  case isTrue =>
    have i : Mdnsd.Indexed { svr with hostname := some (createNlabel hostname) } :=
      ⟨h.names, h.group, h.announce, h.services⟩
    refine .trans ?_ (Database.add_append _ [_] [_]).symm
    exact database_bind (database_mdnsdAddRr i _) fun svr₁ h₁ => database_mdnsdAddRr (i.mdnsdAddRr h₁) _

theorem database_call (h : svr.Indexed) (c : ServicePublisher.Call) :
    Mdnsd.database <$> call svr c = svr.database.call c := by
  cases c
  case setHostname hostname ip => exact database_setHostname h hostname (rrCreateA · ip) RR_A
  case addRr name ip           => exact database_mdnsdAddRr h _
  case registerSvc instanceName type port hostname txt =>
    have hs : svr.database.hostname = svr.hostname := rfl
    simp only [call, mdnsdRegisterSvc, Database.call, hs]
    cases serviceRecords svr.hostname instanceName type port hostname txt
    case error      => rfl
    case ok service => exact database_addService h service

theorem database_calls (h : svr.Indexed) (cs : List ServicePublisher.Call) :
    Mdnsd.database <$> calls svr cs = cs.foldlM Database.call svr.database := by
  induction cs generalizing svr
  case nil => rfl
  case cons c cs hi =>
    rw [calls, List.foldlM_cons, List.foldlM_cons]
    exact database_bind (database_call h c) fun svr' hc => hi (h.call hc)

theorem map_answers : (svr.answers name type).map svr.rr = svr.database.answers name type := by
  simp only [Database.answers, Mdnsd.database, Mdnsd.records, List.filter_map]
  rfl

-- Memory into which no record has been put.
def blank : Ptr → RrEntry :=
  fun _ => rrCreateA [] 0

end

end Mdns
