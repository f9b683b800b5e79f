import Mathlib.Data.List.Basic
import Mathlib.Tactic.Linarith

-- A label of a domain name. It is not empty, and its length leaves the two upper bits of a byte free.
structure Label where
  bytes     : List UInt8
  ne_nil    : bytes ≠ []
  length_le : bytes.length ≤ 63
  nonzero   : 0 ∉ bytes
deriving DecidableEq

namespace Label

-- The length of the label and its bytes.
def wire (l : Label) : List UInt8 :=
  .ofNat l.bytes.length :: l.bytes

variable (l : Label)

@[simp]
theorem wire_length : l.wire.length = l.bytes.length + 1 :=
  rfl

theorem toNat_length : (UInt8.ofNat l.bytes.length).toNat = l.bytes.length := by
  have := l.length_le
  rw [UInt8.toNat_ofNat', Nat.mod_eq_of_lt (by omega)]

theorem length_pos : 0 < l.bytes.length :=
  List.length_pos_iff.mpr l.ne_nil

theorem ofNat_length_ne_zero : UInt8.ofNat l.bytes.length ≠ 0 := by
  intro h
  have hl := l.toNat_length
  rw [h] at hl
  exact l.length_pos.ne hl

theorem zero_notMem_wire : 0 ∉ l.wire := by
  rw [wire, List.mem_cons, not_or]
  exact ⟨l.ofNat_length_ne_zero.symm, l.nonzero⟩

variable {l} {l' : Label} {bs bs' : List UInt8}

-- The length says where a label ends.
theorem wire_append_inj (h : l.wire ++ bs = l'.wire ++ bs') : l = l' ∧ bs = bs' := by
  obtain ⟨hl, h⟩ := List.cons_eq_cons.mp h
  have hl : l.bytes.length = l'.bytes.length := by rw [← toNat_length, hl, toNat_length]
  obtain ⟨hb, hr⟩ := List.append_inj h hl
  cases l
  cases l'
  cases hb
  exact ⟨rfl, hr⟩

end Label

-- A domain name, from its first label to the last one before the root.
abbrev DomainName := List Label

namespace DomainName

-- The name without the length zero of the root.
def wire (n : DomainName) : List UInt8 :=
  n.flatMap Label.wire

@[simp]
theorem wire_nil : wire [] = [] :=
  rfl

@[simp]
theorem wire_cons (l : Label) (n : DomainName) : wire (l :: n) = l.wire ++ wire n :=
  rfl

@[simp]
theorem wire_append (n n' : DomainName) : wire (n ++ n') = wire n ++ wire n' :=
  List.flatMap_append

theorem zero_notMem_wire (n : DomainName) : 0 ∉ wire n := by
  simp only [wire, List.mem_flatMap, not_exists, not_and]
  exact fun l _ => l.zero_notMem_wire

@[simp]
theorem wire_eq_nil_iff {n : DomainName} : wire n = [] ↔ n = [] := by
  cases n <;> simp [Label.wire]

theorem wire_inj {n n' : DomainName} : wire n = wire n' ↔ n = n' := by
  refine ⟨fun h => ?_, congrArg _⟩
  induction n generalizing n'
  case nil => exact (wire_eq_nil_iff.mp h.symm).symm
  case cons l n hi =>
    cases n'
    case nil => exact absurd h (by simp [Label.wire])
    case cons l' n' =>
      rw [wire_cons, wire_cons] at h
      have ⟨hl, h⟩ := Label.wire_append_inj h
      rw [hl, hi h]

-- The name as a text: its labels with dots between them.
def text : DomainName → List UInt8
  | []      => []
  | [l]     => l.bytes
  | l :: n  => l.bytes ++ 46 :: text n

-- No label contains a dot.
def Dotless (n : DomainName) : Prop :=
  ∀ l ∈ n, 46 ∉ l.bytes

instance (n : DomainName) : Decidable n.Dotless :=
  inferInstanceAs (Decidable (∀ l ∈ n, 46 ∉ l.bytes))

-- The memory `m` holds `bs` from `p` on.
def Holds (m : Nat → UInt8) : Nat → List UInt8 → Prop
  | _, []      => True
  | p, b :: bs => m p = b ∧ Holds m (p + 1) bs

variable {m : Nat → UInt8} {p e : Nat} {bs bs' : List UInt8} {l : Label} {n n' : DomainName}

theorem holds_append : Holds m p (bs ++ bs') ↔ Holds m p bs ∧ Holds m (p + bs.length) bs' := by
  induction bs generalizing p
  case nil          => simp [Holds]
  case cons b bs hi => simp [Holds, hi, and_assoc, ← Nat.add_assoc, Nat.add_right_comm]

theorem holds_iff : Holds m p bs ↔ ∀ i (h : i < bs.length), m (p + i) = bs[i] := by
  induction bs generalizing p
  case nil => simp [Holds]
  case cons b bs hi =>
    rw [Holds, hi]
    constructor
    case mp =>
      rintro ⟨hb, hbs⟩ i hi
      cases i
      case zero   => exact hb
      case succ i => simpa [Nat.add_right_comm, Nat.add_assoc] using hbs i (Nat.lt_of_succ_lt_succ hi)
    case mpr =>
      intro h
      refine ⟨h 0 (by simp), fun i hi => ?_⟩
      simpa [Nat.add_right_comm, Nat.add_assoc] using h (i + 1) (Nat.succ_lt_succ hi)

theorem text_cons (hn : n ≠ []) : text (l :: n) = l.bytes ++ 46 :: text n := by
  cases n
  case nil  => exact absurd rfl hn
  case cons => rfl

theorem text_ne_nil (hn : n ≠ []) : text n ≠ [] := by
  cases n
  case nil => exact absurd rfl hn
  case cons l n =>
    cases n
    case nil  => exact l.ne_nil
    case cons => exact List.append_ne_nil_of_left_ne_nil l.ne_nil _

-- The two upper bits of a length mark a pointer, whose other bits are the place to which it points.
def IsPointer (b : UInt8) : Prop :=
  b &&& 0xC0 = 0xC0

instance (b : UInt8) : Decidable (IsPointer b) :=
  inferInstanceAs (Decidable (_ = _))

def target (hi lo : UInt8) : Nat :=
  (hi &&& ~~~0xC0).toNat * 256 + lo.toNat

theorem not_isPointer (l : Label) : ¬IsPointer (.ofNat l.bytes.length) := by
  have h : ∀ n < 64, ¬IsPointer (.ofNat n) := by decide
  exact h _ (Nat.lt_succ_of_le l.length_le)

theorem isPointer_ne_zero {b : UInt8} (h : IsPointer b) : b ≠ 0 := by
  rintro rfl
  exact absurd h (by decide)

-- A reader which starts at `p` finds the name `n` before `e`. A pointer takes it to a label.
inductive Reads (m : Nat → UInt8) (e : Nat) : Nat → DomainName → Prop
  | root {p : Nat} : m p = 0 → Reads m e p []
  | label {p : Nat} {l : Label} {n : DomainName} :
    p < e → Holds m p l.wire → Reads m e (p + l.wire.length) n → Reads m e p (l :: n)
  | pointer {p q : Nat} {l : Label} {n : DomainName} :
    p < e → IsPointer (m p) → target (m p) (m (p + 1)) = q → Holds m q l.wire →
    Reads m e (q + l.wire.length) n → Reads m e p (l :: n)

namespace Reads

theorem mono {e' : Nat} (h : Reads m e p n) (he : e ≤ e') : Reads m e' p n := by
  induction h
  case root hp                   => exact .root hp
  case label hp hl _ hi          => exact .label (hp.trans_le he) hl hi
  case pointer hp hi ht hl _ ih  => exact .pointer (hp.trans_le he) hi ht hl ih

-- What is found does not depend on how it is looked at.
theorem unique (h : Reads m e p n) (h' : Reads m e p n') : n = n' := by
  have hlabel {p : Nat} {l l' : Label} (hl : Holds m p l.wire) (hl' : Holds m p l'.wire) : l = l' := by
    have hb : l.bytes.length = l'.bytes.length := by rw [← l.toNat_length, ← hl.1, hl'.1, l'.toNat_length]
    have hw : l.wire = l'.wire := by
      refine List.ext_getElem (by simp [hb]) fun i hi hi' => ?_
      rw [← holds_iff.mp hl i hi, holds_iff.mp hl' i hi']
    exact (Label.wire_append_inj (congrArg (· ++ []) hw)).left
  induction h generalizing n'
  case root p hp =>
    cases h'
    case root                  => rfl
    case label l _ _ hl _      => exact absurd (hl.1.symm.trans hp) l.ofNat_length_ne_zero
    case pointer hi _          => exact absurd hp (isPointer_ne_zero hi)
  case label p l n _ hl _ ih =>
    cases h'
    case root hp              => exact absurd (hl.1.symm.trans hp) l.ofNat_length_ne_zero
    case label l' n' _ hl' hn =>
      cases hlabel hl hl'
      rw [ih hn]
    case pointer hi _         => exact absurd (hl.1 ▸ hi) (not_isPointer l)
  case pointer p q l n _ hi ht hl _ ih =>
    cases h'
    case root hp              => exact absurd hp (isPointer_ne_zero hi)
    case label l' n' _ hl' hn => exact absurd (hl'.1 ▸ hi) (not_isPointer l')
    case pointer q' l' n' hl' hn _ _ ht' =>
      cases ht.symm.trans ht'
      cases hlabel hl hl'
      rw [ih hn]

end Reads

end DomainName
