import Mathlib.Data.List.TakeDrop

-- The reading end of a stream of `α`s, as a sequence of events.
namespace Stream

-- What a `read` can find: data, of which it takes as much as it asks for, nothing for now, or an error.
-- Empty data is the end of the stream.
inductive Read (α : Type)
  | data (bs : List α)
  | again
  | error
deriving DecidableEq

-- A loop of `read`s which fills a buffer: it has done so, it has failed, or it goes on when all events
-- have happened.
inductive Filled (α : Type)
  | full (bs : List α) (rest : List (Read α))
  | failed (rest : List (Read α))
  | starved
deriving DecidableEq

section

variable {α : Type}

-- The loop, when `n` elements are missing and `acc` is what has been read.
def fill (n : Nat) (acc : List α) : List (Read α) → Filled α
  | []      => if n = 0 then .full acc [] else .starved
  | r :: rs =>
    if n = 0
    then .full acc (r :: rs)
    else
      match r with
      | .again   => fill n acc rs
      | .error   => .failed rs
      | .data bs =>
        if bs = []
        then .failed rs
        else if bs.length ≤ n
        then fill (n - bs.length) (acc ++ bs) rs
        else .full (acc ++ bs.take n) (.data (bs.drop n) :: rs)

-- What the `read`s of the loop return.
def reads (n : Nat) : List (Read α) → List (Read α)
  | []      => []
  | r :: rs =>
    if n = 0
    then []
    else
      match r with
      | .again   => .again :: reads n rs
      | .error   => [.error]
      | .data bs =>
        if bs = []
        then [.data []]
        else if bs.length ≤ n
        then .data bs :: reads (n - bs.length) rs
        else [.data (bs.take n)]

def Read.isAgain : Read α → Bool
  | .again           => true
  | .data _ | .error => false

-- How often there was nothing to read.
def agains (rs : List (Read α)) : Nat :=
  rs.countP Read.isAgain

def Read.content : Read α → List α
  | .data bs        => bs
  | .again | .error => []

-- All data of the events.
def content (rs : List (Read α)) : List α :=
  rs.flatMap Read.content

-- The stream neither ends nor fails.
def Clean (rs : List (Read α)) : Prop :=
  ∀ r ∈ rs, r ≠ .error ∧ r ≠ .data []

instance [DecidableEq α] (rs : List (Read α)) : Decidable (Clean rs) :=
  inferInstanceAs (Decidable (∀ _ ∈ _, _))

@[simp] theorem content_nil : content ([] : List (Read α)) = [] := rfl

@[simp]
theorem content_cons (r : Read α) (rs : List (Read α)) : content (r :: rs) = r.content ++ content rs := by
  simp [content]

theorem clean_cons {r : Read α} {rs : List (Read α)} :
    Clean (r :: rs) ↔ (r ≠ .error ∧ r ≠ .data []) ∧ Clean rs :=
  List.forall_mem_cons

@[simp]
theorem content_append (rs rs' : List (Read α)) : content (rs ++ rs') = content rs ++ content rs' := by
  simp [content]

theorem content_replicate_again (n : Nat) : content (List.replicate n (.again : Read α)) = [] := by
  simp [content, Read.content]

theorem agains_replicate_again (n : Nat) : agains (List.replicate n (.again : Read α)) = n := by
  simp [agains, List.countP_replicate, Read.isAgain]

theorem agains_append (rs rs' : List (Read α)) : agains (rs ++ rs') = agains rs + agains rs' :=
  List.countP_append

theorem Clean.append_again {rs : List (Read α)} (h : Clean rs) (n : Nat) :
    Clean (rs ++ List.replicate n .again) := by
  intro r hr
  rcases List.mem_append.mp hr with hr | hr
  · exact h r hr
  · rw [List.eq_of_mem_replicate hr]
    simp

variable {n : Nat} {acc bs : List α} {rs rest : List (Read α)}

@[simp]
theorem fill_zero : fill 0 acc rs = .full acc rs := by
  cases rs <;> rfl

-- A full buffer holds the next `n` elements of the stream.
theorem fill_full (h : fill n acc rs = .full bs rest) :
    ∃ cs, bs = acc ++ cs ∧ cs.length = n ∧ content rs = cs ++ content rest := by
  induction rs generalizing n acc
  case nil =>
    unfold fill at h
    split at h <;> cases h
    exact ⟨[], by simp [*]⟩
  case cons r rs hi =>
    unfold fill at h
    split at h
    case isTrue hn =>
      cases h
      exact ⟨[], by simp [*]⟩
    case isFalse hn =>
      cases r <;> simp only [reduceCtorEq] at h
      case again => exact hi h
      case data ds =>
        split at h
        case isTrue => cases h
        case isFalse =>
          split at h
          case isTrue hle =>
            obtain ⟨cs, rfl, hl, hc⟩ := hi h
            exact ⟨ds ++ cs, by simp, by simp; omega, by simp [Read.content, hc]⟩
          case isFalse hlt =>
            cases h
            refine ⟨ds.take n, rfl, by simp; omega, ?_⟩
            simp [Read.content, ← List.append_assoc]

-- A buffer is filled as soon as the stream holds enough.
theorem fill_of_clean (hc : Clean rs) (hn : n ≤ (content rs).length) :
    ∃ rest, fill n acc rs = .full (acc ++ (content rs).take n) rest ∧ Clean rest := by
  induction rs generalizing n acc
  case nil =>
    obtain rfl : n = 0 := by simpa using hn
    exact ⟨[], by simp, hc⟩
  case cons r rs hi =>
    unfold fill
    split
    case isTrue hz => exact ⟨r :: rs, by simp [hz], hc⟩
    case isFalse hz =>
      obtain ⟨⟨he, hd⟩, hrs⟩ := clean_cons.mp hc
      cases r
      case error => exact absurd rfl he
      case again => exact hi hrs (by simpa [Read.content] using hn)
      case data ds =>
        have hne : ds ≠ [] := by simpa using hd
        simp only [content_cons, Read.content, List.length_append] at hn
        simp only [hne, if_false]
        split
        case isTrue hle =>
          have ⟨rest, hf, hr⟩ : ∃ rest, fill (n - ds.length) (acc ++ ds) rs =
              .full (acc ++ ds ++ (content rs).take (n - ds.length)) rest ∧ Clean rest :=
            hi hrs (by omega)
          exact ⟨rest, by simp [hf, Read.content, List.take_append, List.take_of_length_le hle], hr⟩
        case isFalse hlt =>
          have hdrop : ds.drop n ≠ [] := by simpa using hlt
          refine ⟨.data (ds.drop n) :: rs, ?_, clean_cons.mpr ⟨⟨nofun, by simpa using hdrop⟩, hrs⟩⟩
          simp [Read.content, List.take_append, show n - ds.length = 0 by omega]

theorem fill_starved (hc : Clean rs) (hn : (content rs).length < n) : fill n acc rs = .starved := by
  induction rs generalizing n acc
  case nil =>
    unfold fill
    simp [show n ≠ 0 by simp at hn; omega]
  case cons r rs hi =>
    have hz : n ≠ 0 := by omega
    obtain ⟨⟨he, hd⟩, hrs⟩ := clean_cons.mp hc
    unfold fill
    cases r
    case error => exact absurd rfl he
    case again => simpa [hz] using hi hrs (by simpa [Read.content] using hn)
    case data ds =>
      have hne : ds ≠ [] := by simpa using hd
      simp only [content_cons, Read.content, List.length_append] at hn
      simpa [hz, hne, show ds.length ≤ n by omega] using hi hrs (by omega)

-- The same for a loop which starts with an empty buffer.
theorem full_of_fill (h : fill n [] rs = .full bs rest) :
    bs.length = n ∧ content rs = bs ++ content rest := by
  obtain ⟨cs, rfl, hl, hc⟩ := fill_full h
  exact ⟨hl, hc⟩

theorem fill_append {cs : List α} (hc : Clean rs) (h : content rs = bs ++ cs) :
    ∃ rest, fill bs.length [] rs = .full bs rest ∧ Clean rest ∧ content rest = cs := by
  have ⟨rest, hf, hr⟩ : ∃ rest, fill bs.length [] rs = .full ([] ++ (content rs).take bs.length) rest ∧
      Clean rest := fill_of_clean hc (by simp [h])
  rw [h, List.nil_append, List.take_left] at hf
  exact ⟨rest, hf, hr, List.append_cancel_left <| (full_of_fill hf).right.symm.trans h⟩

-- Every `read` but the last returns data, or has found nothing.
theorem reads_length_le : (reads n rs).length ≤ (content (reads n rs)).length + agains (reads n rs) + 1 := by
  induction rs generalizing n
  case nil => simp [reads]
  case cons r rs hi =>
    unfold reads
    split
    case isTrue => simp
    case isFalse =>
      cases r
      case again =>
        have := hi (n := n)
        simp only [agains, content_cons, Read.content, List.nil_append, List.length_cons,
          List.countP_cons_of_pos (p := Read.isAgain) (a := .again) rfl] at this ⊢
        omega
      case error => simp
      case data ds =>
        dsimp only
        split
        case isTrue => simp
        case isFalse hne =>
          split
          case isTrue =>
            have hpos := List.length_pos_iff.mpr hne
            have := hi (n := n - ds.length)
            simp only [agains, content_cons, Read.content, List.length_append, List.length_cons,
              List.countP_cons_of_neg (p := Read.isAgain) (a := .data ds) nofun] at this ⊢
            omega
          case isFalse => simp

-- The `read`s of a full buffer have returned what it holds.
theorem content_reads_of_full (h : fill n acc rs = .full bs rest) : bs = acc ++ content (reads n rs) := by
  induction rs generalizing n acc
  case nil =>
    unfold fill at h
    split at h <;> cases h
    simp [reads]
  case cons r rs hi =>
    unfold fill at h
    unfold reads
    split at h
    case isTrue hn =>
      cases h
      simp [hn]
    case isFalse hn =>
      cases r <;> simp only [reduceCtorEq] at h
      case again => simpa [hn, Read.content] using hi h
      case data ds =>
        split at h
        case isTrue => cases h
        case isFalse hne =>
          split at h
          case isTrue hle  => simpa [hn, hne, hle, Read.content] using hi h
          case isFalse hle =>
            cases h
            simp [hn, hne, hle, Read.content]

theorem reads_replicate_again (h : n ≠ 0) (k : Nat) :
    reads n (List.replicate k (.again : Read α)) = List.replicate k .again := by
  induction k
  case zero      => rfl
  case succ k hi => simp [List.replicate_succ, reads, h, hi]

end

end Stream
