import LightningCast.Json.Theorems.Strings
import LightningCast.Json.Theorems.Numbers
import Mathlib.Data.List.DropRight

namespace Json

open Reader

section

variable {c : UInt8} {ws t cs rest current current' name name' s : Bytes} {type : TokenType} {token : Token}

theorem ends_cons (hd : ¬isDigit c) (hc : char c ≠ '.' ∧ char c ≠ 'e' ∧ char c ≠ 'E') : Ends (c :: cs) := by
  rintro b ⟨⟩
  exact ⟨hd, hc⟩

theorem ends_arrayEnd (rest : Bytes) : Ends (ascii "]" ++ rest) :=
  ends_cons (by decide) (by decide)

theorem ends_objectEnd (rest : Bytes) : Ends (ascii "\x7d" ++ rest) :=
  ends_cons (by decide) (by decide)

theorem ends_arraySeparator (rest : Bytes) : Ends (ascii "," ++ rest) :=
  ends_cons (by decide) (by decide)

theorem spaces_nil : Spaces [] :=
  fun _ hb => absurd hb List.not_mem_nil

theorem ends_spaces (hw : Spaces ws) (hr : Ends rest) : Ends (ws ++ rest) := by
  have hs : ∀ b, isSpace b → ¬isDigit b ∧ char b ≠ '.' ∧ char b ≠ 'e' ∧ char b ≠ 'E' := by
    intro b hb
    rcases of_decide_eq_true hb with hb | hb | hb | hb
    all_goals
      rw [isDigit, hb]
      decide
  cases ws
  case nil       => exact hr
  case cons b ws =>
    rintro b ⟨⟩
    exact hs b (hw b (List.mem_cons_self ..))

theorem skipSpaces_append (hw : Spaces ws) : skipSpaces (ws ++ cs) = skipSpaces cs :=
  List.dropWhile_append_of_pos hw

theorem skipSpaces_cons (hs : ¬isSpace c) : skipSpaces (c :: cs) = c :: cs :=
  List.dropWhile_cons_of_neg hs

-- The tokens.

theorem readToken_spaces (hw : Spaces ws) : readToken (ws ++ cs) = readToken cs := by
  rw [readToken, skipSpaces_append hw, ← readToken]

theorem readToken_cons (hs : ¬isSpace c) (ht : tokenType c (t ++ rest) = (type, rest)) :
    readToken (c :: t ++ rest) = ({ type, text := c :: t }, rest) := by
  have hl : (t ++ rest).length + 1 - rest.length = (c :: t).length := by
    simp only [List.length_append, List.length_cons]
    omega
  rw [readToken, List.cons_append, skipSpaces_cons hs]
  simp only [ht, hl, ← List.cons_append, List.take_left]

theorem not_isSpace_of_isDigit (hd : isDigit c) : ¬isSpace c := by
  intro hs
  rcases of_decide_eq_true hs with hs | hs | hs | hs
  all_goals exact ne_of_isDigit hd (by decide) hs

theorem head_of_numeral (hn : Numeral t) : ∃ c cs, t = c :: cs ∧ (isDigit c ∨ char c = '-') := by
  obtain ⟨rfl | rfl, ⟨hne, hd⟩, -, -⟩ := hn
  · obtain ⟨d, ds, rfl⟩ := List.exists_cons_of_ne_nil hne
    exact ⟨d, _, rfl, .inl (hd d (List.mem_cons_self ..))⟩
  · exact ⟨_, _, rfl, .inr rfl⟩

theorem readToken_numeral (hn : Numeral t) (hr : Ends rest) :
    readToken (t ++ rest) = ({ type := .tokenNumber, text := t }, rest) := by
  obtain ⟨c, cs, rfl, hc⟩ := head_of_numeral hn
  refine readToken_cons ?_ (tokenType_of_numeral hn hr)
  rcases hc with hd | hc
  · exact not_isSpace_of_isDigit hd
  · rw [isSpace, hc]
    decide

theorem matchPattern_append (pattern : String) : matchPattern pattern (ascii pattern ++ rest) = (true, rest) := by
  have hl : (ascii pattern).length = pattern.length := List.length_map ..
  rw [matchPattern, if_pos (List.prefix_append ..), ← hl, List.drop_left]

theorem readToken_quoted (hq : Quoted t s) (rest : Bytes) :
    readToken (t ++ rest) = ({ type := .tokenString, text := t }, rest) := by
  obtain ⟨t', hc, rfl⟩ := hq
  refine readToken_cons (t := t' ++ ascii "\"") (by decide) ?_
  have ht : tokenType 34 (t' ++ ascii "\"" ++ rest) =
    checked .tokenString (readString (t' ++ ascii "\"" ++ rest)) := rfl
  rw [List.append_assoc, readString_of_chars hc] at ht
  rw [List.append_assoc]
  exact ht

theorem readToken_word (pattern : String) (hs : ¬isSpace c)
    (ht : tokenType c (ascii pattern ++ rest) = checked type (matchPattern pattern (ascii pattern ++ rest))) :
    readToken (c :: ascii pattern ++ rest) = ({ type, text := c :: ascii pattern }, rest) := by
  rw [matchPattern_append] at ht
  exact readToken_cons hs ht

theorem readToken_null (rest : Bytes) :
    readToken (ascii "null" ++ rest) = ({ type := .tokenNull, text := ascii "null" }, rest) :=
  readToken_word "ull" (by decide) rfl

theorem readToken_true (rest : Bytes) :
    readToken (ascii "true" ++ rest) = ({ type := .tokenTrue, text := ascii "true" }, rest) :=
  readToken_word "rue" (by decide) rfl

theorem readToken_false (rest : Bytes) :
    readToken (ascii "false" ++ rest) = ({ type := .tokenFalse, text := ascii "false" }, rest) :=
  readToken_word "alse" (by decide) rfl

theorem readToken_arrayBegin (rest : Bytes) :
    readToken (ascii "[" ++ rest) = ({ type := .tokenArrayBegin, text := ascii "[" }, rest) :=
  readToken_cons (t := []) (by decide) rfl

theorem readToken_arrayEnd (rest : Bytes) :
    readToken (ascii "]" ++ rest) = ({ type := .tokenArrayEnd, text := ascii "]" }, rest) :=
  readToken_cons (t := []) (by decide) rfl

theorem readToken_objectBegin (rest : Bytes) :
    readToken (ascii "\x7b" ++ rest) = ({ type := .tokenObjectBegin, text := ascii "\x7b" }, rest) :=
  readToken_cons (t := []) (by decide) rfl

theorem readToken_objectEnd (rest : Bytes) :
    readToken (ascii "\x7d" ++ rest) = ({ type := .tokenObjectEnd, text := ascii "\x7d" }, rest) :=
  readToken_cons (t := []) (by decide) rfl

theorem readToken_arraySeparator (rest : Bytes) :
    readToken (ascii "," ++ rest) = ({ type := .tokenArraySeparator, text := ascii "," }, rest) :=
  readToken_cons (t := []) (by decide) rfl

theorem readToken_memberSeparator (rest : Bytes) :
    readToken (ascii ":" ++ rest) = ({ type := .tokenMemberSeparator, text := ascii ":" }, rest) :=
  readToken_cons (t := []) (by decide) rfl

theorem readTokenSkippingComments_eq (ht : readToken current = (token, rest)) (hc : token.type ≠ .tokenComment) :
    readTokenSkippingComments current = (token, rest) := by
  rw [readTokenSkippingComments, ht, if_neg hc]

end

-- `reader` finds the values of their texts.
def Reader.ValueReader.Reads (reader : ValueReader) (text : Value → Bytes → Prop) : Prop :=
  ∀ {v t ws rest}, text v t → Spaces ws → Ends rest → reader.run (ws ++ (t ++ rest)) = .ok (some v.stored, rest)

-- It makes no difference to `reader` whether spaces have been skipped.
def Reader.ValueReader.Skips (reader : ValueReader) : Prop :=
  ∀ current, reader.run (skipSpaces current) = reader.run current

-- No text of a value begins with a space, or with what ends an array.
def Starts (text : Value → Bytes → Prop) : Prop :=
  ∀ {v t}, text v t → ∃ c cs, t = c :: cs ∧ ¬isSpace c ∧ char c ≠ ']'

section

variable {nested : ValueReader} {text : Value → Bytes → Prop} {v : Value} {vs vs' : List Value} {m : Bytes × Value}
  {ms ms' : List (Bytes × Value)} {ws q t ts rest current current' name name' : Bytes} {token : Token}

theorem readElements_last (hv : nested.run current = .ok (some v, current'))
    (ht : readToken current' = ({ type := .tokenArrayEnd, text := t }, rest)) :
    readElements nested vs current = .ok (some (.array (vs ++ [v])), rest) := by
  rw [readElements]
  split
  case h_1 h => cases hv.symm.trans h
  case h_2 h => cases hv.symm.trans h
  case h_3 h =>
    cases hv.symm.trans h
    rw [readTokenSkippingComments_eq ht (by simp)]
    rfl

theorem readElements_next (hv : nested.run current = .ok (some v, current'))
    (ht : readToken current' = ({ type := .tokenArraySeparator, text := t }, rest)) :
    readElements nested vs current = readElements nested (vs ++ [v]) rest := by
  rw [readElements]
  split
  case h_1 h => cases hv.symm.trans h
  case h_2 h => cases hv.symm.trans h
  case h_3 h =>
    cases hv.symm.trans h
    rw [readTokenSkippingComments_eq ht (by simp)]
    rfl

theorem readElements_of_elements (hn : nested.Reads text) (he : Elements text vs ts) :
    readElements nested vs' (ts ++ (ascii "]" ++ rest)) = .ok (some (.array (vs' ++ vs.map .stored)), rest) := by
  induction he generalizing vs'
  case last hw ht hw' =>
    have hv := hn ht hw (ends_spaces hw' (ends_arrayEnd rest))
    rw [List.append_assoc, List.append_assoc]
    exact readElements_last hv ((readToken_spaces hw').trans (readToken_arrayEnd rest))
  case cons v vs ws t ws' ts hw ht hw' _ hi =>
    have hv := hn ht hw (ends_spaces hw' (ends_arraySeparator (ts ++ (ascii "]" ++ rest))))
    simp only [List.append_assoc]
    rw [readElements_next hv ((readToken_spaces hw').trans (readToken_arraySeparator _)), hi, List.append_assoc]
    rfl

-- `readArray` looks at the first byte of its first element before it reads the array.
theorem head_of_elements (hs : Starts text) (he : Elements text vs ts) :
    ((skipSpaces (ts ++ rest)).head?.map char) ≠ some ']' := by
  have hh {ws t cs : Bytes} {v : Value} (hw : Spaces ws) (ht : text v t) :
      ((skipSpaces (ws ++ (t ++ cs))).head?.map char) ≠ some ']' := by
    obtain ⟨c, t, rfl, hc, hb⟩ := hs ht
    have hk : skipSpaces (ws ++ (c :: t ++ cs)) = c :: (t ++ cs) := (skipSpaces_append hw).trans (skipSpaces_cons hc)
    rw [hk]
    exact fun h => hb (Option.some.inj h)
  cases he
  case last hw ht _ =>
    rw [List.append_assoc, List.append_assoc]
    exact hh hw ht
  case cons hw ht _ _ =>
    simp only [List.append_assoc]
    exact hh hw ht

theorem readArray_eq (hk : nested.Skips) (hs : Starts text) (he : Elements text vs ts) :
    readArray nested (ts ++ rest) = readElements nested [] (ts ++ rest) := by
  rw [readArray, if_neg (head_of_elements hs he), readElements, readElements, hk]

theorem readArray_nil (hw : Spaces ws) :
    readArray nested (ws ++ (ascii "]" ++ rest)) = .ok (some (.array []), rest) := by
  have hs : skipSpaces (ws ++ (ascii "]" ++ rest)) = ascii "]" ++ rest :=
    (skipSpaces_append hw).trans (skipSpaces_cons (by decide))
  rw [readArray, hs, readToken_arrayEnd]
  rfl

-- What `readMembers` does when the value of a member has been read, or could not be read.
theorem readMembers_member (hl : name'.length < 2 ^ 30) (hw : Spaces ws) (hq : Quoted q name') (hw' : Spaces ws') :
    (∀ {e}, nested.run current = .error e →
      readMembers nested name ms (ws ++ (q ++ (ws' ++ (ascii ":" ++ current)))) = .error e) ∧
    (∀ {v current' token rest}, nested.run current = .ok (some v, current') →
      readTokenSkippingComments current' = (token, rest) →
      readMembers nested name ms (ws ++ (q ++ (ws' ++ (ascii ":" ++ current)))) =
        if token.type = .tokenObjectEnd then .ok (some (.object (Value.setMember name' v ms)), rest)
        else if token.type = .tokenArraySeparator then readMembers nested name' (Value.setMember name' v ms) rest
        else .ok (none, recoverFromError .tokenObjectEnd rest)) := by
  have hname := (readToken_spaces hw).trans (readToken_quoted hq (ws' ++ (ascii ":" ++ current)))
  have hname := readTokenSkippingComments_eq hname (by simp)
  have hcolon := (readToken_spaces hw').trans (readToken_memberSeparator current)
  have hz : Value.czString name' = name' := by
    rw [Value.czString, Nat.mod_eq_of_lt hl, List.take_length]
  constructor
  all_goals
    intro
    rw [readMembers, hname]
    simp only [decodeString_of_quoted hq, hcolon]
    rw [if_neg (by simp), if_neg (by simp), if_neg (by simp)]
  case left e =>
    intro hv
    have hv := (congrArg nested.run (congrArg Prod.snd hcolon)).trans hv
    split
    case h_1 h => exact h.symm.trans hv
    all_goals
      rename_i h
      cases hv.symm.trans h
  case right v =>
    intro current' token rest hv ht
    have hv := (congrArg nested.run (congrArg Prod.snd hcolon)).trans hv
    split
    case h_3 h =>
      cases hv.symm.trans h
      rw [ht, hz]
    all_goals
      rename_i h
      cases hv.symm.trans h

theorem readMembers_last (hn : nested.Reads text) (hm : Member text m t) :
    readMembers nested name ms (t ++ (ascii "\x7d" ++ rest)) =
      .ok (some (.object (Value.setMember m.1 m.2.stored ms)), rest) := by
  obtain ⟨hl, hw, hq, hw', hw'', ht, hw'''⟩ := hm
  have hv := hn ht hw'' (ends_spaces hw''' (ends_objectEnd rest))
  have he := (readToken_spaces hw''').trans (readToken_objectEnd rest)
  simp only [List.append_assoc]
  exact (readMembers_member hl hw hq hw').right hv (readTokenSkippingComments_eq he (by simp))

theorem readMembers_next (hn : nested.Reads text) (hm : Member text m t) :
    readMembers nested name ms (t ++ (ascii "," ++ rest)) =
      readMembers nested m.1 (Value.setMember m.1 m.2.stored ms) rest := by
  obtain ⟨hl, hw, hq, hw', hw'', ht, hw'''⟩ := hm
  have hv := hn ht hw'' (ends_spaces hw''' (ends_arraySeparator rest))
  have he := (readToken_spaces hw''').trans (readToken_arraySeparator rest)
  simp only [List.append_assoc]
  exact (readMembers_member hl hw hq hw').right hv (readTokenSkippingComments_eq he (by simp))

theorem readMembers_of_members (hn : nested.Reads text) (hm : Members text ms ts) :
    readMembers nested name ms' (ts ++ (ascii "\x7d" ++ rest)) =
      .ok (some (.object
        ((ms.map fun m => (m.1, m.2.stored)).foldl (fun ms m => Value.setMember m.1 m.2 ms) ms')), rest) := by
  induction hm generalizing name ms'
  case last hm      => exact readMembers_last hn hm
  case cons hm _ hi =>
    rw [List.append_assoc, List.append_assoc]
    exact (readMembers_next hn hm).trans hi

theorem readMembers_nil (hw : Spaces ws) :
    readMembers nested [] ms (ws ++ (ascii "\x7d" ++ rest)) = .ok (some (.object ms), rest) := by
  have ht := (readToken_spaces hw).trans (readToken_objectEnd rest)
  rw [readMembers, readTokenSkippingComments_eq ht (by simp)]
  rfl

end

-- What `readValue` does with the first token of a value.

section

variable {decodeDouble : Bytes → Option Double} {nested : ValueReader} {text : Value → Bytes → Prop} {v : Value}
  {ws t rest : Bytes} {n : Nat}

theorem starts_node : Starts (Node decodeDouble text) := by
  intro v t ht
  cases ht
  case number hn =>
    obtain ⟨c, cs, rfl, hc⟩ := head_of_numeral (numeral_of_number hn)
    refine ⟨c, cs, rfl, ?_⟩
    rcases hc with hd | hc
    · exact ⟨not_isSpace_of_isDigit hd, ne_of_isDigit hd (by decide)⟩
    · rw [isSpace, hc]
      decide
  case string hq =>
    obtain ⟨t', -, rfl⟩ := hq
    exact ⟨_, _, rfl, by decide⟩
  all_goals exact ⟨_, _, rfl, by decide⟩

theorem readTokenSkippingComments_spaces {token : Token} (hw : Spaces ws) (ht : readToken t = (token, rest))
    (hc : token.type ≠ .tokenComment) : readTokenSkippingComments (ws ++ t) = (token, rest) :=
  readTokenSkippingComments_eq ((readToken_spaces hw).trans ht) hc

theorem readToValue_array (hw : Spaces ws) :
    readToValue decodeDouble nested (ws ++ (ascii "[" ++ rest)) = readArray nested rest := by
  rw [readToValue, readTokenSkippingComments_spaces hw (readToken_arrayBegin rest) (by simp)]

theorem readToValue_object (hw : Spaces ws) :
    readToValue decodeDouble nested (ws ++ (ascii "\x7b" ++ rest)) = readObject nested rest := by
  rw [readToValue, readTokenSkippingComments_spaces hw (readToken_objectBegin rest) (by simp)]

theorem stored_of_number (hv : Number decodeDouble t v) : v.stored = v := by
  cases hv
  all_goals rw [Value.stored]

theorem readToValue_of_node (hn : nested.Reads text) (hk : nested.Skips) (hs : Starts text)
    (ht : Node decodeDouble text v t) (hw : Spaces ws) (hr : Ends rest) :
    readToValue decodeDouble nested (ws ++ (t ++ rest)) = .ok (some v.stored, rest) := by
  cases ht
  case null =>
    rw [readToValue, readTokenSkippingComments_spaces hw (readToken_null rest) (by simp), Value.stored]
  case true =>
    rw [readToValue, readTokenSkippingComments_spaces hw (readToken_true rest) (by simp), Value.stored]
  case false =>
    rw [readToValue, readTokenSkippingComments_spaces hw (readToken_false rest) (by simp), Value.stored]
  case number hv =>
    have ht := readToken_numeral (numeral_of_number hv) hr
    rw [readToValue, readTokenSkippingComments_spaces hw ht (by simp), stored_of_number hv]
    exact congrArg (fun v => Except.ok (v, rest)) (decodeNumber_of_number hv)
  case string s hl hq =>
    rw [readToValue, readTokenSkippingComments_spaces hw (readToken_quoted hq rest) (by simp), Value.stored]
    simp only [decodeString_of_quoted hq]
    rw [Value.ofString, Nat.mod_eq_of_lt (by omega), if_pos (by omega), List.take_length]
    rfl
  case emptyArray hw' =>
    rw [List.append_assoc, List.append_assoc, readToValue_array hw, Value.stored]
    exact readArray_nil hw'
  case array he =>
    rw [List.append_assoc, List.append_assoc, readToValue_array hw, readArray_eq hk hs he, Value.stored]
    exact readElements_of_elements hn he
  case emptyObject hw' =>
    rw [List.append_assoc, List.append_assoc, readToValue_object hw, Value.stored]
    exact readMembers_nil hw'
  case object hm =>
    rw [List.append_assoc, List.append_assoc, readToValue_object hw, Value.stored]
    exact readMembers_of_members hn hm

theorem starts_text (n : Nat) : Starts (Text decodeDouble n) := by
  cases n
  case zero   => exact fun ht => ht.elim
  case succ n => exact starts_node

theorem readValue_skips (n : Nat) : (readValue decodeDouble n).Skips := by
  intro current
  cases n
  case zero => rfl
  case succ n =>
    have hs : skipSpaces (skipSpaces current) = skipSpaces current := List.dropWhile_idempotent ..
    have ht : readToken (skipSpaces current) = readToken current := by
      rw [readToken, hs, ← readToken]
    have hc : readTokenSkippingComments (skipSpaces current) = readTokenSkippingComments current := by
      rw [readTokenSkippingComments, ht, ← readTokenSkippingComments]
    show readToValue .. = readToValue ..
    rw [readToValue, hc, ← readToValue]

theorem readValue_reads (n : Nat) : (readValue decodeDouble n).Reads (Text decodeDouble n) := by
  induction n
  case zero      => exact fun ht => ht.elim
  case succ n hi => exact readToValue_of_node hi (readValue_skips n) (starts_text n)

end

-- `reader` throws `e` at those texts of `text` which are not texts of `text'`.
def Reader.ValueReader.Throws (reader : ValueReader) (e : Exception) (text text' : Value → Bytes → Prop) : Prop :=
  ∀ {v t ws rest}, text v t → Spaces ws → Ends rest → text' v t ∨ reader.run (ws ++ (t ++ rest)) = .error e

section

variable {decodeDouble : Bytes → Option Double} {nested : ValueReader} {text text' : Value → Bytes → Prop}
variable {e : Exception}
  {v : Value} {vs vs' : List Value} {m : Bytes × Value} {ms ms' : List (Bytes × Value)} {name ws t ts rest : Bytes}
  {n : Nat}

theorem readElements_error (hv : nested.run t = .error e) : readElements nested vs t = .error e := by
  rw [readElements]
  split
  case h_1 h => exact h.symm.trans hv
  all_goals
    rename_i h
    cases hv.symm.trans h

theorem readElements_throws (hn : nested.Reads text') (ho : nested.Throws e text text') (he : Elements text vs ts) :
    Elements text' vs ts ∨ readElements nested vs' (ts ++ (ascii "]" ++ rest)) = .error e := by
  induction he generalizing vs'
  case last hw ht hw' =>
    rcases ho ht hw (ends_spaces hw' (ends_arrayEnd rest)) with ht | hv
    · exact .inl (.last hw ht hw')
    · simp only [List.append_assoc]
      exact .inr (readElements_error hv)
  case cons v vs ws t ws' ts hw ht hw' _ hi =>
    have hr := ends_spaces hw' (ends_arraySeparator (ts ++ (ascii "]" ++ rest)))
    have hs := (readToken_spaces hw').trans (readToken_arraySeparator (ts ++ (ascii "]" ++ rest)))
    rcases ho ht hw hr with ht | hv
    · rcases hi with he | hv
      · exact .inl (.cons hw ht hw' he)
      · simp only [List.append_assoc]
        exact .inr ((readElements_next (hn ht hw hr) hs).trans hv)
    · simp only [List.append_assoc]
      exact .inr (readElements_error hv)

theorem readMembers_error (ho : nested.Throws e text text') (hm : Member text m t) (hr : Ends rest) :
    Member text' m t ∨ readMembers nested name ms (t ++ rest) = .error e := by
  obtain ⟨hl, hw, hq, hw', hw'', ht, hw'''⟩ := hm
  rcases ho ht hw'' (ends_spaces hw''' hr) with ht | hv
  · exact .inl ⟨hl, hw, hq, hw', hw'', ht, hw'''⟩
  · simp only [List.append_assoc]
    exact .inr ((readMembers_member hl hw hq hw').left hv)

theorem readMembers_throws (hn : nested.Reads text') (ho : nested.Throws e text text') (hm : Members text ms ts) :
    Members text' ms ts ∨ readMembers nested name ms' (ts ++ (ascii "\x7d" ++ rest)) = .error e := by
  induction hm generalizing name ms'
  case last hm         => exact (readMembers_error ho hm (ends_objectEnd rest)).imp_left .last
  case cons ts hm _ hi =>
    rcases readMembers_error ho hm (ends_arraySeparator (ts ++ (ascii "\x7d" ++ rest))) with hm | hv
    · rcases hi with hms | hv
      · exact .inl (.cons hm hms)
      · simp only [List.append_assoc]
        exact .inr ((readMembers_next hn hm).trans hv)
    · simp only [List.append_assoc]
      exact .inr hv

theorem readToValue_throws (hn : nested.Reads text') (ho : nested.Throws e text text') (hk : nested.Skips)
    (hs : Starts text) (ht : Node decodeDouble text v t) (hw : Spaces ws) :
    Node decodeDouble text' v t ∨ readToValue decodeDouble nested (ws ++ (t ++ rest)) = .error e := by
  cases ht
  case null            => exact .inl .null
  case true            => exact .inl .true
  case false           => exact .inl .false
  case number hv       => exact .inl (.number hv)
  case string hl hq    => exact .inl (.string hl hq)
  case emptyArray hw'  => exact .inl (.emptyArray hw')
  case emptyObject hw' => exact .inl (.emptyObject hw')
  case array vs ts he =>
    have hv : _ ∨ readElements nested [] (ts ++ (ascii "]" ++ rest)) = _ := readElements_throws hn ho he
    refine hv.imp .array fun hv => ?_
    rw [List.append_assoc, List.append_assoc, readToValue_array hw, readArray_eq hk hs he]
    exact hv
  case object ms ts hm =>
    have hv : _ ∨ readMembers nested [] [] (ts ++ (ascii "\x7d" ++ rest)) = _ := readMembers_throws hn ho hm
    refine hv.imp .object fun hv => ?_
    rw [List.append_assoc, List.append_assoc, readToValue_object hw]
    exact hv

theorem readValue_throws (n n' : Nat) :
    (readValue decodeDouble n').Throws (.runtimeError "Exceeded stackLimit in readValue().") (Text decodeDouble n)
      (Text decodeDouble n') := by
  induction n' generalizing n
  case zero => exact fun _ _ _ => .inr rfl
  case succ n' hi =>
    intro v t ws rest ht hw _
    cases n
    case zero   => exact ht.elim
    case succ n =>
      exact readToValue_throws (readValue_reads n') (hi n) (readValue_skips n') (starts_text n) ht hw

-- A value is nested as deeply as its text.

theorem nested_of_text (ht : Text decodeDouble n v t) : v.Nested n := by
  induction n generalizing v t
  case zero      => exact ht
  case succ n hi =>
    cases ht
    case number hv =>
      cases hv
      all_goals exact trivial
    case emptyArray  => exact fun v hm => absurd hm List.not_mem_nil
    case emptyObject => exact fun m hm => absurd hm List.not_mem_nil
    case array he =>
      induction he
      case last ht _         => exact List.forall_mem_singleton.mpr (hi ht)
      case cons ht _ _ hvs   => exact List.forall_mem_cons.mpr ⟨hi ht, hvs⟩
    case object hm =>
      induction hm
      case last hm =>
        obtain ⟨-, -, -, -, -, ht, -⟩ := hm
        exact List.forall_mem_singleton.mpr (hi ht)
      case cons hm _ hms =>
        obtain ⟨-, -, -, -, -, ht, -⟩ := hm
        exact List.forall_mem_cons.mpr ⟨hi ht, hms⟩
    all_goals exact trivial

theorem text_of_nested {n' : Nat} (ht : Text decodeDouble n v t) (hn : v.Nested n') : Text decodeDouble n' v t := by
  induction n' generalizing n v t
  case zero       => exact hn.elim
  case succ n' hi =>
    cases n
    case zero   => exact ht.elim
    case succ n =>
      cases ht
      case null            => exact .null
      case true            => exact .true
      case false           => exact .false
      case number hv       => exact .number hv
      case string hl hq    => exact .string hl hq
      case emptyArray hw   => exact .emptyArray hw
      case emptyObject hw  => exact .emptyObject hw
      case array he =>
        refine .array ?_
        induction he
        case last hw ht hw' => exact .last hw (hi ht (List.forall_mem_singleton.mp hn)) hw'
        case cons hw ht hw' _ hvs =>
          obtain ⟨hv, hn⟩ := List.forall_mem_cons.mp hn
          exact .cons hw (hi ht hv) hw' (hvs hn)
      case object hm =>
        have hmember {m : Bytes × Value} {t : Bytes} (hm : Member (Text decodeDouble n) m t) (hv : m.2.Nested n') :
            Member (Text decodeDouble n') m t := by
          obtain ⟨hl, hw, hq, hw', hw'', ht, hw'''⟩ := hm
          exact ⟨hl, hw, hq, hw', hw'', hi ht hv, hw'''⟩
        refine .object ?_
        induction hm
        case last hm       => exact .last (hmember hm (hn _ (List.mem_cons_self ..)))
        case cons hm _ hms =>
          obtain ⟨hv, hn⟩ := List.forall_mem_cons.mp hn
          exact .cons (hmember hm hv) (hms hn)

theorem parse_of_text (ht : Text decodeDouble n v t) (hn : v.Nested stackLimit) (hw : Spaces ws) (hr : Ends rest) :
    parse decodeDouble (ws ++ t ++ rest) = .ok (some v.stored) := by
  rw [List.append_assoc, parse, readValue_reads stackLimit (text_of_nested ht hn) hw hr, Except.map_ok]

theorem parse_of_deep (ht : Text decodeDouble n v t) (hn : ¬v.Nested stackLimit) (hw : Spaces ws) (hr : Ends rest) :
    parse decodeDouble (ws ++ t ++ rest) = .error (.runtimeError "Exceeded stackLimit in readValue().") := by
  have hv := (readValue_throws n stackLimit ht hw hr).resolve_left (mt nested_of_text hn)
  rw [List.append_assoc, parse, hv, Except.map_error]

-- The text of a value is read as the value if its nodes fit on the stack. Otherwise the reader throws.
theorem parse_text (ht : Text decodeDouble n v t) (hw : Spaces ws) (hr : Ends rest) :
    parse decodeDouble (ws ++ t ++ rest) =
      if v.Nested stackLimit
      then .ok (some v.stored)
      else .error (.runtimeError "Exceeded stackLimit in readValue().") := by
  split
  case isTrue hn  => exact parse_of_text ht hn hw hr
  case isFalse hn => exact parse_of_deep ht hn hw hr

theorem ends_newline : Ends [0x0A] := by
  rintro b ⟨⟩
  decide

-- Of two members with one name, the last one is kept.
theorem parse_text_twice : parse (fun _ => none) (ascii " \x7b\"a\":1, \"a\" : 2\x7d\n") =
    .ok (some (.object [(ascii "a", .int 2)])) := by
  have hs : Spaces (ascii " ") := List.forall_mem_singleton.mpr (by decide)
  have hq : Quoted (ascii "\"a\"") (ascii "a") := ⟨ascii "a", .plain (by decide) (by decide) .nil, rfl⟩
  have hi (d : UInt8) (hd : isDigit d) (h : ofDigits [d] < 2 ^ 31) :
      Text (fun _ => none) 1 (.int (.ofInt (ofDigits [d]))) [d] :=
    .number (.int ⟨by simp, by simpa using hd⟩ h)
  have ht : Text (fun _ => none) 2 (.object [(ascii "a", .int 1), (ascii "a", .int 2)])
      (ascii "\x7b\"a\":1, \"a\" : 2\x7d") :=
    .object (.cons (.mk (by decide) spaces_nil hq spaces_nil spaces_nil (hi 0x31 (by decide) (by decide)) spaces_nil)
      (.last (.mk (by decide) hs hq hs hs (hi 0x32 (by decide) (by decide)) spaces_nil)))
  have h := parse_text ht hs ends_newline
  rwa [if_pos (by decide), show (Value.object [(ascii "a", .int 1), (ascii "a", .int 2)]).stored =
    .object [(ascii "a", .int 2)] by simp [Value.stored, Value.ofMembers, Value.setMember]] at h

-- A document which begins with a text of `root`.
def Document (decodeDouble : Bytes → Option Double) (root : Value) (document : Bytes) : Prop :=
  ∃ ws t rest n, Spaces ws ∧ Text decodeDouble n root t ∧ Ends rest ∧ document = ws ++ t ++ rest

namespace Document

variable {root : Value} {document : Bytes}

theorem parse_of_nested (hd : Document decodeDouble root document) (hn : root.Nested stackLimit) :
    parse decodeDouble document = .ok (some root.stored) := by
  obtain ⟨ws, t, rest, n, hw, ht, hr, rfl⟩ := hd
  exact parse_of_text ht hn hw hr

theorem parse_of_deep (hd : Document decodeDouble root document) (hn : ¬root.Nested stackLimit) :
    parse decodeDouble document = .error (.runtimeError "Exceeded stackLimit in readValue().") := by
  obtain ⟨ws, t, rest, n, hw, ht, hr, rfl⟩ := hd
  exact Json.parse_of_deep ht hn hw hr

end Document

end

end Json
