import Mathlib.Data.List.TakeWhile
import Linework.Json.Skim

/-!
# How a container goes on

Lists and objects are loops over the same three questions: does it end here, is
there a comma, where does the next entry begin. `nextElement` and `nextMember`
answer them for a reader, and this module turns the answers around, so that what
follows about loops can be said in terms of the text. In each case the text that
is left is what stands after some blanks and at most a comma.
-/

namespace Linework

/-- A computation succeeds exactly if both of its steps do. -/
theorem bind_eq_ok_iff {ε α β : Type} {x : Except ε α} {f : α → Except ε β} {b : β} :
    x >>= f = .ok b ↔ ∃ a, x = .ok a ∧ f a = .ok b := by
  constructor
  · intro h
    cases x with
    | error e => cases h
    | ok a => exact ⟨a, rfl, h⟩
  · rintro ⟨a, rfl, h⟩
    exact h

theorem ok_bind {ε α β : Type} (a : α) (f : α → Except ε β) : Except.ok a >>= f = f a := rfl

theorem toOption_eq_some_iff {ε α : Type} {x : Except ε α} {a : α} :
    x.toOption = some a ↔ x = .ok a := by
  cases x with
  | error e => simp [Except.toOption]
  | ok b => simp [Except.toOption]

theorem mapError_eq_ok_iff {ε ε' α : Type} {f : ε → ε'} {x : Except ε α} {a : α} :
    x.mapError f = .ok a ↔ x = .ok a := by
  cases x with
  | error e => simp [Except.mapError]
  | ok b => simp [Except.mapError]

namespace Json

/-! ## Blanks -/

theorem length_skipBlanks_le (s : List Char) : (skipBlanks s).length ≤ s.length :=
  (List.dropWhile_sublist isBlank).length_le

theorem skipBlanks_cons {c : Char} (h : isBlank c = false) (s : List Char) :
    skipBlanks (c :: s) = c :: s := by
  rw [skipBlanks, List.dropWhile_cons, h]
  rfl

/-- What is left after blanks begins with no blank. -/
theorem isBlank_of_skipBlanks {s rest : List Char} {c : Char} (h : skipBlanks s = c :: rest) :
    isBlank c = false := by
  have hhead := List.head?_dropWhile_not isBlank s
  rw [show s.dropWhile isBlank = c :: rest from h] at hhead
  simpa using hhead

theorem skipBlanks_append {bs : List Char} (h : ∀ c ∈ bs, isBlank c = true) (s : List Char) :
    skipBlanks (bs ++ s) = skipBlanks s :=
  List.dropWhile_append_of_pos h

@[simp] theorem skipBlanks_skipBlanks (s : List Char) :
    skipBlanks (skipBlanks s) = skipBlanks s := by
  cases h : skipBlanks s with
  | nil => rfl
  | cons c rest => exact skipBlanks_cons (isBlank_of_skipBlanks h) rest

/-- A text that goes on after its blanks is not empty. -/
theorem length_lt_of_skipBlanks {s rest : List Char} {c : Char} (h : skipBlanks s = c :: rest) :
    rest.length < s.length := by
  have hle := length_skipBlanks_le s
  rw [h, List.length_cons] at hle
  exact hle

/-! ## The next element -/

theorem nextElement_eq_closes {first : Bool} {s r : List Char}
    (h : nextElement first s = .ok (.closes r)) :
    ∃ rest, skipBlanks s = ']' :: rest ∧ r = ']' :: rest := by
  unfold nextElement at h
  split at h
  · cases h
  · next rest hs =>
    cases h
    exact ⟨rest, hs, rfl⟩
  · split at h
    · cases h
    · split at h
      · split at h <;> cases h
      · cases h

theorem nextElement_true_eq_entry {s r : List Char} (h : nextElement true s = .ok (.entry r)) :
    skipBlanks s = r ∧ ∃ c rest, r = c :: rest ∧ c ≠ ']' := by
  unfold nextElement at h
  split at h
  · cases h
  · cases h
  · next c rest hc hs =>
    rw [if_pos rfl] at h
    cases h
    exact ⟨hs, c, rest, rfl, hc⟩

theorem nextElement_false_eq_entry {s r : List Char} (h : nextElement false s = .ok (.entry r)) :
    ∃ rest, skipBlanks s = ',' :: rest ∧ skipBlanks rest = r ∧ ∃ c more, r = c :: more ∧ c ≠ ']' := by
  unfold nextElement at h
  split at h
  · cases h
  · cases h
  · next c rest hc hs =>
    rw [if_neg Bool.false_ne_true] at h
    split at h
    · next hcomma =>
      subst hcomma
      split at h
      · cases h
      · cases h
      · next hne hnb =>
        cases h
        obtain ⟨c, more, hmore⟩ := List.exists_cons_of_ne_nil hne
        exact ⟨rest, hs, rfl, c, more, hmore, fun hc => hnb more (hc ▸ hmore)⟩
    · cases h

theorem nextElement_of_closes {s rest : List Char} (h : skipBlanks s = ']' :: rest)
    (first : Bool) : nextElement first s = .ok (.closes (']' :: rest)) := by
  rw [nextElement, h]
  rfl

theorem nextElement_true_of_entry {s rest : List Char} {c : Char} (h : skipBlanks s = c :: rest)
    (hc : c ≠ ']') : nextElement true s = .ok (.entry (c :: rest)) := by
  unfold nextElement
  split
  · next hs => rw [h] at hs; cases hs
  · next hs => rw [h] at hs; cases hs; exact absurd rfl hc
  · next hs =>
    rw [h] at hs
    cases hs
    rfl

theorem nextElement_false_of_entry {s t rest : List Char} {c : Char}
    (hcomma : skipBlanks s = ',' :: t) (h : skipBlanks t = c :: rest) (hc : c ≠ ']') :
    nextElement false s = .ok (.entry (c :: rest)) := by
  unfold nextElement
  split
  · next hs => rw [hcomma] at hs; cases hs
  · next hs => rw [hcomma] at hs; cases hs
  · next hs =>
    rw [hcomma] at hs
    cases hs
    rw [if_neg Bool.false_ne_true, if_pos rfl]
    split
    · next hs => rw [h] at hs; cases hs
    · next hs => rw [h] at hs; cases hs; exact absurd rfl hc
    · rw [h]

/-! ## The next member -/

theorem nextMember_name_eq_ok {s : List Char} {n : Next} (h : nextMember.name s = .ok n) :
    ∃ rest, s = '"' :: rest ∧ n = .entry rest := by
  unfold nextMember.name at h
  split at h
  · cases h
  · next rest =>
    cases h
    exact ⟨rest, rfl, rfl⟩
  · cases h

theorem nextMember_eq_closes {first : Bool} {s r : List Char}
    (h : nextMember first s = .ok (.closes r)) :
    ∃ rest, skipBlanks s = '}' :: rest ∧ r = '}' :: rest := by
  unfold nextMember at h
  split at h
  · cases h
  · next rest hs =>
    cases h
    exact ⟨rest, hs, rfl⟩
  · split at h
    · obtain ⟨_, _, hn⟩ := nextMember_name_eq_ok h
      cases hn
    · split at h
      · split at h
        · cases h
        · obtain ⟨_, _, hn⟩ := nextMember_name_eq_ok h
          cases hn
      · cases h

theorem nextMember_true_eq_entry {s r : List Char} (h : nextMember true s = .ok (.entry r)) :
    skipBlanks s = '"' :: r := by
  unfold nextMember at h
  split at h
  · cases h
  · cases h
  · next c rest hc hs =>
    rw [if_pos rfl] at h
    obtain ⟨rest', heq, hn⟩ := nextMember_name_eq_ok h
    cases hn
    exact hs.trans heq

theorem nextMember_false_eq_entry {s r : List Char} (h : nextMember false s = .ok (.entry r)) :
    ∃ rest, skipBlanks s = ',' :: rest ∧ skipBlanks rest = '"' :: r := by
  unfold nextMember at h
  split at h
  · cases h
  · cases h
  · next c rest hc hs =>
    rw [if_neg Bool.false_ne_true] at h
    split at h
    · next hcomma =>
      subst hcomma
      split at h
      · cases h
      · obtain ⟨rest', heq, hn⟩ := nextMember_name_eq_ok h
        cases hn
        exact ⟨rest, hs, heq⟩
    · cases h

theorem nextMember_of_closes {s rest : List Char} (h : skipBlanks s = '}' :: rest)
    (first : Bool) : nextMember first s = .ok (.closes ('}' :: rest)) := by
  rw [nextMember, h]
  rfl

theorem nextMember_true_of_entry {s rest : List Char} (h : skipBlanks s = '"' :: rest) :
    nextMember true s = .ok (.entry rest) := by
  rw [nextMember, h]
  rfl

theorem nextMember_false_of_entry {s t rest : List Char} (hcomma : skipBlanks s = ',' :: t)
    (h : skipBlanks t = '"' :: rest) : nextMember false s = .ok (.entry rest) := by
  unfold nextMember
  split
  · next hs => rw [hcomma] at hs; cases hs
  · next hs => rw [hcomma] at hs; cases hs
  · next hs =>
    rw [hcomma] at hs
    cases hs
    rw [if_neg Bool.false_ne_true, if_pos rfl]
    split
    · next hs => rw [h] at hs; cases hs
    · rw [h]
      rfl

theorem colon_eq_ok {s rest : List Char} (h : colon s = .ok rest) : skipBlanks s = ':' :: rest := by
  unfold colon at h
  split at h
  · cases h
  · next hs =>
    cases h
    exact hs
  · cases h

/-! ## Whole values -/

/-- One member of an object that is read as a value, with those before it, last
one first. -/
def valueMember (d : Nat) (key : String) (before : List (String × Json)) :
    Reader (List (String × Json)) := fun s => do
  let (v, rest) ← value d (← colon s)
  return ((key, v) :: before, rest)

theorem valueMember_eq_ok {d : Nat} {key : String} {before after : List (String × Json)}
    {s rest : List Char} (h : valueMember d key before s = .ok (after, rest)) :
    ∃ t v, colon s = .ok t ∧ value d t = .ok (v, rest) ∧ after = (key, v) :: before := by
  obtain ⟨t, ht, h⟩ := bind_eq_ok_iff.1 h
  obtain ⟨⟨v, rest'⟩, hv, h⟩ := bind_eq_ok_iff.1 h
  cases h
  exact ⟨t, v, ht, hv, rfl⟩

theorem value_list {s s' : List Char} (h : skipBlanks s = '[' :: s') (d : Nat) :
    value (d + 1) s = (do
      let (items, rest) ← listOf (value d) s'
      return (.list items, rest)) := by
  rw [value, h]
  rfl

theorem value_object {s s' : List Char} (h : skipBlanks s = '{' :: s') (d : Nat) :
    value (d + 1) s = (do
      let (backwards, rest) ← objectOf stringText (valueMember d) [] s'
      return (.object backwards.reverse, rest)) := by
  rw [value, h]
  rfl

theorem value_scalar {s s' : List Char} {c : Char} (h : skipBlanks s = c :: s') (hlist : c ≠ '[')
    (hobject : c ≠ '{') (d : Nat) : value d s = scalar (c :: s') := by
  rw [value.eq_def, h]
  split
  · next heq => cases heq; exact absurd rfl hlist
  · next heq => cases heq; exact absurd rfl hobject
  · rfl

/-- **What a value can be**: a list or an object, if another container may be
opened, and otherwise no container. -/
theorem value_cases {d : Nat} {s rest : List Char} {v : Json} (h : value d s = .ok (v, rest)) :
    (∃ d' s' items, d = d' + 1 ∧ skipBlanks s = '[' :: s' ∧
      listOf (value d') s' = .ok (items, rest) ∧ v = .list items) ∨
    (∃ d' s' backwards, d = d' + 1 ∧ skipBlanks s = '{' :: s' ∧
      objectOf stringText (valueMember d') [] s' = .ok (backwards, rest) ∧
      v = .object backwards.reverse) ∨
    (∃ c s', skipBlanks s = c :: s' ∧ c ≠ '[' ∧ c ≠ '{' ∧ scalar (c :: s') = .ok (v, rest)) := by
  cases hs : skipBlanks s with
  | nil =>
    rw [value.eq_def, hs] at h
    cases h
  | cons c s' =>
    by_cases hlist : c = '['
    · subst hlist
      cases d with
      | zero => rw [value.eq_def, hs] at h; cases h
      | succ d =>
        rw [value_list hs] at h
        obtain ⟨⟨items, rest'⟩, hitems, h⟩ := bind_eq_ok_iff.1 h
        cases h
        exact .inl ⟨d, s', items, rfl, rfl, hitems, rfl⟩
    · by_cases hobject : c = '{'
      · subst hobject
        cases d with
        | zero => rw [value.eq_def, hs] at h; cases h
        | succ d =>
          rw [value_object hs] at h
          obtain ⟨⟨backwards, rest'⟩, hmembers, h⟩ := bind_eq_ok_iff.1 h
          cases h
          exact .inr (.inl ⟨d, s', backwards, rfl, rfl, hmembers, rfl⟩)
      · rw [value_scalar hs hlist hobject] at h
        exact .inr (.inr ⟨c, s', rfl, hlist, hobject, h⟩)

/-- What is no container is neither a list nor an object. -/
theorem not_container_of_scalar {s rest : List Char} {v : Json} (h : scalar s = .ok (v, rest)) :
    (∀ items, v ≠ .list items) ∧ ∀ members, v ≠ .object members := by
  unfold scalar at h
  split at h
  · obtain ⟨_, -, h⟩ := bind_eq_ok_iff.1 h
    cases h
    exact ⟨nofun, nofun⟩
  · obtain ⟨_, -, h⟩ := bind_eq_ok_iff.1 h
    cases h
    exact ⟨nofun, nofun⟩
  · obtain ⟨_, -, h⟩ := bind_eq_ok_iff.1 h
    cases h
    exact ⟨nofun, nofun⟩
  · obtain ⟨⟨_, _⟩, -, h⟩ := bind_eq_ok_iff.1 h
    cases h
    exact ⟨nofun, nofun⟩
  · obtain ⟨⟨_, _⟩, -, h⟩ := bind_eq_ok_iff.1 h
    cases h
    exact ⟨nofun, nofun⟩
  · split at h
    · obtain ⟨⟨_, _⟩, -, h⟩ := bind_eq_ok_iff.1 h
      cases h
      exact ⟨nofun, nofun⟩
    · cases h
  · cases h

/-- A value begins with a character, after any blanks. -/
theorem exists_cons_of_value {d : Nat} {s rest : List Char} {v : Json}
    (h : value d s = .ok (v, rest)) : ∃ c s', skipBlanks s = c :: s' := by
  rcases value_cases h with ⟨_, s', _, _, hs, _⟩ | ⟨_, s', _, _, hs, _⟩ | ⟨c, s', hs, _⟩
  · exact ⟨_, s', hs⟩
  · exact ⟨_, s', hs⟩
  · exact ⟨c, s', hs⟩

end Json

end Linework
