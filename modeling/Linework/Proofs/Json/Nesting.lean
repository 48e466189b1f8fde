import Linework.Proofs.Json.Written

/-!
# How deep a text is

The depth of a text is a matter of its brackets: how many are open at once, at
most, not counting those between quotes. `nesting` counts them in any text, and it
knows nothing of documents. For the text of a document it counts the containers of
the document (`nesting_textBefore`), however its blanks stand.
-/

namespace Linework.Json

/-- Where in a text a character stands. -/
inductive Place where
  /-- Not between quotes. -/
  | outside
  /-- Between quotes. -/
  | quoted
  /-- Between quotes, after a backslash. -/
  | escaped

/-- The most brackets that are open at once in a text, with so many open before
it. -/
def nestingFrom : Place → Nat → List Char → Nat
  | _, n, [] => n
  | .outside, n, c :: rest =>
    if c = '"' then nestingFrom .quoted n rest
    else if c = '[' ∨ c = '{' then nestingFrom .outside (n + 1) rest
    else if c = ']' ∨ c = '}' then max n (nestingFrom .outside (n - 1) rest)
    else nestingFrom .outside n rest
  | .quoted, n, c :: rest =>
    if c = '"' then nestingFrom .outside n rest
    else if c = '\\' then nestingFrom .escaped n rest
    else nestingFrom .quoted n rest
  | .escaped, n, _ :: rest => nestingFrom .quoted n rest

/-- **How many containers of a text stand inside one another** at most. -/
def nesting (s : List Char) : Nat := nestingFrom .outside 0 s

theorem le_nestingFrom (p : Place) (n : Nat) (s : List Char) : n ≤ nestingFrom p n s := by
  induction s generalizing p n with
  | nil => cases p <;> exact Nat.le_refl n
  | cons c s ih =>
    cases p with
    | outside =>
      rw [nestingFrom]
      split
      · exact ih ..
      · split
        · exact Nat.le_trans (Nat.le_succ n) (ih ..)
        · split
          · exact Nat.le_max_left ..
          · exact ih ..
    | quoted =>
      rw [nestingFrom]
      split
      · exact ih ..
      · split <;> exact ih ..
    | escaped => exact ih ..

/-! ## What does not matter -/

/-- No quote and no bracket. -/
def Neutral (c : Char) : Prop := c ≠ '"' ∧ c ≠ '[' ∧ c ≠ '{' ∧ c ≠ ']' ∧ c ≠ '}'

instance : DecidablePred Neutral := fun c =>
  inferInstanceAs (Decidable (c ≠ '"' ∧ c ≠ '[' ∧ c ≠ '{' ∧ c ≠ ']' ∧ c ≠ '}'))

theorem neutral_of_isPlain {c : Char} (h : isPlain c = true) : Neutral c := by
  refine ⟨?_, ?_, ?_, ?_, ?_⟩ <;>
  · rintro rfl
    cases h

theorem neutral_of_isBlank {c : Char} (h : isBlank c = true) : Neutral c := by
  refine ⟨?_, ?_, ?_, ?_, ?_⟩ <;>
  · rintro rfl
    cases h

theorem nestingFrom_cons {c : Char} (hc : Neutral c) (n : Nat) (rest : List Char) :
    nestingFrom .outside n (c :: rest) = nestingFrom .outside n rest := by
  obtain ⟨hquote, hlist, hobject, hlist', hobject'⟩ := hc
  rw [nestingFrom, if_neg hquote, if_neg (not_or.2 ⟨hlist, hobject⟩),
    if_neg (not_or.2 ⟨hlist', hobject'⟩)]

theorem nestingFrom_append {s : List Char} (hs : ∀ c ∈ s, Neutral c) (n : Nat)
    (rest : List Char) : nestingFrom .outside n (s ++ rest) = nestingFrom .outside n rest := by
  induction s with
  | nil => rfl
  | cons c s ih =>
    rw [List.cons_append, nestingFrom_cons (hs c List.mem_cons_self)]
    exact ih fun d hd => hs d (List.mem_cons_of_mem c hd)

/-- A character between quotes stays between quotes. -/
theorem nestingFrom_escaped (c : Char) (n : Nat) (rest : List Char) :
    nestingFrom .quoted n (escaped c ++ rest) = nestingFrom .quoted n rest := by
  unfold escaped
  split
  iterate 7
    · rfl
  · next hquote hbackslash _ _ _ _ _ =>
    split
    · next hc =>
      have hdigit : ∀ d < 16, Nat.digitChar d ≠ '"' ∧ Nat.digitChar d ≠ '\\' := by decide
      obtain ⟨hhigh, hhigh'⟩ := hdigit (c.toNat / 16) (by omega)
      obtain ⟨hlow, hlow'⟩ := hdigit (c.toNat % 16) (by omega)
      show nestingFrom .quoted n (Nat.digitChar (c.toNat / 16) :: Nat.digitChar (c.toNat % 16) ::
        rest) = _
      rw [nestingFrom, if_neg hhigh, if_neg hhigh', nestingFrom, if_neg hlow, if_neg hlow']
    · rw [List.singleton_append, nestingFrom, if_neg hquote, if_neg hbackslash]

/-- Nothing between quotes counts. -/
theorem nestingFrom_string (s : String) (n : Nat) (rest : List Char) :
    nestingFrom .outside n (string s ++ rest) = nestingFrom .outside n rest := by
  have hquoted : ∀ cs : List Char, nestingFrom .quoted n (cs.flatMap escaped ++ '"' :: rest) =
      nestingFrom .outside n rest := by
    intro cs
    induction cs with
    | nil => rfl
    | cons c cs ih => rw [List.flatMap_cons, List.append_assoc, nestingFrom_escaped, ih]
  rw [string_append]
  exact hquoted s.toList

/-! ## The text of a document -/

namespace Document

variable (spacing : Spacing)

theorem nestingFrom_line (level n : Nat) (rest : List Char) :
    nestingFrom .outside n (spacing.line level ++ rest) = nestingFrom .outside n rest :=
  nestingFrom_append (fun c hc => neutral_of_isBlank (spacing.isBlank_line level c hc)) n rest

theorem nestingFrom_nameBefore (key : String) (n : Nat) (rest : List Char) :
    nestingFrom .outside n (nameBefore spacing key rest) = nestingFrom .outside n rest := by
  rw [nameBefore, nestingFrom_string, nestingFrom_cons (by decide), nestingFrom_append]
  exact fun c hc => neutral_of_isBlank (spacing.isBlank_gap c hc)

mutual

/-- **The brackets of a text are the containers of its document.** -/
theorem nestingFrom_textBefore : ∀ (d : Document) (level n : Nat) (rest : List Char),
    nestingFrom .outside n (textBefore spacing level d rest) =
      max (n + d.nesting) (nestingFrom .outside n rest)
  | .single x, level, n, rest => by
    rw [textBefore, nestingFrom_append fun c hc => neutral_of_isPlain (isPlain_of_mem_single hc)]
    exact (Nat.max_eq_right (le_nestingFrom ..)).symm
  | .count k, level, n, rest => by
    have hdigits : ∀ c ∈ Nat.toDigits 10 k, Neutral c := fun c hc =>
      neutral_of_isPlain (isPlain_of_mem_digits hc)
    rw [textBefore, nestingFrom_append hdigits]
    exact (Nat.max_eq_right (le_nestingFrom ..)).symm
  | .bool b, level, n, rest => by
    rw [textBefore]
    cases b <;> exact (Nat.max_eq_right (le_nestingFrom ..)).symm
  | .text s, level, n, rest => by
    rw [textBefore, nestingFrom_string]
    exact (Nat.max_eq_right (le_nestingFrom ..)).symm
  | .list [], level, n, rest => by
    rw [textBefore, nesting, nestingOf]
    rfl
  | .list (x :: xs), level, n, rest => by
    -- the closing bracket still counts at the depth inside, then the text goes on outside
    have hclose : nestingFrom .outside (n + 1) (']' :: rest) =
      max (n + 1) (nestingFrom .outside n rest) := rfl
    rw [textBefore, nesting, nestingOf]
    show nestingFrom .outside (n + 1) (spacing.line (level + 1) ++ _) = _
    rw [nestingFrom_line, nestingFrom_textBefore x, nestingFrom_itemsBefore xs, nestingFrom_line,
      hclose]
    omega
  | .object [], level, n, rest => by
    rw [textBefore, nesting, nestingOfMembers]
    rfl
  | .object ((key, x) :: more), level, n, rest => by
    have hclose : nestingFrom .outside (n + 1) ('}' :: rest) =
      max (n + 1) (nestingFrom .outside n rest) := rfl
    rw [textBefore, nesting, nestingOfMembers]
    show nestingFrom .outside (n + 1) (spacing.line (level + 1) ++ _) = _
    rw [nestingFrom_line, nestingFrom_nameBefore, nestingFrom_textBefore x,
      nestingFrom_membersBefore more, nestingFrom_line, hclose]
    omega

theorem nestingFrom_itemsBefore : ∀ (xs : List Document) (level n : Nat) (rest : List Char),
    nestingFrom .outside n (itemsBefore spacing level xs rest) =
      max (n + nestingOf xs) (nestingFrom .outside n rest)
  | [], level, n, rest => by
    rw [itemsBefore]
    exact (Nat.max_eq_right (le_nestingFrom ..)).symm
  | x :: xs, level, n, rest => by
    rw [itemsBefore, nestingFrom_cons (by decide), nestingFrom_line, nestingFrom_textBefore x,
      nestingFrom_itemsBefore xs, nestingOf]
    omega

theorem nestingFrom_membersBefore : ∀ (ms : List (String × Document)) (level n : Nat)
    (rest : List Char),
    nestingFrom .outside n (membersBefore spacing level ms rest) =
      max (n + nestingOfMembers ms) (nestingFrom .outside n rest)
  | [], level, n, rest => by
    rw [membersBefore]
    exact (Nat.max_eq_right (le_nestingFrom ..)).symm
  | (key, x) :: more, level, n, rest => by
    rw [membersBefore, nestingFrom_cons (by decide), nestingFrom_line, nestingFrom_nameBefore,
      nestingFrom_textBefore x, nestingFrom_membersBefore more, nestingOfMembers]
    omega

end

/-- The text of a document is as deep as the document. -/
theorem nesting_pretty (d : Document) : Json.nesting d.pretty = d.nesting := by
  show nestingFrom .outside 0 (textBefore .pretty 0 d []) = _
  rw [nestingFrom_textBefore]
  show max (0 + d.nesting) 0 = _
  omega

end Document

end Linework.Json
