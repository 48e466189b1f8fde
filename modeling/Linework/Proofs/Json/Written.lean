import Linework.Proofs.Json.Numeral
import Linework.Proofs.Json.Skim

/-!
# Documents read back

What is written is read back, if it may be: `value_textBefore` says what reading
the text of a document gives, for either spacing, at any level and in front of any
text that does not continue a numeral. There are two outcomes. If the containers
of the document stand no deeper inside one another than the reader admits, the
value is the document's own (`Document.toJson`); if they stand deeper, the text is
refused for that reason and no other.

The document's own value is not always what was meant: a single that is not finite
is written as the absent value, and so it comes back. That is for those to say who
know what was meant.
-/

namespace Linework.Json

/-! ## Texts -/

/-- Only a quote after nothing pending ends a text. -/
theorem not_end_of_ne {p : Pending} (h : p ≠ .nothing) (c : Char) :
    ¬ (p = .nothing ∧ c = '"') := fun hend => h hend.1

/-- A character that is pending, in front of a text that is read back. -/
theorem inside_pending {p p' : Pending} {c : Char} {s cs rest : List Char}
    (hend : ¬ (p = .nothing ∧ c = '"')) (hnext : p.next true c s = .ok (p', none))
    (h : inside true p' s = .ok (cs, rest)) : inside true p (c :: s) = .ok (cs, rest) :=
  (inside_cons_eq_ok_iff hend).2 ⟨p', none, cs, hnext, h, rfl⟩

/-- A character that completes one, in front of a text that is read back. -/
theorem inside_complete {p : Pending} {c out : Char} {s cs rest : List Char}
    (hend : ¬ (p = .nothing ∧ c = '"')) (hnext : p.next true c s = .ok (.nothing, some out))
    (h : inside true .nothing s = .ok (cs, rest)) :
    inside true p (c :: s) = .ok (out :: cs, rest) :=
  (inside_cons_eq_ok_iff hend).2 ⟨.nothing, some out, cs, hnext, h, rfl⟩

theorem inside_backslash {s cs rest : List Char} (h : inside true .escape s = .ok (cs, rest)) :
    inside true .nothing ('\\' :: s) = .ok (cs, rest) :=
  inside_pending (fun hend => absurd hend.2 (by decide)) rfl h

/-- An escape of one character. -/
theorem inside_escape {e c : Char} {s cs rest : List Char}
    (he : Pending.next true e s .escape = .ok (.nothing, some c))
    (h : inside true .nothing s = .ok (cs, rest)) :
    inside true .nothing ('\\' :: e :: s) = .ok (c :: cs, rest) :=
  inside_backslash (inside_complete (not_end_of_ne Pending.noConfusion _) he h)

/-- A digit of a code unit that is not its last one. -/
theorem inside_digit {e : Char} {d left value : Nat} {s cs rest : List Char}
    (he : hexDigit? e = some d)
    (h : inside true (.digits none (left + 1) (value * 16 + d)) s = .ok (cs, rest)) :
    inside true (.digits none (left + 2) value) (e :: s) = .ok (cs, rest) := by
  refine inside_pending (not_end_of_ne Pending.noConfusion _) ?_ h
  simp [Pending.next, he]

theorem hexDigit?_digitChar : ∀ d < 16, hexDigit? (Nat.digitChar d) = some d := by decide

/-- No character is empty. -/
theorem fewerBytes_of_length {n : Nat} {s : List Char} (h : n ≤ s.length) :
    fewerBytes n s = false := by
  induction s generalizing n with
  | nil => rw [Nat.le_zero.1 h, fewerBytes]
  | cons c s ih =>
    cases n with
    | zero => rw [fewerBytes]
    | succ n =>
      rw [fewerBytes]
      · have := c.utf8Size_pos
        rw [List.length_cons] at h
        exact ih (by omega)
      · exact nofun

/-- A control character, given by its code unit. -/
theorem inside_unit {c : Char} (hc : c.toNat < 0x20) {s cs rest : List Char}
    (h : inside true .nothing s = .ok (cs, rest)) :
    inside true .nothing ('\\' :: 'u' :: '0' :: '0' :: Nat.digitChar (c.toNat / 16) ::
      Nat.digitChar (c.toNat % 16) :: s) = .ok (c :: cs, rest) := by
  have hhigh := hexDigit?_digitChar (c.toNat / 16) (by omega)
  have hlow := hexDigit?_digitChar (c.toNat % 16) (by omega)
  have hunit : (((0 * 16 + 0) * 16 + 0) * 16 + c.toNat / 16) * 16 + c.toNat % 16 = c.toNat := by
    omega
  have hclose : closeUnit true none c.toNat = .ok (.nothing, some c) := by
    unfold closeUnit
    rw [if_neg (by decide)]
    dsimp only
    rw [if_neg (by omega), if_neg (by omega), Char.ofNat_toNat]
  have hlast : inside true (.digits none 1 (((0 * 16 + 0) * 16 + 0) * 16 + c.toNat / 16))
      (Nat.digitChar (c.toNat % 16) :: s) = .ok (c :: cs, rest) := by
    refine inside_complete (not_end_of_ne Pending.noConfusion _) ?_ h
    rw [Pending.next, hlow]
    show (if 1 ≤ 1 then closeUnit true none _ else _) = _
    rw [if_pos (Nat.le_refl 1), hunit, hclose]
  refine inside_backslash (inside_pending (not_end_of_ne Pending.noConfusion _) ?_
    (inside_digit rfl (inside_digit rfl (inside_digit hhigh hlast))))
  show openUnit none _ = _
  unfold openUnit
  rw [fewerBytes_of_length (by simp)]
  rfl

theorem inside_escaped (c : Char) {s cs rest : List Char}
    (h : inside true .nothing s = .ok (cs, rest)) :
    inside true .nothing (escaped c ++ s) = .ok (c :: cs, rest) := by
  unfold escaped
  split
  · exact inside_escape rfl h
  · exact inside_escape rfl h
  · exact inside_escape rfl h
  · exact inside_escape rfl h
  · exact inside_escape rfl h
  · exact inside_escape rfl h
  · exact inside_escape rfl h
  · next hquote hbackslash _ _ _ _ _ =>
    split
    · next hc => exact inside_unit hc h
    · next hc =>
      refine inside_complete (fun hend => hquote hend.2) ?_ h
      show (if c = '\\' then _ else _) = _
      rw [if_neg hbackslash, if_neg hc]

/-- **A text is read back** from between its quotes. -/
theorem stringText_escaped (s : String) (rest : List Char) :
    stringText (s.toList.flatMap escaped ++ '"' :: rest) = .ok (s, rest) := by
  have hinside : ∀ cs : List Char,
      inside true .nothing (cs.flatMap escaped ++ '"' :: rest) = .ok (cs, rest) := by
    intro cs
    induction cs with
    | nil => rfl
    | cons c cs ih =>
      rw [List.flatMap_cons, List.append_assoc]
      exact inside_escaped c ih
  rw [stringText, hinside]
  show Except.ok (String.ofList s.toList, rest) = _
  rw [String.ofList_toList]

theorem string_append (s : String) (rest : List Char) :
    string s ++ rest = '"' :: (s.toList.flatMap escaped ++ '"' :: rest) := by
  rw [string, List.append_assoc]
  rfl

namespace Document

/-! ## What a document stands for -/

mutual

/-- The value that the text of a document stands for. The number of a single is
the one its digits are read as. -/
def toJson : Document → Json
  | .single x =>
    match scalar (singleLayout.single x) with
    | .ok (v, _) => v
    | .error _ => .null
  | .count n => .number (.whole n)
  | .bool b => .bool b
  | .text s => .text s
  | .list items => .list (toJsons items)
  | .object members => .object (toMembers members)

/-- The values of several documents. -/
def toJsons : List Document → List Json
  | [] => []
  | x :: xs => toJson x :: toJsons xs

/-- The values of named documents. -/
def toMembers : List (String × Document) → List (String × Json)
  | [] => []
  | (key, x) :: more => (key, toJson x) :: toMembers more

end

mutual

/-- How many containers of a document stand inside one another at most. -/
def nesting : Document → Nat
  | .single _ | .count _ | .bool _ | .text _ => 0
  | .list items => nestingOf items + 1
  | .object members => nestingOfMembers members + 1

/-- The most that any of several documents has. -/
def nestingOf : List Document → Nat
  | [] => 0
  | x :: xs => max (nesting x) (nestingOf xs)

/-- The most that any of several named documents has. -/
def nestingOfMembers : List (String × Document) → Nat
  | [] => 0
  | (_, x) :: more => max (nesting x) (nestingOfMembers more)

end

/-- **A document whose numbers are read back**: its finite singles are told apart
by their texts, and its counts are within 64 bits. -/
inductive Legible : Document → Prop where
  | single {x : Float32} : (x.isFinite = true → TextStable x) → Legible (.single x)
  | count {n : Nat} : n ≤ greatestCount → Legible (.count n)
  | bool (b : Bool) : Legible (.bool b)
  | text (s : String) : Legible (.text s)
  | list {items : List Document} : (∀ x ∈ items, Legible x) → Legible (.list items)
  | object {members : List (String × Document)} :
    (∀ m ∈ members, Legible m.2) → Legible (.object members)

theorem toJson_of_scalar {x : Float32} {v : Json} {rest : List Char}
    (h : scalar (singleLayout.single x ++ []) = .ok (v, rest)) : toJson (.single x) = v := by
  rw [List.append_nil] at h
  rw [toJson, h]

/-- The value of a finite single is its number. -/
theorem toJson_single {x : Float32} (hx : x.isFinite = true) (h : TextStable x) :
    ∃ n : Number, n.toSingle = x ∧ toJson (.single x) = .number n := by
  obtain ⟨n, hn, hread⟩ := scalar_single hx h
  exact ⟨n, hn, toJson_of_scalar (hread [] ends_nil)⟩

/-- A single that is not finite has no value. -/
theorem toJson_not_isFinite {x : Float32} (hx : x.isFinite = false) :
    toJson (.single x) = .null :=
  toJson_of_scalar (scalar_not_isFinite hx [])

theorem scalar_toJson {x : Float32} (h : x.isFinite = true → TextStable x) {rest : List Char}
    (hrest : Ends rest) :
    scalar (singleLayout.single x ++ rest) = .ok (toJson (.single x), rest) := by
  cases hx : x.isFinite with
  | true =>
    obtain ⟨n, -, hread⟩ := scalar_single hx (h hx)
    rw [hread rest hrest, toJson_of_scalar (hread [] ends_nil)]
  | false => rw [scalar_not_isFinite hx, toJson_not_isFinite hx]

/-! ## The shape of a text -/

variable (spacing : Spacing)

/-- What is plain in front of a text is neither a blank nor the end of a list. -/
theorem exists_append_eq_cons {s : List Char} (hne : s ≠ []) (hs : ∀ c ∈ s, isPlain c = true)
    (rest : List Char) : ∃ c t, s ++ rest = c :: t ∧ isBlank c = false ∧ c ≠ ']' := by
  cases s with
  | nil => exact absurd rfl hne
  | cons c s =>
    have hc : isPlain c = true := hs c List.mem_cons_self
    refine ⟨c, s ++ rest, rfl, not_isBlank_of_isPlain hc, ?_⟩
    rintro rfl
    cases hc

/-- A text begins with no blank, and not as if a list ended. -/
theorem exists_textBefore_eq_cons (level : Nat) (d : Document) (rest : List Char) :
    ∃ c t, textBefore spacing level d rest = c :: t ∧ isBlank c = false ∧ c ≠ ']' := by
  cases d with
  | single x =>
    rw [textBefore]
    exact exists_append_eq_cons (single_ne_nil x) (fun c => isPlain_of_mem_single) rest
  | count n =>
    rw [textBefore]
    exact exists_append_eq_cons Nat.toDigits_ne_nil (fun c => isPlain_of_mem_digits) rest
  | bool b =>
    rw [textBefore]
    cases b <;> exact ⟨_, _, rfl, rfl, by decide⟩
  | text s =>
    rw [textBefore]
    exact ⟨'"', _, rfl, rfl, by decide⟩
  | list items => cases items <;> exact ⟨'[', _, by rw [textBefore], rfl, by decide⟩
  | object members => rcases members with _ | ⟨⟨key, x⟩, more⟩ <;>
      exact ⟨'{', _, by rw [textBefore], rfl, by decide⟩

theorem skipBlanks_textBefore (level : Nat) (d : Document) (rest : List Char) :
    skipBlanks (textBefore spacing level d rest) = textBefore spacing level d rest := by
  obtain ⟨c, t, heq, hc, -⟩ := exists_textBefore_eq_cons spacing level d rest
  rw [heq]
  exact skipBlanks_cons hc t

theorem length_lt_append {s : List Char} (h : s ≠ []) (rest : List Char) :
    rest.length < (s ++ rest).length := by
  rw [List.length_append]
  exact Nat.lt_add_of_pos_left (List.length_pos_iff.2 h)

mutual

/-- A text is longer than what follows it. -/
theorem length_lt_textBefore : ∀ (level : Nat) (d : Document) (rest : List Char),
    rest.length < (textBefore spacing level d rest).length
  | _, .single x, rest => by
    rw [textBefore]
    exact length_lt_append (single_ne_nil x) rest
  | _, .count n, rest => by
    rw [textBefore]
    exact length_lt_append Nat.toDigits_ne_nil rest
  | _, .bool b, rest => by
    rw [textBefore]
    cases b <;> exact length_lt_append (List.cons_ne_nil _ _) rest
  | _, .text s, rest => by
    rw [textBefore]
    exact length_lt_append (List.cons_ne_nil _ _) rest
  | _, .list [], rest => by
    rw [textBefore]
    exact Nat.lt_add_of_pos_right Nat.two_pos
  | level, .list (x :: xs), rest => by
    have hx := length_lt_textBefore (level + 1) x
      (itemsBefore spacing (level + 1) xs (spacing.line level ++ ']' :: rest))
    have hxs := length_le_itemsBefore (level + 1) xs (spacing.line level ++ ']' :: rest)
    rw [textBefore]
    simp only [List.length_cons, List.length_append] at hx hxs ⊢
    omega
  | _, .object [], rest => by
    rw [textBefore]
    exact Nat.lt_add_of_pos_right Nat.two_pos
  | level, .object ((key, x) :: more), rest => by
    have hx := length_lt_textBefore (level + 1) x
      (membersBefore spacing (level + 1) more (spacing.line level ++ '}' :: rest))
    have hmore := length_le_membersBefore (level + 1) more (spacing.line level ++ '}' :: rest)
    rw [textBefore, nameBefore]
    simp only [List.length_cons, List.length_append] at hx hmore ⊢
    omega

/-- Every further element has a character at least. -/
theorem length_le_itemsBefore : ∀ (level : Nat) (xs : List Document) (rest : List Char),
    xs.length + rest.length ≤ (itemsBefore spacing level xs rest).length
  | _, [], rest => by
    rw [itemsBefore, List.length_nil, Nat.zero_add]
  | level, x :: xs, rest => by
    have hx := length_lt_textBefore level x (itemsBefore spacing level xs rest)
    have hxs := length_le_itemsBefore level xs rest
    rw [itemsBefore]
    simp only [List.length_cons, List.length_append]
    omega

/-- Every further member has a character at least. -/
theorem length_le_membersBefore :
    ∀ (level : Nat) (ms : List (String × Document)) (rest : List Char),
      ms.length + rest.length ≤ (membersBefore spacing level ms rest).length
  | _, [], rest => by
    rw [membersBefore, List.length_nil, Nat.zero_add]
  | level, (key, x) :: more, rest => by
    have hx := length_lt_textBefore level x (membersBefore spacing level more rest)
    have hmore := length_le_membersBefore level more rest
    rw [membersBefore, nameBefore]
    simp only [List.length_cons, List.length_append]
    omega

end

/-! ## Reading a text -/

/-- What comes of reading a document that is so deep, with so many containers still
to open. -/
def outcome {α : Type} (nesting depth : Nat) (a : α) (rest : List Char) :
    Except Fault (α × List Char) :=
  if nesting ≤ depth then .ok (a, rest) else .error (.malformed .tooDeep)

/-- Of two documents, one after the other, the deeper one counts. -/
theorem outcome_bind {α β : Type} {n n' depth : Nat} {a : α} {b : β} {rest rest' : List Char}
    {f : α × List Char → Except Fault (β × List Char)}
    (h : f (a, rest) = outcome n' depth b rest') :
    outcome n depth a rest >>= f = outcome (max n n') depth b rest' := by
  unfold outcome at h ⊢
  by_cases hn : n ≤ depth
  · rw [if_pos hn, ok_bind, h]
    simp only [Nat.max_le, hn, true_and]
  · rw [if_neg hn, if_neg fun hmax => hn (Nat.max_le.1 hmax).1]
    rfl

theorem outcome_map {α β : Type} {n depth : Nat} {a : α} {rest : List Char} (f : α → β) :
    (outcome n depth a rest >>= fun p => Except.ok (f p.1, p.2)) = outcome n depth (f a) rest := by
  unfold outcome
  split <;> rfl

theorem outcome_zero {α : Type} (depth : Nat) (a : α) (rest : List Char) :
    outcome 0 depth a rest = .ok (a, rest) :=
  if_pos (Nat.zero_le depth)

/-- A container takes one level, of the document and of what is admitted. -/
theorem outcome_succ {α : Type} (n depth : Nat) (a : α) (rest : List Char) :
    outcome (n + 1) (depth + 1) a rest = outcome n depth a rest := by
  simp [outcome]

/-- An element and those after it, if there are rounds enough. -/
theorem elements_eq_outcome {spacing : Spacing} {level depth : Nat} {x : Document}
    {xs : List Document} {fuel s tail rest : List Char} {first : Bool}
    (hnext : nextElement first s = .ok (.entry (textBefore spacing level x tail)))
    (hx : value depth (textBefore spacing level x tail) = outcome x.nesting depth x.toJson tail)
    (hxs : ∀ fuel : List Char, xs.length < fuel.length →
      elements (value depth) fuel false tail = outcome (nestingOf xs) depth (toJsons xs) rest)
    (hfuel : xs.length + 1 < fuel.length) :
    elements (value depth) fuel first s =
      outcome (nestingOf (x :: xs)) depth (toJsons (x :: xs)) rest := by
  cases fuel with
  | nil => exact absurd hfuel (Nat.not_lt_zero _)
  | cons c fuel =>
    rw [elements, hnext, ok_bind]
    dsimp only
    rw [hx]
    refine outcome_bind ?_
    dsimp only
    rw [hxs fuel (Nat.lt_of_succ_lt_succ hfuel)]
    exact outcome_map _

/-- The first element, after the start of its line. -/
theorem nextElement_true_textBefore (spacing : Spacing) (outer level : Nat) (x : Document)
    (tail : List Char) :
    nextElement true (spacing.line outer ++ textBefore spacing level x tail) =
      .ok (.entry (textBefore spacing level x tail)) := by
  obtain ⟨c, t, heq, hblank, hc⟩ := exists_textBefore_eq_cons spacing level x tail
  have hskip := skipBlanks_append (spacing.isBlank_line outer) (textBefore spacing level x tail)
  rw [skipBlanks_textBefore, heq] at hskip
  rw [heq]
  exact nextElement_true_of_entry hskip hc

/-- A further element, after its comma and the start of its line. -/
theorem nextElement_false_textBefore (spacing : Spacing) (outer level : Nat) (x : Document)
    (tail : List Char) :
    nextElement false (',' :: (spacing.line outer ++ textBefore spacing level x tail)) =
      .ok (.entry (textBefore spacing level x tail)) := by
  obtain ⟨c, t, heq, hblank, hc⟩ := exists_textBefore_eq_cons spacing level x tail
  have hskip := skipBlanks_append (spacing.isBlank_line outer) (textBefore spacing level x tail)
  rw [skipBlanks_textBefore, heq] at hskip
  rw [heq]
  exact nextElement_false_of_entry (skipBlanks_cons rfl _) hskip hc

/-- A value may stand after blanks. -/
theorem value_append_textBefore {spacing : Spacing} {bs : List Char}
    (hbs : ∀ c ∈ bs, isBlank c = true) (depth level : Nat) (d : Document) (rest : List Char) :
    value depth (bs ++ textBefore spacing level d rest) =
      value depth (textBefore spacing level d rest) := by
  rw [value.eq_def, value.eq_def, skipBlanks_append hbs]

/-- A member and those after it, if there are rounds enough. -/
theorem members_eq_outcome {spacing : Spacing} {level depth : Nat} {key : String} {x : Document}
    {more : List (String × Document)} {fuel s tail rest : List Char} {first : Bool}
    {before : List (String × Json)}
    (hnext : nextMember first s = .ok (.entry (key.toList.flatMap escaped ++ '"' :: ':' ::
      (spacing.gap ++ textBefore spacing level x tail))))
    (hx : value depth (textBefore spacing level x tail) = outcome x.nesting depth x.toJson tail)
    (hmore : ∀ (fuel : List Char) (before : List (String × Json)), more.length < fuel.length →
      members stringText (valueMember depth) fuel false before tail =
        outcome (nestingOfMembers more) depth ((toMembers more).reverse ++ before) rest)
    (hfuel : more.length + 1 < fuel.length) :
    members stringText (valueMember depth) fuel first before s =
      outcome (nestingOfMembers ((key, x) :: more)) depth
        ((toMembers ((key, x) :: more)).reverse ++ before) rest := by
  have hmember : valueMember depth key before
      (':' :: (spacing.gap ++ textBefore spacing level x tail)) =
        outcome x.nesting depth ((key, x.toJson) :: before) tail := by
    show (value depth (spacing.gap ++ _) >>= _) = _
    rw [value_append_textBefore spacing.isBlank_gap, hx]
    exact outcome_map fun v => (key, v) :: before
  cases fuel with
  | nil => exact absurd hfuel (Nat.not_lt_zero _)
  | cons c fuel =>
    rw [members, hnext, ok_bind]
    dsimp only
    rw [stringText_escaped, ok_bind]
    dsimp only
    rw [hmember, nestingOfMembers]
    refine outcome_bind ?_
    dsimp only
    rw [hmore fuel _ (Nat.lt_of_succ_lt_succ hfuel), toMembers, List.reverse_cons,
      List.append_assoc]
    rfl

theorem skipBlanks_nameBefore (spacing : Spacing) (outer : Nat) (key : String)
    (tail : List Char) :
    skipBlanks (spacing.line outer ++ nameBefore spacing key tail) =
      '"' :: (key.toList.flatMap escaped ++ '"' :: ':' :: (spacing.gap ++ tail)) := by
  rw [skipBlanks_append (spacing.isBlank_line outer), nameBefore, string_append]
  exact skipBlanks_cons rfl _

theorem value_of_isPlain {s : List Char} (hne : s ≠ []) (hs : ∀ c ∈ s, isPlain c = true)
    (depth : Nat) (rest : List Char) : value depth (s ++ rest) = scalar (s ++ rest) := by
  cases s with
  | nil => exact absurd rfl hne
  | cons c s =>
    have hc : isPlain c = true := hs c List.mem_cons_self
    refine value_scalar (skipBlanks_cons (not_isBlank_of_isPlain hc) _) ?_ ?_ depth
    · rintro rfl
      cases hc
    · rintro rfl
      cases hc

theorem ends_itemsBefore (spacing : Spacing) (level outer : Nat) (xs : List Document)
    (rest : List Char) :
    Ends (itemsBefore spacing level xs (spacing.line outer ++ ']' :: rest)) := by
  cases xs with
  | nil =>
    rw [itemsBefore]
    exact (ends_cons rfl rest).blanks (spacing.isBlank_line outer)
  | cons x xs =>
    rw [itemsBefore]
    exact ends_cons rfl _

theorem ends_membersBefore (spacing : Spacing) (level outer : Nat)
    (ms : List (String × Document)) (rest : List Char) :
    Ends (membersBefore spacing level ms (spacing.line outer ++ '}' :: rest)) := by
  rcases ms with _ | ⟨⟨key, x⟩, more⟩
  · rw [membersBefore]
    exact (ends_cons rfl rest).blanks (spacing.isBlank_line outer)
  · rw [membersBefore]
    exact ends_cons rfl _

mutual

/-- **A document is read back**, or refused for its depth. -/
theorem value_textBefore (spacing : Spacing) : ∀ (d : Document) (level depth : Nat)
    (rest : List Char), Legible d → Ends rest →
    value depth (textBefore spacing level d rest) = outcome d.nesting depth d.toJson rest
  | .single x, level, depth, rest, .single hx, hrest => by
    rw [textBefore, value_of_isPlain (single_ne_nil x) (fun c => isPlain_of_mem_single),
      scalar_toJson hx hrest, nesting, outcome_zero]
  | .count n, level, depth, rest, .count hn, hrest => by
    rw [textBefore, value_of_isPlain Nat.toDigits_ne_nil (fun c => isPlain_of_mem_digits),
      scalar_toDigits hn hrest, nesting, outcome_zero, toJson]
  | .bool b, level, depth, rest, _, hrest => by
    have hplain : ∀ c ∈ if b then "true".toList else "false".toList, isPlain c = true := by
      refine List.all_eq_true.1 ?_
      cases b <;> decide
    rw [textBefore, value_of_isPlain (by cases b <;> exact List.cons_ne_nil _ _) hplain,
      nesting, outcome_zero]
    cases b <;> rfl
  | .text s, level, depth, rest, _, hrest => by
    rw [textBefore, string_append, nesting, outcome_zero,
      value_scalar (skipBlanks_cons rfl _) (by decide) (by decide)]
    show (stringText _ >>= _) = _
    rw [stringText_escaped]
    rfl
  | .list [], level, depth, rest, _, hrest => by
    rw [textBefore, nesting]
    cases depth with
    | zero => rfl
    | succ depth =>
      rw [value_list (skipBlanks_cons rfl _), outcome_succ]
      exact (outcome_zero depth _ rest).symm
  | .list (x :: xs), level, depth, rest, .list hitems, hrest => by
    rw [textBefore, nesting]
    cases depth with
    | zero => rfl
    | succ depth =>
      have hx := value_textBefore spacing x (level + 1) depth
        (itemsBefore spacing (level + 1) xs (spacing.line level ++ ']' :: rest))
        (hitems x List.mem_cons_self) (ends_itemsBefore _ _ _ _ _)
      have hxs := fun fuel => elements_itemsBefore spacing xs (level + 1) level depth fuel rest
        fun y hy => hitems y (List.mem_cons_of_mem x hy)
      rw [value_list (skipBlanks_cons rfl _), outcome_succ, listOf,
        elements_eq_outcome (nextElement_true_textBefore ..) hx hxs]
      · exact outcome_map Json.list
      · -- the text itself counts the rounds, and it has more characters than elements
        have hlength := length_lt_textBefore spacing (level + 1) x
          (itemsBefore spacing (level + 1) xs (spacing.line level ++ ']' :: rest))
        have hlength' := length_le_itemsBefore spacing (level + 1) xs
          (spacing.line level ++ ']' :: rest)
        simp only [List.length_cons, List.length_append] at hlength' ⊢
        omega
  | .object [], level, depth, rest, _, hrest => by
    rw [textBefore, nesting]
    cases depth with
    | zero => rfl
    | succ depth =>
      rw [value_object (skipBlanks_cons rfl _), outcome_succ]
      exact (outcome_zero depth _ rest).symm
  | .object ((key, x) :: more), level, depth, rest, .object hmembers, hrest => by
    rw [textBefore, nesting]
    cases depth with
    | zero => rfl
    | succ depth =>
      have hx := value_textBefore spacing x (level + 1) depth
        (membersBefore spacing (level + 1) more (spacing.line level ++ '}' :: rest))
        (hmembers (key, x) List.mem_cons_self) (ends_membersBefore _ _ _ _ _)
      have hmore := fun fuel before =>
        members_membersBefore spacing more (level + 1) level depth fuel rest before
          fun m hm => hmembers m (List.mem_cons_of_mem (key, x) hm)
      rw [value_object (skipBlanks_cons rfl _), outcome_succ, objectOf, members_eq_outcome
        (nextMember_true_of_entry (skipBlanks_nameBefore ..)) hx hmore]
      · rw [List.append_nil]
        refine (outcome_map fun ms : List (String × Json) => Json.object ms.reverse).trans ?_
        rw [List.reverse_reverse]
        rfl
      · have hlength := length_lt_textBefore spacing (level + 1) x
          (membersBefore spacing (level + 1) more (spacing.line level ++ '}' :: rest))
        have hlength' := length_le_membersBefore spacing (level + 1) more
          (spacing.line level ++ '}' :: rest)
        simp only [nameBefore, List.length_cons, List.length_append] at hlength' ⊢
        omega

/-- Further elements are read back, up to the end of their list. -/
theorem elements_itemsBefore (spacing : Spacing) : ∀ (xs : List Document) (level outer depth : Nat)
    (fuel rest : List Char), (∀ x ∈ xs, Legible x) → xs.length < fuel.length →
    elements (value depth) fuel false
        (itemsBefore spacing level xs (spacing.line outer ++ ']' :: rest)) =
      outcome (nestingOf xs) depth (toJsons xs) rest
  | [], level, outer, depth, c :: fuel, rest, hxs, hfuel => by
    have hclose : skipBlanks (spacing.line outer ++ ']' :: rest) = ']' :: rest :=
      skipBlanks_append (spacing.isBlank_line outer) _
    rw [itemsBefore, elements, nextElement_of_closes hclose, nestingOf, outcome_zero]
    rfl
  | x :: xs, level, outer, depth, fuel, rest, hxs, hfuel => by
    have hx := value_textBefore spacing x level depth
      (itemsBefore spacing level xs (spacing.line outer ++ ']' :: rest))
      (hxs x List.mem_cons_self) (ends_itemsBefore _ _ _ _ _)
    have hmore := fun fuel => elements_itemsBefore spacing xs level outer depth fuel rest
      fun y hy => hxs y (List.mem_cons_of_mem x hy)
    rw [itemsBefore]
    exact elements_eq_outcome (nextElement_false_textBefore ..) hx hmore hfuel

/-- Further members are read back, up to the end of their object. -/
theorem members_membersBefore (spacing : Spacing) : ∀ (ms : List (String × Document))
    (level outer depth : Nat) (fuel rest : List Char) (before : List (String × Json)),
    (∀ m ∈ ms, Legible m.2) → ms.length < fuel.length →
    members stringText (valueMember depth) fuel false before
        (membersBefore spacing level ms (spacing.line outer ++ '}' :: rest)) =
      outcome (nestingOfMembers ms) depth ((toMembers ms).reverse ++ before) rest
  | [], level, outer, depth, c :: fuel, rest, before, hms, hfuel => by
    have hclose : skipBlanks (spacing.line outer ++ '}' :: rest) = '}' :: rest :=
      skipBlanks_append (spacing.isBlank_line outer) _
    rw [membersBefore, members, nextMember_of_closes hclose, nestingOfMembers, outcome_zero]
    rfl
  | (key, x) :: more, level, outer, depth, fuel, rest, before, hms, hfuel => by
    have hx := value_textBefore spacing x level depth
      (membersBefore spacing level more (spacing.line outer ++ '}' :: rest))
      (hms (key, x) List.mem_cons_self) (ends_membersBefore _ _ _ _ _)
    have hmore := fun fuel before =>
      members_membersBefore spacing more level outer depth fuel rest before
        fun m hm => hms m (List.mem_cons_of_mem (key, x) hm)
    rw [membersBefore]
    exact members_eq_outcome (nextMember_false_of_entry (skipBlanks_cons rfl _)
      (skipBlanks_nameBefore ..)) hx hmore hfuel

end

end Document

end Linework.Json
