import Linework.Json.Document
import Linework.Json.Record
import Linework.Proofs.Json.Reader
import Linework.Proofs.Single

/-!
# Numbers read back

A numeral ends where a character stands that cannot continue it, and the reader
looks no further than that character. So a number is read alike wherever its text
stands, as long as what follows does not continue it (`Ends`): `ReadsFront` says
that of a reader, and `numberText` is such a reader.

From that, a count is read back from its digits. A single is written with the
fewest digits that tell it apart, and whether these are read back to it is a
question about the arithmetic of doubles, which is not answered here. `TextStable`
is the answer wanted, asked of the arithmetic's own equality; nothing more is
assumed anywhere, and for the zeros not even that.
-/

namespace Linework.Json

/-! ## Where a numeral ends -/

/-- The characters that may continue a numeral after a digit. -/
def continuesNumeral (c : Char) : Bool := c.isDigit || c == '.' || c == 'e' || c == 'E'

/-- A text that does not continue a numeral before it. -/
def Ends (s : List Char) : Prop := ∀ c ∈ s.head?, continuesNumeral c = false

theorem ends_nil : Ends [] := by
  intro c hc
  cases hc

theorem ends_cons {c : Char} (h : continuesNumeral c = false) (s : List Char) : Ends (c :: s) := by
  intro c' hc'
  cases hc'
  exact h

theorem continuesNumeral_of_isBlank {c : Char} (h : isBlank c = true) :
    continuesNumeral c = false := by
  simp only [isBlank, Bool.or_eq_true, beq_iff_eq] at h
  rcases h with ((rfl | rfl) | rfl) | rfl <;> rfl

/-- Blanks end a numeral, and so does what ends one without them. -/
theorem Ends.blanks {bs s : List Char} (hbs : ∀ c ∈ bs, isBlank c = true) (hs : Ends s) :
    Ends (bs ++ s) := by
  cases bs with
  | nil => exact hs
  | cons b bs =>
    exact ends_cons (continuesNumeral_of_isBlank (hbs b List.mem_cons_self)) _

theorem Ends.not_isDigit {s : List Char} (h : Ends s) : ∀ c ∈ s.head?, c.isDigit = false := by
  intro c hc
  have := h c hc
  simp only [continuesNumeral, Bool.or_eq_false_iff] at this
  exact this.1.1.1

/-- The digits in front of a text that goes on otherwise. -/
theorem takeWhile_dropWhile_digits {ds rest : List Char} (hds : ∀ c ∈ ds, c.isDigit = true)
    (hrest : ∀ c ∈ rest.head?, c.isDigit = false) :
    (ds ++ rest).takeWhile Char.isDigit = ds ∧ (ds ++ rest).dropWhile Char.isDigit = rest := by
  rw [List.takeWhile_append_of_pos hds, List.dropWhile_append_of_pos hds]
  cases rest with
  | nil => exact ⟨List.append_nil ds, rfl⟩
  | cons c rest =>
    have hc : c.isDigit = false := hrest c rfl
    rw [List.takeWhile_cons, List.dropWhile_cons, hc]
    exact ⟨List.append_nil ds, rfl⟩

/-- Every text is some digits in front of a text that goes on otherwise. -/
theorem exists_digits_append (s : List Char) :
    ∃ ds rest, s = ds ++ rest ∧ (∀ c ∈ ds, c.isDigit = true) ∧
      ∀ c ∈ rest.head?, c.isDigit = false := by
  refine ⟨s.takeWhile Char.isDigit, s.dropWhile Char.isDigit,
    List.takeWhile_append_dropWhile.symm, fun c => List.mem_takeWhile_imp, fun c hc => ?_⟩
  have hhead := List.head?_dropWhile_not Char.isDigit s
  rw [Option.mem_def.1 hc] at hhead
  simpa using hhead

/-- What a text is read as is read from its front alone, and would be read from
there whatever came next, if only it does not continue a numeral. -/
def ReadsFront {α : Type} (read : Reader α) (s : List Char) (a : α) (rest : List Char) : Prop :=
  ∃ front, s = front ++ rest ∧ ∀ more, Ends more → read (front ++ more) = .ok (a, more)

/-- Nothing at all is read from any front. -/
theorem ReadsFront.nothing {α : Type} {read : Reader α} {a : α} {s : List Char}
    (h : ∀ more, Ends more → read more = .ok (a, more)) : ReadsFront read s a s :=
  ⟨[], rfl, h⟩

/-- A text may be lengthened at its front. -/
theorem ReadsFront.append {α : Type} {read next : Reader α} {s rest : List Char} {a : α}
    (before : List Char) (h : ReadsFront next s a rest)
    (hread : ∀ t, read (before ++ t) = next t) : ReadsFront read (before ++ s) a rest := by
  obtain ⟨front, rfl, hmore⟩ := h
  refine ⟨before ++ front, (List.append_assoc ..).symm, fun more hends => ?_⟩
  rw [List.append_assoc, hread]
  exact hmore more hends

/-- A text may be lengthened by digits in front of something else, if they decide
how the reader goes on. -/
theorem ReadsFront.digits {α : Type} {read next : Reader α} {s rest : List Char} {a : α}
    {ds : List Char} (h : ReadsFront next s a rest) (hs : ∀ c ∈ s.head?, c.isDigit = false)
    (hread : ∀ t : List Char, (∀ c ∈ t.head?, c.isDigit = false) → read (ds ++ t) = next t) :
    ReadsFront read (ds ++ s) a rest := by
  obtain ⟨front, rfl, hmore⟩ := h
  refine ⟨ds ++ front, (List.append_assoc ..).symm, fun more hends => ?_⟩
  rw [List.append_assoc, hread]
  · exact hmore more hends
  · -- what follows the digits begins as before, or with what ends a numeral
    cases front with
    | nil => exact hends.not_isDigit
    | cons c front => exact hs

/-! ## The parts of a numeral -/

section Parts

variable {atEnd : Fault} {n : Numeral} {s rest : List Char}

/-- The digits of an exponent. -/
def exponentDigits (atEnd : Fault) (digits : Nat) (start : Int) (down : Bool) : Reader Numeral :=
  fun s => match s with
    | [] => .error atEnd
    | c :: _ =>
      if c.isDigit then
        let e := (s.takeWhile Char.isDigit).foldl (fun n d => n * 10 + digitValue d) 0
        .ok (⟨digits, if down then start - e else start + e, false⟩, s.dropWhile Char.isDigit)
      else .error (.malformed .invalidNumber)

theorem readsFront_exponentDigits {digits : Nat} {start : Int} {down : Bool}
    (h : exponentDigits atEnd digits start down s = .ok (n, rest)) :
    ReadsFront (exponentDigits atEnd digits start down) s n rest := by
  obtain ⟨ds, tail, rfl, hds, htail⟩ := exists_digits_append s
  cases ds with
  | nil =>
    cases tail with
    | nil => cases h
    | cons c tail =>
      have hc : c.isDigit = false := htail c rfl
      simp [exponentDigits, hc] at h
  | cons d ds =>
    have hread : ∀ t : List Char, (∀ c ∈ t.head?, c.isDigit = false) →
        exponentDigits atEnd digits start down (d :: ds ++ t) =
          .ok (⟨digits, if down
            then start - ((d :: ds).foldl (fun n d => n * 10 + digitValue d) 0 : Nat)
            else start + ((d :: ds).foldl (fun n d => n * 10 + digitValue d) 0 : Nat), false⟩, t) := by
      intro t ht
      obtain ⟨htake, hdrop⟩ := takeWhile_dropWhile_digits hds ht
      show (if d.isDigit = true then _ else _) = _
      rw [if_pos (hds d List.mem_cons_self)]
      rw [htake, hdrop]
    rw [hread tail htail] at h
    cases h
    exact (ReadsFront.nothing fun _ _ => rfl).digits htail hread

theorem exponentPart_cons {digits : Nat} {start : Int} {c : Char} (hplus : c ≠ '+')
    (hminus : c ≠ '-') (t : List Char) :
    exponentPart atEnd digits start (c :: t) =
      exponentDigits atEnd digits start false (c :: t) := by
  unfold exponentPart
  split
  next down s' heq =>
  split at heq
  · next hc => cases hc; exact absurd rfl hplus
  · next hc => cases hc; exact absurd rfl hminus
  · cases heq
    rfl

theorem readsFront_exponentPart {digits : Nat} {start : Int}
    (h : exponentPart atEnd digits start s = .ok (n, rest)) :
    ReadsFront (exponentPart atEnd digits start) s n rest := by
  cases s with
  | nil => cases h
  | cons c t =>
    by_cases hplus : c = '+'
    · subst hplus
      exact (readsFront_exponentDigits h).append ['+'] fun t => rfl
    · by_cases hminus : c = '-'
      · subst hminus
        exact (readsFront_exponentDigits h).append ['-'] fun t => rfl
      · rw [exponentPart_cons hplus hminus] at h
        obtain ⟨front, hs, hmore⟩ := readsFront_exponentDigits h
        refine ⟨front, hs, fun more hends => ?_⟩
        cases front with
        | nil => cases hmore [] ends_nil
        | cons d front =>
          obtain ⟨rfl, -⟩ := List.cons.inj hs
          rw [List.cons_append, exponentPart_cons hplus hminus]
          exact hmore more hends

/-- What may follow the digits of a numeral that has its point behind it. -/
def afterPlaces (atEnd : Fault) (n : Numeral) : Reader Numeral
  | 'e' :: rest => exponentPart atEnd n.digits n.exponent rest
  | 'E' :: rest => exponentPart atEnd n.digits n.exponent rest
  | rest => .ok (n, rest)

/-- What may follow the digits a numeral begins with. -/
def afterLeading (atEnd : Fault) (n : Numeral) : Reader Numeral
  | '.' :: rest => fractionPart atEnd n.digits n.exponent rest
  | rest => afterPlaces atEnd n rest

theorem Ends.ne {c : Char} (hs : Ends s) (hc : continuesNumeral c = true) (t : List Char) :
    s ≠ c :: t := by
  rintro rfl
  rw [hs c rfl] at hc
  cases hc

theorem readsFront_afterPlaces {m : Numeral} (h : afterPlaces atEnd m s = .ok (n, rest)) :
    ReadsFront (afterPlaces atEnd m) s n rest := by
  unfold afterPlaces at h
  split at h
  · exact (readsFront_exponentPart h).append ['e'] fun t => rfl
  · exact (readsFront_exponentPart h).append ['E'] fun t => rfl
  · cases h
    refine .nothing fun more hends => ?_
    exact afterPlaces.eq_3 atEnd n more (hends.ne rfl) (hends.ne rfl)

theorem fractionPart_append {digits : Nat} {start : Int} {ds : List Char} (hne : ds ≠ [])
    (hds : ∀ c ∈ ds, c.isDigit = true) {t : List Char} (ht : ∀ c ∈ t.head?, c.isDigit = false) :
    fractionPart atEnd digits start (ds ++ t) =
      afterPlaces atEnd ⟨(gather digits ds).1,
        start - (ds.length - (gather digits ds).2.length : Nat), false⟩ t := by
  obtain ⟨htake, hdrop⟩ := takeWhile_dropWhile_digits hds ht
  unfold fractionPart
  dsimp only
  rw [htake, hdrop, if_neg (by simpa using hne)]
  split
  · rfl
  · rfl
  · next he hE => exact (afterPlaces.eq_3 atEnd _ t he hE).symm

theorem readsFront_fractionPart {digits : Nat} {start : Int}
    (h : fractionPart atEnd digits start s = .ok (n, rest)) :
    ReadsFront (fractionPart atEnd digits start) s n rest := by
  obtain ⟨ds, tail, rfl, hds, htail⟩ := exists_digits_append s
  by_cases hne : ds = []
  · subst hne
    obtain ⟨htake, hdrop⟩ := takeWhile_dropWhile_digits hds htail
    unfold fractionPart at h
    dsimp only at h
    rw [htake] at h
    cases h
  · rw [fractionPart_append hne hds htail] at h
    exact (readsFront_afterPlaces h).digits htail fun t => fractionPart_append hne hds

theorem readsFront_afterLeading {m : Numeral} (h : afterLeading atEnd m s = .ok (n, rest)) :
    ReadsFront (afterLeading atEnd m) s n rest := by
  unfold afterLeading at h
  split at h
  · exact (readsFront_fractionPart h).append ['.'] fun t => rfl
  · next hs =>
    obtain ⟨front, rfl, hmore⟩ := readsFront_afterPlaces h
    refine ⟨front, rfl, fun more hends => ?_⟩
    rw [← hmore more hends]
    refine afterLeading.eq_2 atEnd m _ fun t ht => ?_
    cases front with
    | nil => exact hends.ne rfl t ht
    | cons c front =>
      obtain ⟨rfl, -⟩ := List.cons.inj ht
      exact hs _ rfl

theorem numeral_append {d : Char} {ds : List Char} (hds : ∀ c ∈ d :: ds, c.isDigit = true)
    {t : List Char} (ht : ∀ c ∈ t.head?, c.isDigit = false) :
    numeral atEnd (d :: ds ++ t) =
      if d = '0' ∧ 1 < (d :: ds).length then .error (.malformed .invalidNumber)
      else afterLeading atEnd ⟨(gather 0 (d :: ds)).1, (gather 0 (d :: ds)).2.length,
        (gather 0 (d :: ds)).2.isEmpty⟩ t := by
  obtain ⟨htake, hdrop⟩ := takeWhile_dropWhile_digits hds ht
  rw [List.cons_append] at htake hdrop ⊢
  unfold numeral
  dsimp only
  rw [htake, hdrop, if_pos (hds d List.mem_cons_self)]
  split
  · rfl
  · split
    · rfl
    · rfl
    · rfl
    · next hpoint he hE =>
      rw [afterLeading.eq_2 atEnd _ t hpoint, afterPlaces.eq_3 atEnd _ t he hE]

theorem readsFront_numeral (h : numeral atEnd s = .ok (n, rest)) :
    ReadsFront (numeral atEnd) s n rest := by
  obtain ⟨ds, tail, rfl, hds, htail⟩ := exists_digits_append s
  cases ds with
  | nil =>
    cases tail with
    | nil => cases h
    | cons c tail =>
      have hc : c.isDigit = false := htail c rfl
      simp [numeral, hc] at h
  | cons d ds =>
    by_cases hzero : d = '0' ∧ 1 < (d :: ds).length
    · rw [numeral_append hds htail, if_pos hzero] at h
      cases h
    · have hread : ∀ t : List Char, (∀ c ∈ t.head?, c.isDigit = false) →
          numeral atEnd (d :: ds ++ t) = _ := fun t ht =>
        (numeral_append hds ht).trans (if_neg hzero)
      rw [hread tail htail] at h
      exact (readsFront_afterLeading h).digits htail hread

end Parts

/-- **A number is read from its own characters**, whatever follows them. -/
theorem readsFront_numberText {negative : Bool} {n : Number} {s rest : List Char}
    (h : numberText negative s = .ok (n, rest)) : ReadsFront (numberText negative) s n rest := by
  obtain ⟨⟨m, rest'⟩, hm, h⟩ := bind_eq_ok_iff.1 h
  obtain ⟨n', hn, h⟩ := bind_eq_ok_iff.1 h
  cases h
  obtain ⟨front, hs, hmore⟩ := readsFront_numeral hm
  refine ⟨front, hs, fun more hends => ?_⟩
  exact bind_eq_ok_iff.2 ⟨(m, more), hmore more hends, bind_eq_ok_iff.2 ⟨n, hn, rfl⟩⟩

theorem scalar_digit {c : Char} (hc : c.isDigit = true) (t : List Char) :
    scalar (c :: t) = (do
      let (n, rest) ← numberText false (c :: t)
      return (.number n, rest)) := by
  have hne : ∀ c' : Char, c'.isDigit = false → c ≠ c' := by
    rintro c' hc' rfl
    rw [hc] at hc'
    cases hc'
  rw [scalar.eq_6 c t (hne 'n' rfl) (hne 't' rfl) (hne 'f' rfl) (hne '"' rfl) (hne '-' rfl),
    if_pos hc]

theorem readsFront_scalar {n : Number} {s rest : List Char}
    (h : scalar s = .ok (.number n, rest)) : ReadsFront scalar s (.number n) rest := by
  unfold scalar at h
  split at h
  · obtain ⟨_, -, h⟩ := bind_eq_ok_iff.1 h
    cases h
  · obtain ⟨_, -, h⟩ := bind_eq_ok_iff.1 h
    cases h
  · obtain ⟨_, -, h⟩ := bind_eq_ok_iff.1 h
    cases h
  · obtain ⟨⟨_, _⟩, -, h⟩ := bind_eq_ok_iff.1 h
    cases h
  · obtain ⟨⟨n', rest'⟩, hn, h⟩ := bind_eq_ok_iff.1 h
    cases h
    obtain ⟨front, rfl, hmore⟩ := readsFront_numberText hn
    refine ⟨'-' :: front, rfl, fun more hends => ?_⟩
    exact bind_eq_ok_iff.2 ⟨(n, more), hmore more hends, rfl⟩
  · next c t _ _ _ _ _ =>
    split at h
    · next hc =>
      obtain ⟨⟨n', rest'⟩, hn, h⟩ := bind_eq_ok_iff.1 h
      cases h
      obtain ⟨front, hs, hmore⟩ := readsFront_numberText hn
      refine ⟨front, hs, fun more hends => ?_⟩
      cases front with
      | nil => cases hmore [] ends_nil
      | cons d front =>
        obtain ⟨rfl, -⟩ := List.cons.inj hs
        rw [List.cons_append, scalar_digit hc]
        exact bind_eq_ok_iff.2 ⟨(n, more), hmore more hends, rfl⟩
    · cases h
  · cases h

/-! ## Counts -/

/-- Digits that stay within 64 bits are all gathered. -/
theorem gather_of_le {cs : List Char} {n : Nat} (h : Nat.ofDigitChars 10 cs n ≤ greatestCount) :
    gather n cs = (Nat.ofDigitChars 10 cs n, []) := by
  induction cs generalizing n with
  | nil => rfl
  | cons c cs ih =>
    have hstep : n * 10 + digitValue c = 10 * n + (c.toNat - '0'.toNat) := by
      rw [Nat.mul_comm]
      rfl
    rw [Nat.ofDigitChars_cons, ← hstep] at h ⊢
    have hle : n * 10 + digitValue c ≤ greatestCount := by
      refine Nat.le_trans ?_ h
      rw [Nat.ofDigitChars_eq_ofDigitChars_zero]
      exact Nat.le_trans (Nat.le_mul_of_pos_left _ (Nat.pow_pos (by decide))) (Nat.le_add_right ..)
    rw [gather, if_pos hle]
    exact ih h

/-- Only the digits of zero begin with a zero. -/
theorem head?_toDigits_ne {n : Nat} (h : 0 < n) : (Nat.toDigits 10 n).head? ≠ some '0' := by
  induction n using Nat.base_induction 10 (by decide) with
  | single m hm =>
    rw [Nat.toDigits_of_lt_base hm]
    have hdigit : ∀ m < 10, 0 < m → [m.digitChar].head? ≠ some '0' := by decide
    exact hdigit m hm h
  | digit m k hk hm ih =>
    rw [← Nat.toDigits_append_toDigits (by decide) hm hk, List.head?_append]
    cases hhead : (Nat.toDigits 10 m).head? with
    | none => exact absurd (List.head?_eq_none_iff.1 hhead) Nat.toDigits_ne_nil
    | some d =>
      rw [← hhead]
      rw [hhead] at ih ⊢
      exact ih hm

/-- **A count is read back** from its digits. -/
theorem scalar_toDigits {n : Nat} (hn : n ≤ greatestCount) {rest : List Char} (hrest : Ends rest) :
    scalar (Nat.toDigits 10 n ++ rest) = .ok (.number (.whole n), rest) := by
  have hdigits : ∀ c ∈ Nat.toDigits 10 n, c.isDigit = true := fun c =>
    Nat.isDigit_of_mem_toDigits (by decide) (by decide)
  have hgather : gather 0 (Nat.toDigits 10 n) = (n, []) := by
    rw [gather_of_le, Nat.ofDigitChars_ten_toDigits]
    rwa [Nat.ofDigitChars_ten_toDigits]
  have hzero : ∀ d ds, Nat.toDigits 10 n = d :: ds → ¬ (d = '0' ∧ 1 < (d :: ds).length) := by
    rintro d ds hds ⟨rfl, hlength⟩
    rcases Nat.eq_zero_or_pos n with rfl | hpos
    · rw [← hds] at hlength
      exact absurd hlength (by decide)
    · exact head?_toDigits_ne hpos (by rw [hds]; rfl)
  cases hds : Nat.toDigits 10 n with
  | nil => exact absurd hds Nat.toDigits_ne_nil
  | cons d ds =>
    rw [hds] at hdigits hgather
    have hafter : afterLeading (.unfinished .value) ⟨n, 0, true⟩ rest =
        .ok (⟨n, 0, true⟩, rest) := by
      rw [afterLeading.eq_2 _ _ _ (hrest.ne rfl), afterPlaces.eq_3 _ _ _ (hrest.ne rfl) (hrest.ne rfl)]
    rw [List.cons_append, scalar_digit (hdigits d List.mem_cons_self), numberText,
      ← List.cons_append, numeral_append hdigits hrest.not_isDigit, if_neg (hzero d ds hds), hgather]
    show (afterLeading (.unfinished .value) ⟨n, 0, true⟩ rest >>= _) >>= _ = _
    rw [hafter]
    rfl

/-! ## Singles -/

/-- The characters of numbers and words: no blanks, no quotes and no brackets. -/
def isPlain (c : Char) : Bool := c.isAlphanum || c == '.' || c == '+' || c == '-'

theorem isPlain_of_mem_digits {n : Nat} {c : Char} (h : c ∈ Layout.digits n) :
    isPlain c = true := by
  have hdigit : c.isDigit = true := Nat.isDigit_of_mem_toDigits (by decide) (by decide) h
  simp [isPlain, Char.isAlphanum, hdigit]

theorem isPlain_of_mem_written {d : Decimal} {c : Char} (h : c ∈ singleLayout.written d) :
    isPlain c = true := by
  have hzero : ∀ k, c ∈ List.replicate k '0' → isPlain c = true := by
    intro k hk
    rw [List.eq_of_mem_replicate hk]
    rfl
  unfold Layout.written at h
  dsimp only at h
  split at h
  · rw [List.mem_append, List.mem_append] at h
    rcases h with (h | h) | h
    · exact isPlain_of_mem_digits h
    · exact hzero _ h
    · have hpoint : ['.', '0'].all isPlain = true := by decide
      exact List.all_eq_true.1 hpoint c h
  · have hpadded : ∀ k, c ∈ List.replicate k '0' ++ Layout.digits d.digits → isPlain c = true := by
      intro k hk
      rcases List.mem_append.1 hk with hk | hk
      · exact hzero _ hk
      · exact isPlain_of_mem_digits hk
    rw [List.mem_append, List.mem_cons] at h
    rcases h with h | rfl | h
    · exact hpadded _ (List.mem_of_mem_take h)
    · rfl
    · exact hpadded _ (List.mem_of_mem_drop h)

theorem isPlain_of_mem_scientific {d : Decimal} {c : Char} (h : c ∈ Layout.scientific d) :
    isPlain c = true := by
  unfold Layout.scientific at h
  dsimp only at h
  rw [List.mem_append, List.mem_cons, List.mem_cons] at h
  rcases h with h | rfl | rfl | h
  · split at h
    · next first second more hds =>
      have hmem : c = '.' ∨ c ∈ Layout.digits d.digits := by
        rw [hds]
        rw [List.mem_cons, List.mem_cons] at h
        rw [List.mem_cons]
        exact or_left_comm.1 h
      rcases hmem with rfl | hmem
      · rfl
      · exact isPlain_of_mem_digits hmem
    · exact isPlain_of_mem_digits h
  · rfl
  · split <;> rfl
  · exact isPlain_of_mem_digits h

theorem isPlain_of_mem_single {x : Float32} {c : Char} (h : c ∈ singleLayout.single x) :
    isPlain c = true := by
  have hnull : ∀ c ∈ "null".toList, isPlain c = true := List.all_eq_true.1 (by decide)
  unfold Layout.single at h
  generalize BinaryParts.ofSingle x = parts at h
  cases parts with
  | nan => exact hnull c h
  | infinite negative => exact hnull c h
  | finite negative units exponent =>
    have hmagnitude : ∀ d : Decimal, c ∈ (if singleLayout.positional d.leadingExponent
        then singleLayout.written d else Layout.scientific d) → isPlain c = true := by
      intro d hd
      split at hd
      · exact isPlain_of_mem_written hd
      · exact isPlain_of_mem_scientific hd
    unfold Layout.write at h
    dsimp only at h
    split at h
    · rcases List.mem_cons.1 h with rfl | h
      · rfl
      · exact hmagnitude _ h
    · exact hmagnitude _ h

theorem not_isBlank_of_isPlain {c : Char} (h : isPlain c = true) : isBlank c = false := by
  refine Bool.eq_false_iff.2 fun hblank => ?_
  simp only [isBlank, Bool.or_eq_true, beq_iff_eq] at hblank
  rcases hblank with ((rfl | rfl) | rfl) | rfl <;> cases h

theorem single_ne_nil (x : Float32) : singleLayout.single x ≠ [] := by
  unfold Layout.single
  generalize BinaryParts.ofSingle x = parts
  cases parts with
  | nan => exact List.cons_ne_nil _ _
  | infinite negative => exact List.cons_ne_nil _ _
  | finite negative units exponent =>
    unfold Layout.write
    dsimp only
    split
    · exact List.cons_ne_nil _ _
    · split
      · unfold Layout.written
        dsimp only
        split
        · intro h
          exact Nat.toDigits_ne_nil (List.append_eq_nil_iff.1 (List.append_eq_nil_iff.1 h).1).1
        · exact List.append_ne_nil_of_right_ne_nil _ (List.cons_ne_nil _ _)
      · exact List.append_ne_nil_of_right_ne_nil _ (List.cons_ne_nil _ _)

/-- **A single whose text stands for it**: read as a single, the text it is written
with gives an equal one. -/
def TextStable (x : Float32) : Prop :=
  ∃ y, document single (singleLayout.single x) = .ok y ∧ (y == x) = true

/-- The text of a finite single gives that single and no other: the one case in
which equality leaves a choice is that of the zeros, and their texts tell. -/
theorem document_single {x : Float32} (hx : x.isFinite = true) (h : TextStable x) :
    document single (singleLayout.single x) = .ok x := by
  obtain ⟨y, hy, hequal⟩ := h
  rcases eq_of_beq_of_isFinite hx hequal with rfl | ⟨hzero, -⟩
  · exact hy
  · rcases eq_zero_of_toBits hzero with rfl | rfl
    · exact toOption_eq_some_iff.1 (by decide +kernel)
    · exact toOption_eq_some_iff.1 (by decide +kernel)

/-- A number is read by itself as it is read among other values. -/
theorem scalar_of_numeric {α : Type} {expected : Expected} {accept : Number → Except Mismatch α}
    {depth : Nat} {s rest : List Char} {a : α}
    (h : numeric expected accept depth s = .ok (a, rest)) :
    ∃ n, scalar (skipBlanks s) = .ok (.number n, rest) ∧ accept n = .ok a := by
  unfold numeric at h
  split at h
  · cases h
  · next t ht =>
    obtain ⟨⟨n, rest'⟩, hn, h⟩ := bind_eq_ok_iff.1 h
    obtain ⟨a', ha, h⟩ := bind_eq_ok_iff.1 h
    cases h
    rw [ht]
    exact ⟨n, bind_eq_ok_iff.2 ⟨(n, rest), hn, rfl⟩, mapError_eq_ok_iff.1 ha⟩
  · next c t _ ht =>
    split at h
    · next hc =>
      obtain ⟨⟨n, rest'⟩, hn, h⟩ := bind_eq_ok_iff.1 h
      obtain ⟨a', ha, h⟩ := bind_eq_ok_iff.1 h
      cases h
      rw [ht, scalar_digit hc]
      exact ⟨n, bind_eq_ok_iff.2 ⟨(n, rest), hn, rfl⟩, mapError_eq_ok_iff.1 ha⟩
    · cases h

/-- **A single is read back** wherever its text stands. -/
theorem scalar_single {x : Float32} (hx : x.isFinite = true) (h : TextStable x) :
    ∃ n : Number, n.toSingle = x ∧
      ∀ rest, Ends rest → scalar (singleLayout.single x ++ rest) = .ok (.number n, rest) := by
  obtain ⟨⟨y, rest⟩, hread, hend⟩ := bind_eq_ok_iff.1 (document_single hx h)
  dsimp only at hend
  split at hend
  · next hblank =>
    cases hend
    obtain ⟨n, hscalar, haccept⟩ := scalar_of_numeric hread
    cases haccept
    have hplain : ∀ c ∈ singleLayout.single n.toSingle, isBlank c = false := fun c hc =>
      not_isBlank_of_isPlain (isPlain_of_mem_single hc)
    have hskip : skipBlanks (singleLayout.single n.toSingle) = singleLayout.single n.toSingle := by
      cases hs : singleLayout.single n.toSingle with
      | nil => rfl
      | cons c t =>
        rw [hs] at hplain
        exact skipBlanks_cons (hplain c List.mem_cons_self) t
    rw [hskip] at hscalar
    obtain ⟨front, hs, hmore⟩ := readsFront_scalar hscalar
    -- nothing but blanks is left, and the text has none
    have hrest : rest = [] := by
      cases rest with
      | nil => rfl
      | cons c rest =>
        have hc : isBlank c = true :=
          List.dropWhile_eq_nil_iff.1 (List.isEmpty_iff.1 hblank) c List.mem_cons_self
        rw [hplain c (by rw [hs]; exact List.mem_append_right _ List.mem_cons_self)] at hc
        cases hc
    rw [hrest, List.append_nil] at hs
    refine ⟨n, rfl, fun rest hends => ?_⟩
    rw [hs]
    exact hmore rest hends
  · cases hend

/-- What is infinite or not a number is written as the absent value. -/
theorem single_of_not_isFinite {x : Float32} (hx : x.isFinite = false) :
    singleLayout.single x = "null".toList := by
  unfold Layout.single
  rcases ofSingle_of_not_isFinite hx with hnan | ⟨negative, hinfinite⟩
  · rw [hnan]
    rfl
  · rw [hinfinite]
    rfl

/-- And so it is read back. -/
theorem scalar_not_isFinite {x : Float32} (hx : x.isFinite = false) (rest : List Char) :
    scalar (singleLayout.single x ++ rest) = .ok (.null, rest) := by
  rw [single_of_not_isFinite hx]
  rfl

end Linework.Json
