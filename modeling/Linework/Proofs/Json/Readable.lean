import Linework.Proofs.Double
import Linework.Proofs.Json.Numeral
import Linework.Proofs.Shortest

/-!
# The text of a finite single is a number

Whether a single is read back from its text is a question about the arithmetic of
doubles. That its text is read as *some* number is not: the text is a numeral, with
neither a zero too many in front nor a digit missing after its point or its letter, and
the power of ten that it counts is a small one. `Counts` says both of a text, and each of
the two layouts of a decimal is shown to be such a text. So a finite single never makes a
text unreadable, `exists_scalar_isFinite`, and what is not finite always makes it another
value than a number.
-/

namespace Linework.Json

/-- A text that is a numeral and counts a power of ten below `10 ^ 64`, whatever it is
followed by. -/
def Counts (s : List Char) : Prop :=
  ∃ n : Numeral, n.exponent < 64 ∧
    ∀ (atEnd : Fault) (rest : List Char), Ends rest → numeral atEnd (s ++ rest) = .ok (n, rest)

/-! ## The parts of a numeral -/

/-- Gathering digits leaves no more of them than there are. -/
theorem length_gather_le (n : Nat) (cs : List Char) : (gather n cs).2.length ≤ cs.length := by
  induction cs generalizing n with
  | nil => exact Nat.le_refl _
  | cons c cs ih =>
    rw [gather]
    split
    · exact Nat.le_succ_of_le (ih _)
    · exact Nat.le_refl _

/-- The digits a numeral begins with. -/
theorem exists_numeral_leading {lead : List Char} (hne : lead ≠ [])
    (hdigits : ∀ c ∈ lead, c.isDigit = true)
    (hzero : 1 < lead.length → lead.head? ≠ some '0') :
    ∃ n : Numeral, n.exponent ≤ lead.length ∧
      ∀ (atEnd : Fault) (t : List Char), (∀ c ∈ t.head?, c.isDigit = false) →
        numeral atEnd (lead ++ t) = afterLeading atEnd n t := by
  cases lead with
  | nil => exact absurd rfl hne
  | cons d ds =>
    refine ⟨⟨(gather 0 (d :: ds)).1, (gather 0 (d :: ds)).2.length,
      (gather 0 (d :: ds)).2.isEmpty⟩, Int.ofNat_le.2 (length_gather_le 0 _), fun atEnd t ht => ?_⟩
    rw [numeral_append hdigits ht, if_neg]
    rintro ⟨rfl, hlength⟩
    exact hzero hlength rfl

/-- The places after a point make the power of ten smaller, if they change it. -/
theorem exists_afterLeading_point (n : Numeral) {places : List Char} (hne : places ≠ [])
    (hdigits : ∀ c ∈ places, c.isDigit = true) :
    ∃ m : Numeral, m.exponent ≤ n.exponent ∧
      ∀ (atEnd : Fault) (t : List Char), (∀ c ∈ t.head?, c.isDigit = false) →
        afterLeading atEnd n ('.' :: (places ++ t)) = afterPlaces atEnd m t :=
  ⟨_, Int.sub_le_self _ (Int.natCast_nonneg _),
    fun _ _ ht => fractionPart_append hne hdigits ht⟩

theorem afterPlaces_ends (atEnd : Fault) (n : Numeral) {rest : List Char} (hrest : Ends rest) :
    afterPlaces atEnd n rest = .ok (n, rest) :=
  afterPlaces.eq_3 atEnd n rest (hrest.ne rfl) (hrest.ne rfl)

/-- The digits of a count are read as that count after the letter of an exponent, too. -/
theorem foldl_toDigits (n : Nat) :
    (Nat.toDigits 10 n).foldl (fun n d => n * 10 + digitValue d) 0 = n := by
  have hstep : (fun n d => n * 10 + digitValue d) =
      fun (n : Nat) (d : Char) => 10 * n + (d.toNat - '0'.toNat) := by
    funext n d
    rw [Nat.mul_comm]
    rfl
  rw [hstep]
  exact Nat.ofDigitChars_ten_toDigits

/-- An exponent with its sign. -/
theorem afterPlaces_exponent (atEnd : Fault) (n : Numeral) (down : Bool) (e : Nat)
    {rest : List Char} (hrest : Ends rest) :
    afterPlaces atEnd n ('e' :: (if down then '-' else '+') :: (Nat.toDigits 10 e ++ rest)) =
      .ok (⟨n.digits, if down then n.exponent - e else n.exponent + e, false⟩, rest) := by
  have hdigits : ∀ c ∈ Nat.toDigits 10 e, c.isDigit = true := fun c =>
    Nat.isDigit_of_mem_toDigits (by decide) (by decide)
  obtain ⟨htake, hdrop⟩ := takeWhile_dropWhile_digits hdigits hrest.not_isDigit
  have hpart : afterPlaces atEnd n
      ('e' :: (if down then '-' else '+') :: (Nat.toDigits 10 e ++ rest)) =
        exponentDigits atEnd n.digits n.exponent down (Nat.toDigits 10 e ++ rest) := by
    cases down <;> rfl
  rw [hpart]
  unfold exponentDigits
  cases hds : Nat.toDigits 10 e with
  | nil => exact absurd hds Nat.toDigits_ne_nil
  | cons d ds =>
    rw [hds] at hdigits htake hdrop
    have hvalue := foldl_toDigits e
    rw [hds] at hvalue
    rw [List.cons_append] at htake hdrop ⊢
    dsimp only
    rw [if_pos (hdigits d List.mem_cons_self), htake, hdrop, hvalue]

/-! ## The two layouts -/

theorem isDigit_of_mem_digits {n : Nat} {c : Char} (h : c ∈ Layout.digits n) :
    c.isDigit = true :=
  Nat.isDigit_of_mem_toDigits (by decide) (by decide) h

theorem isDigit_of_mem_replicate {k : Nat} {c : Char} (h : c ∈ List.replicate k '0') :
    c.isDigit = true := by
  rw [List.eq_of_mem_replicate h]
  rfl

/-- Digits with a point among them. -/
theorem counts_point {lead places : List Char} (hne : lead ≠ [])
    (hdigits : ∀ c ∈ lead ++ places, c.isDigit = true)
    (hzero : 1 < lead.length → lead.head? ≠ some '0') (hlength : lead.length < 64)
    (hplaces : places ≠ []) : Counts (lead ++ '.' :: places) := by
  obtain ⟨n, hn, hlead⟩ := exists_numeral_leading hne
    (fun c hc => hdigits c (List.mem_append_left _ hc)) hzero
  obtain ⟨m, hm, hpoint⟩ := exists_afterLeading_point n hplaces
    fun c hc => hdigits c (List.mem_append_right _ hc)
  refine ⟨m, by omega, fun atEnd rest hrest => ?_⟩
  rw [List.append_assoc, List.cons_append, hlead atEnd _ (fun c hc => by cases hc; rfl),
    hpoint atEnd rest hrest.not_isDigit, afterPlaces_ends atEnd m hrest]

/-- **A decimal written out** is a numeral, if zero has no zeros after it. -/
theorem counts_written {l : Layout} (hfraction : l.fraction = true) {d : Decimal}
    (hzero : d.digits = 0 → d.exponent ≤ 0) (hleading : d.leadingExponent < 40) :
    Counts (l.written d) := by
  have hwidth : (Layout.digits d.digits).length = Decimal.width d.digits := rfl
  have hpos := Decimal.width_pos d.digits
  have hhead : d.digits ≠ 0 → (Layout.digits d.digits).head? ≠ some '0' := fun h =>
    head?_toDigits_ne (Nat.pos_of_ne_zero h)
  rw [Decimal.leadingExponent] at hleading
  unfold Layout.written
  dsimp only
  by_cases hexponent : 0 ≤ d.exponent
  · rw [if_pos hexponent, hfraction]
    refine counts_point (List.append_ne_nil_of_left_ne_nil Nat.toDigits_ne_nil _)
      (fun c hc => ?_) (fun hlength => ?_) ?_ (List.cons_ne_nil _ _)
    · rcases List.mem_append.1 hc with hc | hc
      · exact (List.mem_append.1 hc).elim isDigit_of_mem_digits isDigit_of_mem_replicate
      · rw [List.mem_singleton.1 hc]
        rfl
    · rw [List.length_append, List.length_replicate, hwidth] at hlength
      have hne : d.digits ≠ 0 := by
        intro h
        have hone : Decimal.width 0 = 1 := rfl
        rw [h, hone] at hlength
        have := hzero h
        omega
      cases hds : Layout.digits d.digits with
      | nil => exact absurd hds Nat.toDigits_ne_nil
      | cons c ds =>
        rw [hds] at hhead
        exact hhead hne
    · rw [List.length_append, List.length_replicate, hwidth]
      omega
  · -- zeros are put in front until there is a digit before the point, and then it is one
    rw [if_neg hexponent]
    generalize hplaces : (-d.exponent).toNat = places
    generalize hpadded : List.replicate (places + 1 - (Layout.digits d.digits).length) '0' ++
      Layout.digits d.digits = padded
    have hlength : padded.length = max (places + 1) (Decimal.width d.digits) := by
      rw [← hpadded, List.length_append, List.length_replicate, hwidth]
      omega
    have hlead : (padded.take (padded.length - places)).length = padded.length - places := by
      rw [List.length_take]
      omega
    refine counts_point (List.ne_nil_of_length_pos (by omega)) ?_ ?_ (by omega)
      (List.ne_nil_of_length_pos ?_)
    · rw [List.take_append_drop, ← hpadded]
      intro c hc
      exact (List.mem_append.1 hc).elim isDigit_of_mem_replicate isDigit_of_mem_digits
    · intro hmany
      have hne : d.digits ≠ 0 := by
        intro h
        have hone : Decimal.width 0 = 1 := rfl
        rw [h, hone] at hlength
        omega
      rw [List.head?_take, if_neg (by omega), ← hpadded, hwidth,
        show places + 1 - Decimal.width d.digits = 0 by omega]
      exact hhead hne
    · rw [List.length_drop]
      omega

/-- Digits with a point after the first, if there are more. -/
def pointed : List Char → List Char
  | first :: second :: more => first :: '.' :: second :: more
  | single => single

theorem scientific_eq (d : Decimal) :
    Layout.scientific d = pointed (Layout.digits d.digits) ++
      'e' :: (if d.leadingExponent < 0 then '-' else '+') ::
        Layout.digits d.leadingExponent.natAbs := rfl

/-- The first digit is the only one before the point. -/
theorem exists_numeral_pointed {ds : List Char} (hne : ds ≠ [])
    (hdigits : ∀ c ∈ ds, c.isDigit = true) :
    ∃ n : Numeral, n.exponent ≤ 1 ∧ ∀ (atEnd : Fault) (t : List Char),
      numeral atEnd (pointed ds ++ 'e' :: t) = afterPlaces atEnd n ('e' :: t) := by
  match ds, hne with
  | [first], _ =>
    obtain ⟨n, hn, hlead⟩ := exists_numeral_leading (List.cons_ne_nil first []) hdigits
      (fun h => absurd h (Nat.lt_irrefl 1))
    exact ⟨n, hn, fun atEnd t => hlead atEnd _ fun c hc => by cases hc; rfl⟩
  | first :: second :: more, _ =>
    obtain ⟨n, hn, hlead⟩ := exists_numeral_leading (List.cons_ne_nil first [])
      (fun c hc => hdigits c (List.mem_singleton.1 hc ▸ List.mem_cons_self))
      (fun h => absurd h (Nat.lt_irrefl 1))
    obtain ⟨m, hm, hpoint⟩ := exists_afterLeading_point n (List.cons_ne_nil second more)
      fun c hc => hdigits c (List.mem_cons_of_mem first hc)
    refine ⟨m, Int.le_trans hm hn, fun atEnd t => ?_⟩
    rw [← hpoint atEnd _ (fun c hc => by cases hc; rfl)]
    exact hlead atEnd _ fun c hc => by cases hc; rfl

/-- **A decimal with an exponent** is a numeral. -/
theorem counts_scientific {d : Decimal} (hleading : d.leadingExponent < 40) :
    Counts (Layout.scientific d) := by
  obtain ⟨n, hn, hnumeral⟩ := @exists_numeral_pointed (Layout.digits d.digits)
    Nat.toDigits_ne_nil fun c => isDigit_of_mem_digits
  refine ⟨⟨n.digits, if decide (d.leadingExponent < 0) then n.exponent - d.leadingExponent.natAbs
    else n.exponent + d.leadingExponent.natAbs, false⟩, ?_, fun atEnd rest hrest => ?_⟩
  · simp only [decide_eq_true_eq]
    split <;> omega
  · rw [← afterPlaces_exponent atEnd n _ _ hrest, ← hnumeral, scientific_eq, List.append_assoc]
    simp only [List.cons_append, decide_eq_true_eq]
    rfl

/-! ## Singles -/

/-- A numeral begins with a digit. -/
theorem Counts.exists_cons {s : List Char} (h : Counts s) :
    ∃ c t, s = c :: t ∧ c.isDigit = true := by
  obtain ⟨n, -, hnumeral⟩ := h
  have hread := hnumeral (.unfinished .value) [] ends_nil
  rw [List.append_nil] at hread
  cases s with
  | nil => cases hread
  | cons c t =>
    refine ⟨c, t, rfl, ?_⟩
    cases hc : c.isDigit with
    | true => rfl
    | false => simp [numeral, hc] at hread

theorem Numeral.exists_value {n : Numeral} (h : n.exponent < 64) (negative : Bool) :
    ∃ v : Number, n.value negative = .ok v := by
  obtain ⟨x, hx⟩ := n.exists_magnitude h
  unfold Numeral.value
  split
  · exact ⟨_, rfl⟩
  · split
    · exact ⟨_, rfl⟩
    · rw [hx]
      exact ⟨_, rfl⟩

/-- A numeral is a number, and so it is with a sign in front. -/
theorem Counts.exists_scalar {s : List Char} (h : Counts s) (negative : Bool) :
    ∃ n : Number, ∀ rest, Ends rest →
      scalar ((if negative then '-' :: s else s) ++ rest) = .ok (.number n, rest) := by
  obtain ⟨c, t, hs, hc⟩ := h.exists_cons
  obtain ⟨m, hm, hnumeral⟩ := h
  obtain ⟨n, hn⟩ := m.exists_value hm negative
  have hnumber : ∀ rest, Ends rest → numberText negative (s ++ rest) = .ok (n, rest) := by
    intro rest hrest
    rw [numberText, hnumeral _ rest hrest, ok_bind]
    dsimp only
    rw [hn]
    rfl
  refine ⟨n, fun rest hrest => ?_⟩
  cases negative with
  | true =>
    show (numberText true (s ++ rest) >>= _) = _
    rw [hnumber rest hrest]
    rfl
  | false =>
    have hdigit := scalar_digit hc (t ++ rest)
    rw [← List.cons_append, ← hs, hnumber rest hrest] at hdigit
    exact hdigit

/-- The parts of a finite single, and the bounds of its format. -/
theorem exists_ofSingle_eq_finite {x : Float32} (hx : x.isFinite = true) :
    ∃ negative units exponent, BinaryParts.ofSingle x = .finite negative units exponent ∧
      units < 2 ^ 24 ∧ exponent ≤ 104 := by
  have hstored : x.toBits.toNat / 8388608 % 256 ≠ 255 := (isFinite_iff x).1 hx
  unfold BinaryParts.ofSingle BinaryFormat.decode
  dsimp only
  rw [if_neg (show ¬ x.toBits.toNat / BinaryFormat.single.leading %
    (BinaryFormat.single.special + 1) = BinaryFormat.single.special from hstored)]
  split
  · refine ⟨_, _, _, rfl, ?_, by decide⟩
    show x.toBits.toNat % 8388608 < _
    omega
  · refine ⟨_, _, _, rfl, ?_, ?_⟩
    · show 8388608 + x.toBits.toNat % 8388608 < _
      omega
    · show (-149 : Int) + (x.toBits.toNat / 8388608 % 256 - 1 : Nat) ≤ 104
      omega

/-- **The text of a finite single is a number**, whatever follows it. -/
theorem exists_scalar_isFinite {x : Float32} (hx : x.isFinite = true) :
    ∃ n : Number, ∀ rest, Ends rest →
      scalar (singleLayout.single x ++ rest) = .ok (.number n, rest) := by
  obtain ⟨negative, units, exponent, hparts, hunits, hexponent⟩ := exists_ofSingle_eq_finite hx
  have hdecimal : ∀ d, d = Decimal.shortest .single .toEven units exponent →
      (d.digits = 0 → d.exponent ≤ 0) ∧ d.leadingExponent < 40 := by
    rintro d rfl
    by_cases hzero : units = 0
    · rw [Decimal.shortest, if_pos hzero]
      exact ⟨fun _ => Int.le_refl 0, by decide⟩
    · obtain ⟨hne, hleading⟩ := Decimal.shortest_spec .toEven hzero hunits hexponent
      exact ⟨fun h => absurd h hne, hleading⟩
  obtain ⟨hzero, hleading⟩ := hdecimal _ rfl
  rw [Layout.single, hparts, Layout.write]
  refine Counts.exists_scalar ?_ negative
  split
  · exact counts_written rfl hzero hleading
  · exact counts_scientific hleading

end Linework.Json
