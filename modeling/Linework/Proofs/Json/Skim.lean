import Linework.Proofs.Json.Reader

/-!
# Whatever can be read can be passed over

A value nobody asks for is passed over by a machine of its own: it keeps the open
containers on a stack, pairs no surrogates and computes no numbers. It is more
lenient than the reader, and it has to be no stricter: a text that stands for a
value is passed over to the very place where reading it ends. That is
`skim_of_value`, and the converse does not hold.

The machine does not stop at the end of a value but goes on with the containers
around it, so the statement that goes through is about any stack of them. After a
value the machine is where `resume` puts it, and the rounds that are left still
cover the text that is left: each round takes a character at least.
-/

namespace Linework.Json

/-! ## Texts -/

/-- What is pending if surrogates do not pair: the second half of a pair is a code
unit like any other. -/
def Pending.unpaired : Pending → Pending
  | .nothing => .nothing
  | .escape => .escape
  | .digits _ left value => .digits none left value
  | .backslash _ => .nothing
  | .letter _ => .escape

theorem openUnit_unpaired {high : Option Nat} {rest : List Char} {p : Pending} {out : Option Char}
    (h : openUnit high rest = .ok (p, out)) : openUnit none rest = .ok (p.unpaired, out) := by
  unfold openUnit at h ⊢
  split at h
  · cases h
  · next hfew =>
    rw [if_neg hfew]
    cases h
    rfl

theorem closeUnit_unpaired {high : Option Nat} {unit : Nat} {p : Pending} {out : Option Char}
    (h : closeUnit true high unit = .ok (p, out)) : p.unpaired = .nothing := by
  unfold closeUnit at h
  rw [if_neg (by decide)] at h
  split at h
  · split at h <;> cases h
    rfl
  · split at h
    · cases h
    · split at h <;> cases h <;> rfl

/-- One character takes both readers to the same place. -/
theorem Pending.next_unpaired {p p' : Pending} {c : Char} {rest : List Char} {out : Option Char}
    (h : p.next true c rest = .ok (p', out)) :
    ∃ out', p.unpaired.next false c rest = .ok (p'.unpaired, out') := by
  cases p with
  | nothing =>
    -- outside an escape there is no half of a pair to forget
    refine ⟨out, ?_⟩
    show Pending.nothing.next true c rest = _
    rw [h]
    unfold Pending.next at h
    dsimp only at h
    split at h
    · cases h
      rfl
    · split at h <;> cases h
      rfl
  | escape =>
    refine ⟨out, ?_⟩
    unfold Pending.next at h
    dsimp only at h
    split at h
    iterate 8
      · cases h
        rfl
    · exact openUnit_unpaired h
    · cases h
  | digits high left value =>
    unfold Pending.next at h
    dsimp only at h
    split at h
    · cases h
    · next d hd =>
      split at h
      · next hleft =>
        -- the last digit: only the reader of pairs asks what the unit stands for
        refine ⟨none, ?_⟩
        show Pending.next false c rest (.digits none left value) = _
        rw [closeUnit_unpaired h]
        simp [Pending.next, hd, hleft, closeUnit]
      · next hleft =>
        refine ⟨none, ?_⟩
        cases h
        simp [Pending.next, Pending.unpaired, hd, hleft]
  | backslash high =>
    unfold Pending.next at h
    dsimp only at h
    split at h
    · next hc =>
      cases h
      exact ⟨none, by rw [hc]; rfl⟩
    · cases h
  | letter high =>
    unfold Pending.next at h
    dsimp only at h
    split at h
    · next hc =>
      subst hc
      exact ⟨out, openUnit_unpaired h⟩
    · cases h

/-- One character of a text that does not end it. -/
theorem inside_cons_eq_ok_iff {paired : Bool} {p : Pending} {c : Char} {s cs rest : List Char}
    (hend : ¬ (p = .nothing ∧ c = '"')) :
    inside paired p (c :: s) = .ok (cs, rest) ↔
      ∃ p' out cs', p.next paired c s = .ok (p', out) ∧ inside paired p' s = .ok (cs', rest) ∧
        cs = out.toList ++ cs' := by
  rw [inside.eq_3 paired p c s fun hp hc => hend ⟨hp, hc⟩, bind_eq_ok_iff]
  constructor
  · rintro ⟨⟨p', out⟩, hnext, h⟩
    obtain ⟨⟨cs', rest'⟩, hs, h⟩ := bind_eq_ok_iff.1 h
    cases h
    exact ⟨p', out, cs', hnext, hs, rfl⟩
  · rintro ⟨p', out, cs', hnext, hs, rfl⟩
    exact ⟨(p', out), hnext, bind_eq_ok_iff.2 ⟨(cs', rest), hs, rfl⟩⟩

/-- A text that is read is passed over to the same place. -/
theorem inside_unpaired {p : Pending} {s cs rest : List Char}
    (h : inside true p s = .ok (cs, rest)) :
    ∃ cs', inside false p.unpaired s = .ok (cs', rest) := by
  induction s generalizing p cs with
  | nil => simp [inside] at h
  | cons c s ih =>
    by_cases hend : p = .nothing ∧ c = '"'
    · obtain ⟨rfl, rfl⟩ := hend
      rw [inside] at h
      cases h
      exact ⟨[], by rw [Pending.unpaired, inside]⟩
    · obtain ⟨p', out, cs', hnext, hs, -⟩ := (inside_cons_eq_ok_iff hend).1 h
      obtain ⟨out', hnext'⟩ := Pending.next_unpaired hnext
      obtain ⟨cs'', hs'⟩ := ih hs
      refine ⟨out'.toList ++ cs'', (inside_cons_eq_ok_iff ?_).2 ⟨_, _, _, hnext', hs', rfl⟩⟩
      -- a quote inside a pair is refused by the reader, so it does not end the text here
      rintro ⟨hp, rfl⟩
      cases p with
      | nothing => exact hend ⟨rfl, rfl⟩
      | backslash high => cases hnext
      | escape => cases hp
      | digits high left value => cases hp
      | letter high => cases hp

/-- Reading the inside of a text takes the closing quote at least. -/
theorem length_lt_of_inside {paired : Bool} {p : Pending} {s cs rest : List Char}
    (h : inside paired p s = .ok (cs, rest)) : rest.length < s.length := by
  induction s generalizing p cs with
  | nil => simp [inside] at h
  | cons c s ih =>
    rw [List.length_cons]
    by_cases hend : p = .nothing ∧ c = '"'
    · obtain ⟨rfl, rfl⟩ := hend
      rw [inside] at h
      cases h
      exact Nat.lt_succ_self _
    · obtain ⟨p', out, cs', -, hs, -⟩ := (inside_cons_eq_ok_iff hend).1 h
      exact Nat.lt_succ_of_lt (ih hs)

theorem skimText_of_stringText {s rest : List Char} {key : String}
    (h : stringText s = .ok (key, rest)) : skimText s = .ok rest ∧ rest.length < s.length := by
  obtain ⟨⟨cs, rest'⟩, hs, h⟩ := bind_eq_ok_iff.1 h
  cases h
  obtain ⟨cs', hs'⟩ := inside_unpaired hs
  exact ⟨bind_eq_ok_iff.2 ⟨(cs', rest), hs', rfl⟩, length_lt_of_inside hs⟩

/-! ## Numbers and words -/

theorem length_dropDigits_le (s : List Char) : (s.dropWhile Char.isDigit).length ≤ s.length :=
  (List.dropWhile_sublist Char.isDigit).length_le

theorem exponentPart_of {f : Fault} (g : Fault) {digits : Nat} {start : Int} {s rest : List Char}
    {n : Numeral} (h : exponentPart f digits start s = .ok (n, rest)) :
    exponentPart g digits start s = .ok (n, rest) ∧ rest.length ≤ s.length := by
  unfold exponentPart at h ⊢
  dsimp only at h ⊢
  split at h
  · cases h
  · next c tail hs =>
    have hle : (c :: tail).length ≤ s.length := by
      split at hs
      · rw [← hs]
        exact Nat.le_succ _
      · rw [← hs]
        exact Nat.le_succ _
      · rw [← hs]
    split at h
    · next hc =>
      refine ⟨(if_pos hc).trans h, ?_⟩
      cases h
      rw [hs]
      exact (length_dropDigits_le _).trans hle
    · cases h

theorem fractionPart_of {f : Fault} (g : Fault) {digits : Nat} {start : Int} {s rest : List Char}
    {n : Numeral} (h : fractionPart f digits start s = .ok (n, rest)) :
    fractionPart g digits start s = .ok (n, rest) ∧ rest.length ≤ s.length := by
  have hle := length_dropDigits_le s
  unfold fractionPart at h ⊢
  dsimp only at h ⊢
  split at h
  · cases h
  · next hplaces =>
    rw [if_neg hplaces]
    split at h
    · next hrest =>
      rw [hrest] at hle
      exact (exponentPart_of g h).imp_right fun hlen => (hlen.trans (Nat.le_succ _)).trans hle
    · next hrest =>
      rw [hrest] at hle
      exact (exponentPart_of g h).imp_right fun hlen => (hlen.trans (Nat.le_succ _)).trans hle
    · refine ⟨h, ?_⟩
      cases h
      exact hle

/-- How a numeral is reported at the end of a text plays no part in reading it,
and reading it takes a digit at least. -/
theorem numeral_of {f : Fault} (g : Fault) {s rest : List Char} {n : Numeral}
    (h : numeral f s = .ok (n, rest)) : numeral g s = .ok (n, rest) ∧ rest.length < s.length := by
  cases s with
  | nil => cases h
  | cons c s =>
    unfold numeral at h ⊢
    dsimp only at h ⊢
    split at h
    · next hc =>
      rw [if_pos hc]
      have hlt : ((c :: s).dropWhile Char.isDigit).length < (c :: s).length := by
        rw [List.dropWhile_cons, if_pos hc]
        exact Nat.lt_succ_of_le (length_dropDigits_le s)
      split at h
      · cases h
      · next hzero =>
        rw [if_neg hzero]
        split at h
        · next hrest =>
          rw [hrest] at hlt
          exact (fractionPart_of g h).imp_right
            fun hlen => Nat.lt_of_le_of_lt (hlen.trans (Nat.le_succ _)) hlt
        · next hrest =>
          rw [hrest] at hlt
          exact (exponentPart_of g h).imp_right
            fun hlen => Nat.lt_of_le_of_lt (hlen.trans (Nat.le_succ _)) hlt
        · next hrest =>
          rw [hrest] at hlt
          exact (exponentPart_of g h).imp_right
            fun hlen => Nat.lt_of_le_of_lt (hlen.trans (Nat.le_succ _)) hlt
        · refine ⟨h, ?_⟩
          cases h
          exact hlt
    · cases h

theorem skimNumber_of_numberText {negative : Bool} {s rest : List Char} {n : Number}
    (h : numberText negative s = .ok (n, rest)) :
    skimNumber s = .ok rest ∧ rest.length < s.length := by
  obtain ⟨⟨m, rest'⟩, hs, h⟩ := bind_eq_ok_iff.1 h
  obtain ⟨_, -, h⟩ := bind_eq_ok_iff.1 h
  cases h
  obtain ⟨hs', hlt⟩ := numeral_of (.malformed .invalidNumber) hs
  exact ⟨bind_eq_ok_iff.2 ⟨_, hs', rfl⟩, hlt⟩

theorem length_le_of_word {es s rest : List Char} (h : word es s = .ok rest) :
    rest.length ≤ s.length := by
  induction es generalizing s with
  | nil =>
    cases h
    exact Nat.le_refl _
  | cons e es ih =>
    cases s with
    | nil => cases h
    | cons c s =>
      rw [word] at h
      split at h
      · exact Nat.le_succ_of_le (ih h)
      · cases h

/-- A value that is no container is passed over where it is read. -/
theorem skimScalar_of_scalar {s rest : List Char} {v : Json} (h : scalar s = .ok (v, rest)) :
    skimScalar s = .ok rest ∧ rest.length < s.length := by
  unfold scalar at h
  split at h
  · obtain ⟨r, hr, h⟩ := bind_eq_ok_iff.1 h
    cases h
    exact ⟨hr, Nat.lt_succ_of_le (length_le_of_word hr)⟩
  · obtain ⟨r, hr, h⟩ := bind_eq_ok_iff.1 h
    cases h
    exact ⟨hr, Nat.lt_succ_of_le (length_le_of_word hr)⟩
  · obtain ⟨r, hr, h⟩ := bind_eq_ok_iff.1 h
    cases h
    exact ⟨hr, Nat.lt_succ_of_le (length_le_of_word hr)⟩
  · obtain ⟨⟨key, r⟩, hr, h⟩ := bind_eq_ok_iff.1 h
    cases h
    exact (skimText_of_stringText hr).imp_right Nat.lt_succ_of_lt
  · obtain ⟨⟨n, r⟩, hr, h⟩ := bind_eq_ok_iff.1 h
    cases h
    exact (skimNumber_of_numberText hr).imp_right Nat.lt_succ_of_lt
  · next c s hn ht hf hq hm =>
    split at h
    · next hc =>
      obtain ⟨⟨n, r⟩, hr, h⟩ := bind_eq_ok_iff.1 h
      cases h
      rw [skimScalar.eq_6 c s hn ht hf hq hm, if_pos hc]
      exact skimNumber_of_numberText hr
    · cases h
  · cases h

/-! ## Containers -/

/-- Goes on from where the machine is, with some rounds left. -/
def goOn (rounds : List Char) : Passed → Except Fault (List Char)
  | .whole rest => .ok rest
  | .within frames rest => skimFrom rounds frames rest

/-- Goes on after a value that stands inside some containers. -/
def resume (rounds : List Char) (frames : List Frame) (s : List Char) : Except Fault (List Char) :=
  leave frames s >>= goOn rounds

theorem skimFrom_cons (c : Char) (rounds : List Char) (frames : List Frame) (s : List Char) :
    skimFrom (c :: rounds) frames s = advance frames s >>= goOn rounds := by
  rw [skimFrom]
  refine congrArg _ (funext fun p => ?_)
  cases p with
  | whole rest => rfl
  | within frames rest => rfl

/-- Blanks before a value are passed over with it. -/
theorem skimFrom_skipBlanks (rounds : List Char) (frames : List Frame) (s : List Char) :
    skimFrom rounds frames (skipBlanks s) = skimFrom rounds frames s := by
  cases rounds with
  | nil => rfl
  | cons c rounds =>
    rw [skimFrom_cons, skimFrom_cons, advance, advance, skipBlanks_skipBlanks]

/-- The machine passes over the first of two texts as far as the second, whatever
containers it is in, and has rounds enough left if it had enough before. -/
def PassedOver (s rest : List Char) : Prop :=
  ∀ (rounds : List Char) (frames : List Frame), s.length ≤ rounds.length →
    ∃ rounds', rest.length ≤ rounds'.length ∧
      skimFrom rounds frames s = resume rounds' frames rest

theorem leave_closer {frame : Frame} {s rest : List Char}
    (h : skipBlanks s = frame.closer :: rest) (frames : List Frame) :
    leave (frame :: frames) s = leave frames rest := by
  rw [leave, h]
  exact if_pos rfl

theorem leave_comma {frame : Frame} {s rest : List Char} (h : skipBlanks s = ',' :: rest)
    (frames : List Frame) :
    leave (frame :: frames) s =
      (do return .within (frame :: frames) (← frame.leadIn rest)) := by
  rw [leave, h]
  cases frame with
  | list => rfl
  | object => rfl

theorem enter_closer {frame : Frame} {s rest : List Char}
    (h : skipBlanks s = frame.closer :: rest) (frames : List Frame) :
    enter frame frames s = leave frames rest := by
  rw [enter, h]
  exact if_pos rfl

theorem enter_entry (frame : Frame) {c : Char} {s rest : List Char} (h : skipBlanks s = c :: rest)
    (hc : c ≠ frame.closer) (frames : List Frame) :
    enter frame frames s = (do return .within (frame :: frames) (← frame.leadIn (c :: rest))) := by
  rw [enter, h]
  exact if_neg hc

section Lists

variable {α : Type} {item : Reader α}
  (hitem : ∀ {s rest : List Char} {x : α}, item s = .ok (x, rest) → PassedOver s rest)

include hitem

/-- After an element, what is left of a list is passed over. -/
theorem resume_of_elements {fuel s rest : List Char} {xs : List α}
    (h : elements item fuel false s = .ok (xs, rest)) {rounds : List Char} (frames : List Frame)
    (hrounds : s.length ≤ rounds.length) :
    ∃ rounds', rest.length ≤ rounds'.length ∧
      resume rounds (.list :: frames) s = resume rounds' frames rest := by
  induction fuel generalizing s xs rounds with
  | nil => cases h
  | cons _ fuel ih =>
    obtain ⟨next, hnext, h⟩ := bind_eq_ok_iff.1 h
    cases next with
    | closes r =>
      obtain ⟨tail, hs, rfl⟩ := nextElement_eq_closes hnext
      cases h
      have hlt := length_lt_of_skipBlanks hs
      refine ⟨rounds, by omega, ?_⟩
      rw [resume, leave_closer hs, resume]
    | entry r =>
      obtain ⟨tail, hs, hr, -⟩ := nextElement_false_eq_entry hnext
      obtain ⟨⟨x, s₁⟩, hx, h⟩ := bind_eq_ok_iff.1 h
      obtain ⟨⟨xs', s₂⟩, hxs, h⟩ := bind_eq_ok_iff.1 h
      cases h
      have hlt := length_lt_of_skipBlanks hs
      have hle := length_skipBlanks_le tail
      rw [hr] at hle
      obtain ⟨rounds₁, hrounds₁, hskim⟩ := hitem hx rounds (.list :: frames) (by omega)
      obtain ⟨rounds₂, hrounds₂, hresume⟩ := ih hxs hrounds₁
      refine ⟨rounds₂, hrounds₂, ?_⟩
      rw [← hresume, ← hskim, ← hr, skimFrom_skipBlanks, resume, leave_comma hs]
      rfl

/-- A list is passed over from its opening bracket on. -/
theorem enter_of_elements {fuel s rest : List Char} {xs : List α}
    (h : elements item fuel true s = .ok (xs, rest)) {rounds : List Char} (frames : List Frame)
    (hrounds : s.length ≤ rounds.length) :
    ∃ rounds', rest.length ≤ rounds'.length ∧
      enter .list frames s >>= goOn rounds = resume rounds' frames rest := by
  cases fuel with
  | nil => cases h
  | cons _ fuel =>
    obtain ⟨next, hnext, h⟩ := bind_eq_ok_iff.1 h
    cases next with
    | closes r =>
      obtain ⟨tail, hs, rfl⟩ := nextElement_eq_closes hnext
      cases h
      have hlt := length_lt_of_skipBlanks hs
      refine ⟨rounds, by omega, ?_⟩
      rw [enter_closer hs, resume]
    | entry r =>
      obtain ⟨hs, c, tail, rfl, hc⟩ := nextElement_true_eq_entry hnext
      obtain ⟨⟨x, s₁⟩, hx, h⟩ := bind_eq_ok_iff.1 h
      obtain ⟨⟨xs', s₂⟩, hxs, h⟩ := bind_eq_ok_iff.1 h
      cases h
      have hle := length_skipBlanks_le s
      rw [hs] at hle
      obtain ⟨rounds₁, hrounds₁, hskim⟩ := hitem hx rounds (.list :: frames) (by omega)
      obtain ⟨rounds₂, hrounds₂, hresume⟩ := resume_of_elements hitem hxs frames hrounds₁
      refine ⟨rounds₂, hrounds₂, ?_⟩
      rw [← hresume, ← hskim, enter_entry .list hs hc]
      rfl

end Lists

section Objects

variable {σ : Type} {member : String → σ → Reader σ}
  (hmember : ∀ {key : String} {state state' : σ} {s rest : List Char},
    member key state s = .ok (state', rest) → ∃ t, colon s = .ok t ∧ PassedOver t rest)

/-- The name of a member and its colon are passed over. -/
theorem leadIn_of_stringText {s r t rest : List Char} {key : String}
    (hs : skipBlanks s = '"' :: r) (hkey : stringText r = .ok (key, t))
    (hcolon : colon t = .ok rest) : Frame.object.leadIn s = .ok rest := by
  rw [Frame.leadIn, hs]
  show (do colon (← skimText r)) = .ok rest
  rw [(skimText_of_stringText hkey).1]
  exact hcolon

theorem length_lt_of_member {s r t rest : List Char} {key : String}
    (hs : skipBlanks s = '"' :: r) (hkey : stringText r = .ok (key, t))
    (hcolon : colon t = .ok rest) : rest.length < s.length := by
  have hr := length_lt_of_skipBlanks hs
  have ht := (skimText_of_stringText hkey).2
  have hrest := length_lt_of_skipBlanks (colon_eq_ok hcolon)
  omega

include hmember

/-- After a member, what is left of an object is passed over. -/
theorem resume_of_members {fuel s rest : List Char} {state state' : σ}
    (h : members stringText member fuel false state s = .ok (state', rest)) {rounds : List Char}
    (frames : List Frame) (hrounds : s.length ≤ rounds.length) :
    ∃ rounds', rest.length ≤ rounds'.length ∧
      resume rounds (.object :: frames) s = resume rounds' frames rest := by
  induction fuel generalizing s state rounds with
  | nil => cases h
  | cons _ fuel ih =>
    obtain ⟨next, hnext, h⟩ := bind_eq_ok_iff.1 h
    cases next with
    | closes r =>
      obtain ⟨tail, hs, rfl⟩ := nextMember_eq_closes hnext
      cases h
      have hlt := length_lt_of_skipBlanks hs
      refine ⟨rounds, by rw [List.tail_cons]; omega, ?_⟩
      rw [resume, leave_closer hs, resume, List.tail_cons]
    | entry r =>
      obtain ⟨tail, hs, hr⟩ := nextMember_false_eq_entry hnext
      obtain ⟨⟨key, s₁⟩, hkey, h⟩ := bind_eq_ok_iff.1 h
      obtain ⟨⟨state₁, s₂⟩, hstate, h⟩ := bind_eq_ok_iff.1 h
      obtain ⟨t, ht, hpassed⟩ := hmember hstate
      have hlt := length_lt_of_skipBlanks hs
      have hlt' := length_lt_of_member hr hkey ht
      obtain ⟨rounds₁, hrounds₁, hskim⟩ := hpassed rounds (.object :: frames) (by omega)
      obtain ⟨rounds₂, hrounds₂, hresume⟩ := ih h hrounds₁
      refine ⟨rounds₂, hrounds₂, ?_⟩
      rw [← hresume, ← hskim, resume, leave_comma hs, leadIn_of_stringText hr hkey ht]
      rfl

/-- An object is passed over from its opening brace on. -/
theorem enter_of_members {fuel s rest : List Char} {state state' : σ}
    (h : members stringText member fuel true state s = .ok (state', rest)) {rounds : List Char}
    (frames : List Frame) (hrounds : s.length ≤ rounds.length) :
    ∃ rounds', rest.length ≤ rounds'.length ∧
      enter .object frames s >>= goOn rounds = resume rounds' frames rest := by
  cases fuel with
  | nil => cases h
  | cons _ fuel =>
    obtain ⟨next, hnext, h⟩ := bind_eq_ok_iff.1 h
    cases next with
    | closes r =>
      obtain ⟨tail, hs, rfl⟩ := nextMember_eq_closes hnext
      cases h
      have hlt := length_lt_of_skipBlanks hs
      refine ⟨rounds, by rw [List.tail_cons]; omega, ?_⟩
      rw [enter_closer hs, resume, List.tail_cons]
    | entry r =>
      have hs := nextMember_true_eq_entry hnext
      obtain ⟨⟨key, s₁⟩, hkey, h⟩ := bind_eq_ok_iff.1 h
      obtain ⟨⟨state₁, s₂⟩, hstate, h⟩ := bind_eq_ok_iff.1 h
      obtain ⟨t, ht, hpassed⟩ := hmember hstate
      have hlt := length_lt_of_member hs hkey ht
      obtain ⟨rounds₁, hrounds₁, hskim⟩ := hpassed rounds (.object :: frames) (by omega)
      obtain ⟨rounds₂, hrounds₂, hresume⟩ := resume_of_members hmember h frames hrounds₁
      refine ⟨rounds₂, hrounds₂, ?_⟩
      have hlead : Frame.object.leadIn ('"' :: r) = .ok t :=
        leadIn_of_stringText (skipBlanks_cons rfl r) hkey ht
      rw [← hresume, ← hskim, enter_entry .object hs (by decide), hlead]
      rfl

end Objects

/-! ## Values -/

theorem advance_scalar {s s' rest : List Char} {c : Char} (hs : skipBlanks s = c :: s')
    (hlist : c ≠ '[') (hobject : c ≠ '{') (h : skimScalar (c :: s') = .ok rest)
    (frames : List Frame) : advance frames s = leave frames rest := by
  rw [advance, hs]
  split
  · next heq => cases heq; exact absurd rfl hlist
  · next heq => cases heq; exact absurd rfl hobject
  · rw [h]
    rfl

/-- **A value that is read is passed over**, inside any containers. -/
theorem passedOver_of_value {d : Nat} {s rest : List Char} {v : Json}
    (h : value d s = .ok (v, rest)) : PassedOver s rest := by
  induction d using Nat.strong_induction_on generalizing s rest v with
  | _ d ih =>
    intro rounds frames hrounds
    -- whatever the value is, it begins with a character, and that takes a round
    obtain ⟨_, _, hs₀⟩ := exists_cons_of_value h
    have hlt := length_lt_of_skipBlanks hs₀
    obtain ⟨r, rounds, rfl⟩ : ∃ r rounds', rounds = r :: rounds' :=
      List.exists_cons_of_length_pos (by omega)
    rw [List.length_cons] at hrounds
    rw [skimFrom_cons]
    rcases value_cases h with ⟨d', s', items, rfl, hs, hitems, -⟩ |
      ⟨d', s', backwards, rfl, hs, hmembers, -⟩ | ⟨c, s', hs, hlist, hobject, hscalar⟩
    · have hadvance : advance frames s = enter .list frames s' := by rw [advance, hs]; rfl
      rw [hadvance]
      have hlen := length_lt_of_skipBlanks hs
      exact enter_of_elements (fun hx => ih d' (Nat.lt_succ_self _) hx) hitems frames (by omega)
    · have hadvance : advance frames s = enter .object frames s' := by rw [advance, hs]; rfl
      rw [hadvance]
      have hlen := length_lt_of_skipBlanks hs
      refine enter_of_members (fun hm => ?_) hmembers frames (by omega)
      obtain ⟨t, v, ht, hv, -⟩ := valueMember_eq_ok hm
      exact ⟨t, ht, ih d' (Nat.lt_succ_self _) hv⟩
    · obtain ⟨hskim, hlen⟩ := skimScalar_of_scalar hscalar
      have hle := length_skipBlanks_le s
      rw [hs] at hle
      exact ⟨rounds, by omega, by rw [advance_scalar hs hlist hobject hskim, resume]⟩

/-- A value that is read can be passed over as well. -/
theorem skim_of_value {d : Nat} {s rest : List Char} {v : Json}
    (h : value d s = .ok (v, rest)) : skim s = .ok rest := by
  obtain ⟨rounds, -, hskim⟩ := passedOver_of_value h s [] (Nat.le_refl _)
  exact hskim

end Linework.Json
