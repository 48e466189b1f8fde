import Linework.Proofs.Json.Entries
import Linework.Proofs.Json.Written

/-!
# Values are read from the front

A value is read alike wherever it stands. The reader looks at one character behind
it at most, to see where a numeral ends, and so whatever follows may be exchanged
for anything that does not continue a numeral. `local_value` says so of reading and
`local_skim` of passing over.

One thing looks further ahead: inside a quoted text, an escaped code unit asks for
four bytes before its digits are read. They are the digits themselves if the text
is right, and `Pending.due` counts them.
-/

namespace Linework.Json

/-- What is done with a value once it is read does not matter to how it is read. -/
theorem Local.map {α β : Type} {item : Reader α} (h : Local item) (f : α → β) :
    Local fun s => do
      let (x, rest) ← item s
      return (f x, rest) where
  front {s rest y} hs := by
    obtain ⟨⟨x, rest'⟩, hx, hs⟩ := bind_eq_ok_iff.1 hs
    cases hs
    obtain ⟨front, rfl, hmore⟩ := h.front hx
    exact ⟨front, rfl, fun more hends => bind_eq_ok_iff.2 ⟨(x, more), hmore more hends, rfl⟩⟩
  nil y rest hs := by
    obtain ⟨⟨x, rest'⟩, hx, -⟩ := bind_eq_ok_iff.1 hs
    exact h.nil x rest' hx

/-! ## Texts -/

/-- How many digits are still to come of an escape. -/
def Pending.due : Pending → Nat
  | .digits _ left _ => left
  | _ => 0

theorem openUnit_of_length {high : Option Nat} {s s' : List Char} {p : Pending} {out : Option Char}
    (h : openUnit high s = .ok (p, out)) (hs' : p.due ≤ s'.length) :
    openUnit high s' = .ok (p, out) := by
  unfold openUnit at h ⊢
  split at h
  · cases h
  · cases h
    have henough : fewerBytes 4 s' = false := fewerBytes_of_length hs'
    rw [henough]
    rfl

/-- One character of a text is read alike in front of anything that has room for the
digits to come, and it is at most one of these digits itself. -/
theorem Pending.next_of_length {paired : Bool} {p p' : Pending} {c : Char} {s s' : List Char}
    {out : Option Char} (h : p.next paired c s = .ok (p', out)) (hs' : p'.due ≤ s'.length) :
    p.next paired c s' = .ok (p', out) ∧ p.due ≤ p'.due + 1 := by
  cases p with
  | nothing => exact ⟨h, Nat.zero_le _⟩
  | escape =>
    refine ⟨?_, Nat.zero_le _⟩
    unfold Pending.next at h
    dsimp only at h
    split at h
    iterate 8
      · exact h
    · exact openUnit_of_length h hs'
    · cases h
  | digits high left value =>
    refine ⟨h, ?_⟩
    show left ≤ p'.due + 1
    unfold Pending.next at h
    dsimp only at h
    split at h
    · cases h
    · split at h
      · omega
      · cases h
        show left ≤ left - 1 + 1
        omega
  | backslash high => exact ⟨h, Nat.zero_le _⟩
  | letter high =>
    refine ⟨?_, Nat.zero_le _⟩
    unfold Pending.next at h ⊢
    dsimp only at h ⊢
    split at h
    · next hc =>
      rw [if_pos hc]
      exact openUnit_of_length h hs'
    · cases h

/-- The inside of a text is read alike, whatever comes behind the closing quote. -/
theorem exists_front_of_inside {paired : Bool} {p : Pending} {s cs rest : List Char}
    (h : inside paired p s = .ok (cs, rest)) :
    ∃ front, s = front ++ rest ∧ p.due ≤ front.length ∧
      ∀ more, inside paired p (front ++ more) = .ok (cs, more) := by
  induction s generalizing p cs with
  | nil => simp [inside] at h
  | cons c s ih =>
    by_cases hend : p = .nothing ∧ c = '"'
    · obtain ⟨rfl, rfl⟩ := hend
      rw [inside] at h
      cases h
      exact ⟨['"'], rfl, Nat.zero_le _, fun more => by rw [List.singleton_append, inside]⟩
    · obtain ⟨p', out, cs', hnext, hs, rfl⟩ := (inside_cons_eq_ok_iff hend).1 h
      obtain ⟨front, rfl, hdue, hmore⟩ := ih hs
      have hroom : ∀ more, p'.due ≤ (front ++ more).length := by
        intro more
        rw [List.length_append]
        omega
      refine ⟨c :: front, rfl, ?_, fun more => ?_⟩
      · have hstep := (Pending.next_of_length hnext (hroom rest)).2
        rw [List.length_cons]
        omega
      · refine (inside_cons_eq_ok_iff hend).2 ⟨p', out, cs', ?_, hmore more, rfl⟩
        exact (Pending.next_of_length hnext (hroom more)).1

theorem exists_front_of_stringText {s rest : List Char} {key : String}
    (h : stringText s = .ok (key, rest)) :
    ∃ front, s = front ++ rest ∧ ∀ more, stringText (front ++ more) = .ok (key, more) := by
  obtain ⟨⟨cs, rest'⟩, hs, h⟩ := bind_eq_ok_iff.1 h
  cases h
  obtain ⟨front, rfl, -, hmore⟩ := exists_front_of_inside hs
  exact ⟨front, rfl, fun more => bind_eq_ok_iff.2 ⟨(cs, more), hmore more, rfl⟩⟩

theorem exists_front_of_skimText {s rest : List Char} (h : skimText s = .ok rest) :
    ∃ front, s = front ++ rest ∧ ∀ more, skimText (front ++ more) = .ok more := by
  obtain ⟨⟨cs, rest'⟩, hs, h⟩ := bind_eq_ok_iff.1 h
  cases h
  obtain ⟨front, rfl, -, hmore⟩ := exists_front_of_inside hs
  exact ⟨front, rfl, fun more => bind_eq_ok_iff.2 ⟨(cs, more), hmore more, rfl⟩⟩

/-! ## Words and numbers -/

theorem word_eq_ok_iff {es s rest : List Char} : word es s = .ok rest ↔ s = es ++ rest := by
  induction es generalizing s with
  | nil => rw [word, Except.ok.injEq, List.nil_append]
  | cons e es ih =>
    cases s with
    | nil => simp [word]
    | cons c s =>
      rw [word, List.cons_append, List.cons.injEq, ← ih]
      split
      · next hc => simp [hc]
      · next hc => simp [hc]

/-- **A value that is no container is read from the front.** -/
theorem local_scalar : Local scalar where
  nil _ _ h := by cases h
  front {s rest v} h := by
    have hword : ∀ (c : Char) (es : List Char) (r : List Char),
        (∀ t, scalar (c :: t) = (do return (v, ← word es t))) → word es r = .ok rest →
          ReadsFront scalar (c :: r) v rest := by
      intro c es r hc hr
      refine ⟨c :: es, ?_, fun more _ => ?_⟩
      · rw [word_eq_ok_iff.1 hr]
        rfl
      · rw [List.cons_append, hc]
        exact bind_eq_ok_iff.2 ⟨more, word_eq_ok_iff.2 rfl, rfl⟩
    have hscalar := h
    unfold scalar at h
    split at h
    · obtain ⟨r, hr, h⟩ := bind_eq_ok_iff.1 h
      cases h
      exact hword 'n' _ _ (fun _ => rfl) hr
    · obtain ⟨r, hr, h⟩ := bind_eq_ok_iff.1 h
      cases h
      exact hword 't' _ _ (fun _ => rfl) hr
    · obtain ⟨r, hr, h⟩ := bind_eq_ok_iff.1 h
      cases h
      exact hword 'f' _ _ (fun _ => rfl) hr
    · obtain ⟨⟨key, r⟩, hr, h⟩ := bind_eq_ok_iff.1 h
      cases h
      obtain ⟨front, rfl, hmore⟩ := exists_front_of_stringText hr
      refine ⟨'"' :: front, rfl, fun more _ => ?_⟩
      exact bind_eq_ok_iff.2 ⟨(key, more), hmore more, rfl⟩
    · obtain ⟨⟨n, r⟩, -, h⟩ := bind_eq_ok_iff.1 h
      cases h
      exact readsFront_scalar hscalar
    · split at h
      · obtain ⟨⟨n, r⟩, -, h⟩ := bind_eq_ok_iff.1 h
        cases h
        exact readsFront_scalar hscalar
      · cases h
    · cases h

/-! ## Values -/

/-- The members of an object are read alike, whatever comes behind the object. -/
theorem Members.exists_front {α : Type} {item : String → Reader α} {first : Bool}
    {s rest : List Char} {ms : List (String × α)} (hitem : ∀ key, Local (item key))
    (h : Members item first s ms rest) :
    ∃ front, s = front ++ rest ∧ ∀ more, Members item first (front ++ more) ms more := by
  induction h with
  | @closes first bs rest hbs =>
    refine ⟨bs ++ ['}'], by simp, fun more => ?_⟩
    rw [List.append_assoc]
    exact .closes hbs
  | @entry first lead name bs s t rest key x ms hlead hkey hbs hx _ ih =>
    obtain ⟨named, rfl, hnamed⟩ := exists_front_of_stringText hkey
    obtain ⟨c, front, rfl, hfront⟩ := (hitem key).exists_front hx
    obtain ⟨front', rfl, hfront'⟩ := ih
    refine ⟨lead ++ '"' :: (named ++ (bs ++ ':' :: (c :: (front ++ front')))), by simp,
      fun more => ?_⟩
    have hmore : Members item first
        (lead ++ '"' :: (named ++ (bs ++ ':' :: (c :: (front ++ (front' ++ more)))))) _ more :=
      .entry hlead (hnamed _) hbs (hfront _ (hfront' more).ends) (hfront' more)
    simpa using hmore

/-- An object is read as a value exactly if its text is one of members. The loop
collects them last one first. -/
theorem objectOf_valueMember_iff {d : Nat} {s rest : List Char} {backwards : List (String × Json)}
    (hvalue : Local (value d)) :
    objectOf stringText (valueMember d) [] s = .ok (backwards, rest) ↔
      Members (fun _ => value d) true s backwards.reverse rest := by
  have hmember : ∀ (key : String) (before after : List (String × Json)) (s rest : List Char),
      valueMember d key before s = .ok (after, rest) ↔ ∃ t v, colon s = .ok t ∧
        value d t = .ok (v, rest) ∧ some ((key, v) :: before) = some after := by
    intro key before after s rest
    constructor
    · intro h
      obtain ⟨t, v, ht, hv, rfl⟩ := valueMember_eq_ok h
      exact ⟨t, v, ht, hv, rfl⟩
    · rintro ⟨t, v, ht, hv, heq⟩
      cases heq
      exact bind_eq_ok_iff.2 ⟨t, ht, bind_eq_ok_iff.2 ⟨(v, rest), hv, rfl⟩⟩
  have hfold : ∀ ms before : List (String × Json),
      ms.foldlM (fun before m => some ((m.1, m.2) :: before)) before =
        some (ms.reverse ++ before) := by
    intro ms
    induction ms with
    | nil => exact fun before => rfl
    | cons m ms ih =>
      intro before
      rw [List.foldlM_cons, List.reverse_cons, List.append_assoc]
      exact ih _
  refine (members_eq_ok_iff hmember).trans ?_
  constructor
  · rintro ⟨ms, hms, -, heq⟩
    rw [hfold, List.append_nil, Option.some.injEq] at heq
    rwa [← heq, List.reverse_reverse]
  · intro h
    refine ⟨backwards.reverse, h, h.length_lt fun _ => hvalue, ?_⟩
    rw [hfold, List.reverse_reverse, List.append_nil]

theorem value_nil_ne (d : Nat) (v : Json) (rest : List Char) : value d [] ≠ .ok (v, rest) := by
  intro h
  obtain ⟨_, _, hs⟩ := exists_cons_of_value h
  cases hs

/-- **A value is read from the front.** -/
theorem local_value (d : Nat) : Local (value d) where
  nil := value_nil_ne d
  front {s rest v} h := by
    induction d using Nat.strong_induction_on generalizing s rest v with
    | _ d ih =>
      -- what stands inside a container is read with one container less to open
      have hlocal : ∀ d' < d, Local (value d') := fun d' hd' =>
        ⟨ih d' hd', value_nil_ne d'⟩
      rcases value_cases h with ⟨d', s', items, rfl, hs, hitems, rfl⟩ |
        ⟨d', s', backwards, rfl, hs, hmembers, rfl⟩ | ⟨c, s', hs, hlist, hobject, hscalar⟩
      · have hitem := hlocal d' (Nat.lt_succ_self _)
        obtain ⟨bs, hbs, rfl⟩ := (skipBlanks_eq_cons_iff rfl).1 hs
        obtain ⟨front, rfl, hmore⟩ := ((listOf_eq_ok_iff hitem).1 hitems).exists_front hitem
        refine ⟨bs ++ '[' :: front, by simp, fun more _ => ?_⟩
        rw [List.append_assoc, List.cons_append, value_list (skipBlanks_blanks_append hbs rfl _)]
        exact bind_eq_ok_iff.2 ⟨_, (listOf_eq_ok_iff hitem).2 (hmore more), rfl⟩
      · have hitem := hlocal d' (Nat.lt_succ_self _)
        obtain ⟨bs, hbs, rfl⟩ := (skipBlanks_eq_cons_iff rfl).1 hs
        obtain ⟨front, rfl, hmore⟩ :=
          ((objectOf_valueMember_iff hitem).1 hmembers).exists_front fun _ => hitem
        refine ⟨bs ++ '{' :: front, by simp, fun more _ => ?_⟩
        rw [List.append_assoc, List.cons_append, value_object (skipBlanks_blanks_append hbs rfl _)]
        exact bind_eq_ok_iff.2 ⟨_, (objectOf_valueMember_iff hitem).2 (hmore more), rfl⟩
      · have hblank := isBlank_of_skipBlanks hs
        obtain ⟨bs, hbs, rfl⟩ := (skipBlanks_eq_cons_iff hblank).1 hs
        obtain ⟨c', front, heq, hmore⟩ := local_scalar.exists_front hscalar
        obtain ⟨rfl, rfl⟩ := List.cons.inj heq
        refine ⟨bs ++ c :: front, by simp, fun more hends => ?_⟩
        rw [List.append_assoc, List.cons_append,
          value_scalar (skipBlanks_blanks_append hbs hblank _) hlist hobject]
        exact hmore more hends

/-- A text that is read as a list. -/
theorem value_eq_list_iff {d : Nat} {s rest : List Char} {items : List Json} :
    value d s = .ok (.list items, rest) ↔
      ∃ d' bs s', d = d' + 1 ∧ Blanks bs ∧ s = bs ++ '[' :: s' ∧
        Elements (value d') true s' items rest := by
  constructor
  · intro h
    rcases value_cases h with ⟨d', s', items, rfl, hs, hitems, heq⟩ |
      ⟨_, _, _, _, _, _, heq⟩ | ⟨c, s', hs, hlist, hobject, hscalar⟩
    · cases heq
      obtain ⟨bs, hbs, rfl⟩ := (skipBlanks_eq_cons_iff rfl).1 hs
      exact ⟨d', bs, s', rfl, hbs, rfl, (listOf_eq_ok_iff (local_value d')).1 hitems⟩
    · cases heq
    · exact absurd rfl ((not_container_of_scalar hscalar).1 items)
  · rintro ⟨d', bs, s', rfl, hbs, rfl, hitems⟩
    rw [value_list (skipBlanks_blanks_append hbs rfl _)]
    exact bind_eq_ok_iff.2 ⟨_, (listOf_eq_ok_iff (local_value d')).2 hitems, rfl⟩

/-- A text that is read as an object. -/
theorem value_eq_object_iff {d : Nat} {s rest : List Char} {ms : List (String × Json)} :
    value d s = .ok (.object ms, rest) ↔
      ∃ d' bs s', d = d' + 1 ∧ Blanks bs ∧ s = bs ++ '{' :: s' ∧
        Members (fun _ => value d') true s' ms rest := by
  constructor
  · intro h
    rcases value_cases h with ⟨_, _, _, _, _, _, heq⟩ |
      ⟨d', s', backwards, rfl, hs, hmembers, heq⟩ | ⟨c, s', hs, hlist, hobject, hscalar⟩
    · cases heq
    · cases heq
      obtain ⟨bs, hbs, rfl⟩ := (skipBlanks_eq_cons_iff rfl).1 hs
      exact ⟨d', bs, s', rfl, hbs, rfl, (objectOf_valueMember_iff (local_value d')).1 hmembers⟩
    · exact absurd rfl ((not_container_of_scalar hscalar).2 ms)
  · rintro ⟨d', bs, s', rfl, hbs, rfl, hmembers⟩
    rw [value_object (skipBlanks_blanks_append hbs rfl _)]
    rw [← List.reverse_reverse ms] at hmembers ⊢
    exact bind_eq_ok_iff.2 ⟨_, (objectOf_valueMember_iff (local_value d')).2 hmembers, rfl⟩

theorem value_blanks_append {bs : List Char} (hbs : Blanks bs) (d : Nat) (s : List Char) :
    value d (bs ++ s) = value d s := by
  rw [value.eq_def, value.eq_def d s, skipBlanks_append hbs]

/-- A value begins, after any blanks, as an element of a list may begin. -/
theorem exists_opens_of_value {d : Nat} {s rest : List Char} {v : Json}
    (h : value d s = .ok (v, rest)) : ∃ bs t, Blanks bs ∧ Opens t ∧ s = bs ++ t := by
  obtain ⟨bs, hbs, hs⟩ := exists_blanks_append s
  refine ⟨bs, skipBlanks s, hbs, ?_, hs⟩
  rcases value_cases h with ⟨_, s', _, _, hs', _⟩ | ⟨_, s', _, _, hs', _⟩ |
    ⟨c, s', hs', _, _, hscalar⟩
  · exact ⟨'[', s', hs', rfl, by decide⟩
  · exact ⟨'{', s', hs', rfl, by decide⟩
  · refine ⟨c, s', hs', isBlank_of_skipBlanks hs', ?_⟩
    rintro rfl
    cases hscalar

/-! ## Passing over -/

/-- Passing over, as reading without a result. -/
def passing (skip : List Char → Except Fault (List Char)) : Reader Unit := fun s => do
  return ((), ← skip s)

theorem passing_eq_ok_iff {skip : List Char → Except Fault (List Char)} {s rest : List Char} :
    passing skip s = .ok ((), rest) ↔ skip s = .ok rest := by
  constructor
  · intro h
    obtain ⟨rest', hrest, h⟩ := bind_eq_ok_iff.1 h
    cases h
    exact hrest
  · intro h
    exact bind_eq_ok_iff.2 ⟨rest, h, rfl⟩

/-- A value that is no container is passed over from the front. -/
theorem local_skimScalar : Local (passing skimScalar) where
  nil _ _ h := by cases h
  front {s rest _} h := by
    have hword : ∀ (c : Char) (es : List Char) (r : List Char),
        (∀ t, skimScalar (c :: t) = word es t) → word es r = .ok rest →
          ReadsFront (passing skimScalar) (c :: r) () rest := by
      intro c es r hc hr
      refine ⟨c :: es, ?_, fun more _ => passing_eq_ok_iff.2 ?_⟩
      · rw [word_eq_ok_iff.1 hr]
        rfl
      · rw [List.cons_append, hc]
        exact word_eq_ok_iff.2 rfl
    replace h := passing_eq_ok_iff.1 h
    unfold skimScalar at h
    split at h
    · exact hword 'n' _ _ (fun _ => rfl) h
    · exact hword 't' _ _ (fun _ => rfl) h
    · exact hword 'f' _ _ (fun _ => rfl) h
    · obtain ⟨front, rfl, hmore⟩ := exists_front_of_skimText h
      exact ⟨'"' :: front, rfl, fun more _ => passing_eq_ok_iff.2 (hmore more)⟩
    · obtain ⟨⟨n, r⟩, hr, h⟩ := bind_eq_ok_iff.1 h
      cases h
      obtain ⟨front, rfl, hmore⟩ := readsFront_numeral hr
      refine ⟨'-' :: front, rfl, fun more hends => passing_eq_ok_iff.2 ?_⟩
      exact bind_eq_ok_iff.2 ⟨(n, more), hmore more hends, rfl⟩
    · next c s hn ht hf hq hm =>
      split at h
      · next hc =>
        obtain ⟨⟨n, r⟩, hr, h⟩ := bind_eq_ok_iff.1 h
        cases h
        obtain ⟨front, hs, hmore⟩ := readsFront_numeral hr
        refine ⟨front, hs, fun more hends => passing_eq_ok_iff.2 ?_⟩
        cases front with
        | nil => cases hmore [] ends_nil
        | cons d front =>
          obtain ⟨rfl, -⟩ := List.cons.inj hs
          rw [List.cons_append, skimScalar.eq_6 c _ hn ht hf hq hm, if_pos hc]
          exact bind_eq_ok_iff.2 ⟨(n, more), hmore more hends, rfl⟩
      · cases h
    · cases h

namespace Passed

/-- What is left of the text. -/
def rest : Passed → List Char
  | .whole rest => rest
  | .within _ rest => rest

/-- The same place, in front of another text. -/
def before (more : List Char) : Passed → Passed
  | .whole _ => .whole more
  | .within frames _ => .within frames more

/-- Whether another text may come next: behind the whole value, one that continues
no numeral, and inside of it, one that begins with the same character. -/
def Admits (more : List Char) : Passed → Prop
  | .whole _ => Ends more
  | .within _ rest => ∃ c t t', rest = c :: t ∧ more = c :: t'

end Passed

theorem exists_front_of_leadIn {frame : Frame} {s rest : List Char}
    (h : frame.leadIn s = .ok rest) :
    ∃ front, s = front ++ rest ∧ ∀ more, frame.leadIn (front ++ more) = .ok more := by
  cases frame with
  | list =>
    cases h
    exact ⟨[], rfl, fun more => rfl⟩
  | object =>
    unfold Frame.leadIn at h
    dsimp only at h
    split at h
    · cases h
    · next name hs =>
      obtain ⟨t, ht, h⟩ := bind_eq_ok_iff.1 h
      obtain ⟨bs, hbs, rfl⟩ := (skipBlanks_eq_cons_iff rfl).1 hs
      obtain ⟨bs', hbs', rfl⟩ := colon_eq_ok_iff.1 h
      obtain ⟨named, rfl, hnamed⟩ := exists_front_of_skimText ht
      refine ⟨bs ++ '"' :: (named ++ (bs' ++ [':'])), by simp, fun more => ?_⟩
      have hmore : Frame.object.leadIn (bs ++ '"' :: (named ++ (bs' ++ ':' :: more))) =
          .ok more := by
        rw [Frame.leadIn, skipBlanks_blanks_append hbs rfl]
        exact bind_eq_ok_iff.2 ⟨_, hnamed _, colon_eq_ok_iff.2 ⟨bs', hbs', rfl⟩⟩
      simpa using hmore
    · cases h

/-- What leads out of some containers is passed over alike, whatever comes next. -/
theorem exists_front_of_leave {frames : List Frame} {s : List Char} {p : Passed}
    (h : leave frames s = .ok p) :
    ∃ front, s = front ++ p.rest ∧ ∀ more, p.Admits more →
      Ends (front ++ more) ∧ leave frames (front ++ more) = .ok (p.before more) := by
  induction frames generalizing s with
  | nil =>
    cases h
    exact ⟨[], rfl, fun more hmore => ⟨hmore, rfl⟩⟩
  | cons frame frames ih =>
    unfold leave at h
    split at h
    · cases h
    · next c t hs =>
      have hblank := isBlank_of_skipBlanks hs
      obtain ⟨bs, hbs, rfl⟩ := (skipBlanks_eq_cons_iff hblank).1 hs
      split at h
      · next hc =>
        obtain ⟨front, rfl, hfront⟩ := ih h
        refine ⟨bs ++ c :: front, by simp, fun more hmore => ?_⟩
        rw [List.append_assoc, List.cons_append]
        constructor
        · refine Ends.blanks hbs (ends_cons ?_ _)
          rw [hc]
          cases frame with
          | list => rfl
          | object => rfl
        · rw [hc] at hblank ⊢
          rw [leave_closer (skipBlanks_blanks_append hbs hblank _)]
          exact (hfront more hmore).2
      · split at h
        · next hcomma =>
          subst hcomma
          obtain ⟨r, hr, h⟩ := bind_eq_ok_iff.1 h
          cases h
          obtain ⟨front, rfl, hfront⟩ := exists_front_of_leadIn hr
          refine ⟨bs ++ ',' :: front, by simp [Passed.rest], fun more _ => ?_⟩
          rw [List.append_assoc, List.cons_append]
          refine ⟨Ends.blanks hbs (ends_cons rfl _), ?_⟩
          rw [leave_comma (skipBlanks_blanks_append hbs rfl _), hfront more]
          rfl
        · cases h

/-- What leads into a container is passed over alike, whatever comes next. -/
theorem exists_front_of_enter {frame : Frame} {frames : List Frame} {s : List Char} {p : Passed}
    (h : enter frame frames s = .ok p) :
    ∃ front, s = front ++ p.rest ∧ ∀ more, p.Admits more →
      enter frame frames (front ++ more) = .ok (p.before more) := by
  unfold enter at h
  split at h
  · cases h
  · next c t hs =>
    have hblank := isBlank_of_skipBlanks hs
    obtain ⟨bs, hbs, rfl⟩ := (skipBlanks_eq_cons_iff hblank).1 hs
    split at h
    · next hc =>
      obtain ⟨front, rfl, hfront⟩ := exists_front_of_leave h
      refine ⟨bs ++ c :: front, by simp, fun more hmore => ?_⟩
      rw [hc] at hblank ⊢
      rw [List.append_assoc, List.cons_append,
        enter_closer (skipBlanks_blanks_append hbs hblank _)]
      exact (hfront more hmore).2
    · next hc =>
      obtain ⟨r, hr, h⟩ := bind_eq_ok_iff.1 h
      cases h
      obtain ⟨front, hs, hfront⟩ := exists_front_of_leadIn hr
      refine ⟨bs ++ front, by simp [hs, Passed.rest], fun more hmore => ?_⟩
      -- the character that was found not to close the container is still the next one
      obtain ⟨t', ht'⟩ : ∃ t', front ++ more = c :: t' := by
        cases front with
        | nil =>
          obtain ⟨c', u, u', hu, rfl⟩ := hmore
          rw [List.nil_append, hu] at hs
          exact ⟨u', by rw [(List.cons.inj hs).1]; rfl⟩
        | cons c' front => exact ⟨front ++ more, by rw [(List.cons.inj hs).1]; rfl⟩
      rw [List.append_assoc, ht', enter_entry frame (skipBlanks_blanks_append hbs hblank _) hc,
        ← ht', hfront more]
      rfl

/-- One round of passing over depends on what it takes, and it takes something. -/
theorem exists_front_of_advance {frames : List Frame} {s : List Char} {p : Passed}
    (h : advance frames s = .ok p) :
    ∃ front, front ≠ [] ∧ s = front ++ p.rest ∧ ∀ more, p.Admits more →
      advance frames (front ++ more) = .ok (p.before more) := by
  have hopen : ∀ (frame : Frame) (c : Char) (t : List Char), isBlank c = false →
      (∀ s t, skipBlanks s = c :: t → advance frames s = enter frame frames t) →
      skipBlanks s = c :: t → ∃ front, front ≠ [] ∧ s = front ++ p.rest ∧ ∀ more, p.Admits more →
        advance frames (front ++ more) = .ok (p.before more) := by
    intro frame c t hblank hadvance hs
    rw [hadvance s t hs] at h
    obtain ⟨bs, hbs, rfl⟩ := (skipBlanks_eq_cons_iff hblank).1 hs
    obtain ⟨front, rfl, hfront⟩ := exists_front_of_enter h
    refine ⟨bs ++ c :: front, by simp, by simp, fun more hmore => ?_⟩
    rw [List.append_assoc, List.cons_append,
      hadvance _ _ (skipBlanks_blanks_append hbs hblank _)]
    exact hfront more hmore
  cases hs : skipBlanks s with
  | nil =>
    rw [advance, hs] at h
    cases h
  | cons c t =>
    have hblank := isBlank_of_skipBlanks hs
    by_cases hlist : c = '['
    · subst hlist
      exact hopen .list '[' t hblank (fun s t hs => by rw [advance, hs]; rfl) hs
    · by_cases hobject : c = '{'
      · subst hobject
        exact hopen .object '{' t hblank (fun s t hs => by rw [advance, hs]; rfl) hs
      · have hscalar : ∃ r, skimScalar (c :: t) = .ok r ∧ leave frames r = .ok p := by
          unfold advance at h
          rw [hs] at h
          split at h
          · next heq => cases heq; exact absurd rfl hlist
          · next heq => cases heq; exact absurd rfl hobject
          · exact bind_eq_ok_iff.1 h
        obtain ⟨r, hr, hleave⟩ := hscalar
        obtain ⟨bs, hbs, rfl⟩ := (skipBlanks_eq_cons_iff hblank).1 hs
        obtain ⟨c', front, heq, hfront⟩ :=
          local_skimScalar.exists_front (passing_eq_ok_iff.2 hr)
        obtain ⟨rfl, rfl⟩ := List.cons.inj heq
        obtain ⟨front', rfl, hfront'⟩ := exists_front_of_leave hleave
        refine ⟨bs ++ c :: (front ++ front'), by simp, by simp, fun more hmore => ?_⟩
        -- behind the scalar comes what leads out of the containers, which ends a numeral
        obtain ⟨hends, hleave'⟩ := hfront' more hmore
        have hskim := passing_eq_ok_iff.1 (hfront _ hends)
        rw [List.append_assoc, List.cons_append, List.append_assoc,
          advance_scalar (skipBlanks_blanks_append hbs hblank _) hlist hobject hskim]
        exact hleave'

/-- However many rounds there are, it is enough that they are no fewer than the
characters that are passed over. -/
theorem exists_front_of_skimFrom {rounds s rest : List Char} {frames : List Frame}
    (h : skimFrom rounds frames s = .ok rest) :
    ∃ front, front ≠ [] ∧ s = front ++ rest ∧ ∀ more, Ends more → ∀ rounds' : List Char,
      front.length ≤ rounds'.length → skimFrom rounds' frames (front ++ more) = .ok more := by
  induction rounds generalizing frames s with
  | nil => cases h
  | cons _ rounds ih =>
    rw [skimFrom_cons] at h
    obtain ⟨p, hp, hgo⟩ := bind_eq_ok_iff.1 h
    obtain ⟨front, hne, rfl, hfront⟩ := exists_front_of_advance hp
    have hpos : 0 < front.length := List.length_pos_iff.2 hne
    cases p with
    | whole r =>
      cases hgo
      refine ⟨front, hne, rfl, fun more hends rounds' hlength => ?_⟩
      obtain ⟨r', rounds', rfl⟩ := List.exists_cons_of_length_pos (hpos.trans_le hlength)
      rw [skimFrom_cons, hfront more hends]
      rfl
    | within frames' r =>
      obtain ⟨front', hne', hr, hfront'⟩ := ih hgo
      refine ⟨front ++ front', by simp [hne], by simp [Passed.rest, hr], ?_⟩
      intro more hends rounds' hlength
      rw [List.length_append] at hlength
      obtain ⟨r', rounds', rfl⟩ :=
        List.exists_cons_of_length_pos (hpos.trans_le (Nat.le_of_add_right_le hlength))
      rw [List.length_cons] at hlength
      -- the next round takes a character, so the text behind this one begins as before
      have hadmits : (Passed.within frames' r).Admits (front' ++ more) := by
        obtain ⟨c, t, rfl⟩ := List.exists_cons_of_ne_nil hne'
        exact ⟨c, t ++ rest, t ++ more, hr, rfl⟩
      rw [skimFrom_cons, List.append_assoc, hfront _ hadmits]
      exact hfront' more hends rounds' (by omega)

/-- **A value is passed over from the front.** -/
theorem local_skim : Local (passing skim) where
  nil _ _ h := by cases h
  front {s rest _} h := by
    obtain ⟨front, -, rfl, hmore⟩ := exists_front_of_skimFrom (passing_eq_ok_iff.1 h)
    refine ⟨front, rfl, fun more hends => passing_eq_ok_iff.2 (hmore more hends _ ?_)⟩
    rw [List.length_append]
    exact Nat.le_add_right ..

end Linework.Json
