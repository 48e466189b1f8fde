import Mathlib.Data.List.Forall2
import Linework.Proofs.Json.Splice
import Linework.Proofs.Json.Typed

/-!
# Containers as lists of texts

An object is a list of names with a text each, and a list is a list of texts: that much can be
said of a container before anyone asks what its entries mean. `valueText` takes one value off a
text as it stands there, by passing over it.

Whoever reads a value of some type takes the same characters that passing over would take, and
reads them alike wherever they stand. Readers of which this is true are said to span what they
read (`Spans`). For such a reader a container is read exactly if its entries, taken as texts,
are read one by one (`Elements.texts_iff`, `Members.texts_iff`), and then the reader of the
container spans what it reads in turn (`Spans.array`). So the property goes from numbers up to
whatever is built of them.
-/

namespace Linework.Json

/-! ## Passing over inside further containers -/

/-- How far one is in a value if that value itself stands inside some containers. -/
def Passed.inside (frames : List Frame) : Passed → Except Fault Passed
  | .whole rest => leave frames rest
  | .within inner rest => .ok (.within (inner ++ frames) rest)

theorem leave_append {inner : List Frame} {s : List Char} {p : Passed} (h : leave inner s = .ok p)
    (frames : List Frame) : leave (inner ++ frames) s = p.inside frames := by
  induction inner generalizing s with
  | nil =>
    cases h
    rfl
  | cons frame inner ih =>
    unfold leave at h
    split at h
    · cases h
    · next c t hs =>
      split at h
      · next hc =>
        rw [hc] at hs
        rw [List.cons_append, leave_closer hs]
        exact ih h
      · split at h
        · next hcomma =>
          rw [hcomma] at hs
          obtain ⟨r, hr, h⟩ := bind_eq_ok_iff.1 h
          cases h
          rw [List.cons_append, leave_comma hs, hr]
          rfl
        · cases h

theorem enter_append {frame : Frame} {inner : List Frame} {s : List Char} {p : Passed}
    (h : enter frame inner s = .ok p) (frames : List Frame) :
    enter frame (inner ++ frames) s = p.inside frames := by
  unfold enter at h
  split at h
  · cases h
  · next c t hs =>
    split at h
    · next hc =>
      rw [hc] at hs
      rw [enter_closer hs]
      exact leave_append h frames
    · next hc =>
      obtain ⟨r, hr, h⟩ := bind_eq_ok_iff.1 h
      cases h
      rw [enter_entry frame hs hc, hr]
      rfl

/-- One round of passing over does not depend on what the value stands in. -/
theorem advance_append {inner : List Frame} {s : List Char} {p : Passed}
    (h : advance inner s = .ok p) (frames : List Frame) :
    advance (inner ++ frames) s = p.inside frames := by
  cases hs : skipBlanks s with
  | nil =>
    rw [advance, hs] at h
    cases h
  | cons c t =>
    by_cases hlist : c = '['
    · subst hlist
      have hadvance : ∀ frames, advance frames s = enter .list frames t :=
        fun frames => by rw [advance, hs]; rfl
      rw [hadvance] at h ⊢
      exact enter_append h frames
    · by_cases hobject : c = '{'
      · subst hobject
        have hadvance : ∀ frames, advance frames s = enter .object frames t :=
          fun frames => by rw [advance, hs]; rfl
        rw [hadvance] at h ⊢
        exact enter_append h frames
      · have hscalar : ∃ r, skimScalar (c :: t) = .ok r ∧ leave inner r = .ok p := by
          unfold advance at h
          rw [hs] at h
          split at h
          · next heq => cases heq; exact absurd rfl hlist
          · next heq => cases heq; exact absurd rfl hobject
          · exact bind_eq_ok_iff.1 h
        obtain ⟨r, hr, hleave⟩ := hscalar
        rw [advance_scalar hs hlist hobject hr]
        exact leave_append hleave frames

/-- **What is passed over alone is passed over inside of anything.** The induction is on the
rounds that it took alone; inside, a round is taken for each of them. -/
theorem passedOver_of_skimFrom {rounds s rest : List Char} {inner : List Frame}
    (h : skimFrom rounds inner s = .ok rest) (rounds' : List Char) (frames : List Frame)
    (hrounds : s.length ≤ rounds'.length) :
    ∃ rounds'', rest.length ≤ rounds''.length ∧
      skimFrom rounds' (inner ++ frames) s = resume rounds'' frames rest := by
  induction rounds generalizing inner s rounds' with
  | nil => cases h
  | cons _ rounds ih =>
    rw [skimFrom_cons] at h
    obtain ⟨p, hp, hgo⟩ := bind_eq_ok_iff.1 h
    obtain ⟨front, hne, hs, -⟩ := exists_front_of_advance hp
    have hpos : 0 < front.length := List.length_pos_iff.2 hne
    rw [hs, List.length_append] at hrounds
    obtain ⟨r, rounds', rfl⟩ := List.exists_cons_of_length_pos (l := rounds') (by omega)
    rw [List.length_cons] at hrounds
    rw [skimFrom_cons, advance_append hp]
    cases p with
    | whole r =>
      cases hgo
      exact ⟨rounds', by rw [Passed.rest] at hrounds; omega, rfl⟩
    | within frames' r =>
      exact ih hgo rounds' (by rw [Passed.rest] at hrounds; omega)

theorem passedOver_of_skim {s rest : List Char} (h : skim s = .ok rest) : PassedOver s rest :=
  fun rounds frames hrounds => passedOver_of_skimFrom h rounds frames hrounds

theorem skim_of_passedOver {s rest : List Char} (h : PassedOver s rest) : skim s = .ok rest := by
  obtain ⟨rounds, -, hskim⟩ := h s [] (Nat.le_refl _)
  exact hskim

/-- A list whose elements are passed over one by one is passed over. -/
theorem skim_list {α : Type} {item : Reader α}
    (hitem : ∀ {s rest : List Char} {x : α}, item s = .ok (x, rest) → skim s = .ok rest)
    {s t rest : List Char} {xs : List α} (hs : skipBlanks s = '[' :: t)
    (h : listOf item t = .ok (xs, rest)) : skim s = .ok rest := by
  refine skim_of_passedOver fun rounds frames hrounds => ?_
  have hlt := length_lt_of_skipBlanks hs
  obtain ⟨r, rounds, rfl⟩ := List.exists_cons_of_length_pos (l := rounds) (by omega)
  rw [List.length_cons] at hrounds
  have hadvance : advance frames s = enter .list frames t := by rw [advance, hs]; rfl
  rw [skimFrom_cons, hadvance]
  exact enter_of_elements (fun hx => passedOver_of_skim (hitem hx)) h frames (by omega)

/-- An object the values of whose members are passed over one by one is passed over. -/
theorem skim_object {σ : Type} {member : String → σ → Reader σ}
    (hmember : ∀ {key : String} {state state' : σ} {s rest : List Char},
      member key state s = .ok (state', rest) → ∃ t, colon s = .ok t ∧ skim t = .ok rest)
    {s t rest : List Char} {state state' : σ} (hs : skipBlanks s = '{' :: t)
    (h : objectOf stringText member state t = .ok (state', rest)) : skim s = .ok rest := by
  refine skim_of_passedOver fun rounds frames hrounds => ?_
  have hlt := length_lt_of_skipBlanks hs
  obtain ⟨r, rounds, rfl⟩ := List.exists_cons_of_length_pos (l := rounds) (by omega)
  rw [List.length_cons] at hrounds
  have hadvance : advance frames s = enter .object frames t := by rw [advance, hs]; rfl
  rw [skimFrom_cons, hadvance]
  refine enter_of_members (fun hm => ?_) h frames (by omega)
  obtain ⟨u, hu, hskim⟩ := hmember hm
  exact ⟨u, hu, passedOver_of_skim hskim⟩

/-! ## Values as texts -/

/-- Takes a value off a text as it stands there, with the blanks before it. -/
def valueText : Reader (List Char) := fun s => do
  let rest ← skim s
  return (s.take (s.length - rest.length), rest)

theorem valueText_eq_ok_iff {s t rest : List Char} :
    valueText s = .ok (t, rest) ↔ skim s = .ok rest ∧ s = t ++ rest := by
  rw [valueText, bind_eq_ok_iff]
  constructor
  · rintro ⟨rest', hskim, h⟩
    cases h
    obtain ⟨front, hs, -⟩ := local_skim.front (passing_eq_ok_iff.2 hskim)
    refine ⟨hskim, ?_⟩
    rw [hs, List.length_append, Nat.add_sub_cancel, List.take_left]
  · rintro ⟨hskim, hs⟩
    refine ⟨rest, hskim, ?_⟩
    rw [hs, List.length_append, Nat.add_sub_cancel, List.take_left]
    rfl

/-- **A reader that spans what it reads**: it reads from the front, and it takes what passing
over would take. -/
structure Spans {α : Type} (item : Reader α) : Prop extends Local item where
  /-- What is read could have been passed over. -/
  skims {s rest : List Char} {x : α} : item s = .ok (x, rest) → skim s = .ok rest

theorem spans_valueText : Spans valueText where
  nil t rest h := by
    cases (valueText_eq_ok_iff.1 h).1
  front {s rest t} h := by
    obtain ⟨hskim, rfl⟩ := valueText_eq_ok_iff.1 h
    obtain ⟨front, hs, hmore⟩ := local_skim.front (passing_eq_ok_iff.2 hskim)
    obtain rfl : t = front := List.append_cancel_right hs
    refine ⟨t, rfl, fun more hends => valueText_eq_ok_iff.2 ⟨?_, rfl⟩⟩
    exact passing_eq_ok_iff.1 (hmore more hends)
  skims h := (valueText_eq_ok_iff.1 h).1

section Texts

variable {α : Type} {item : Reader α}

/-- What is read somewhere is a text that is read alone. -/
theorem Spans.exists_text (hitem : Spans item) {s rest : List Char} {x : α}
    (h : item s = .ok (x, rest)) :
    ∃ t, valueText s = .ok (t, rest) ∧ item t = .ok (x, []) := by
  obtain ⟨front, rfl, hmore⟩ := hitem.front h
  refine ⟨front, valueText_eq_ok_iff.2 ⟨hitem.skims h, rfl⟩, ?_⟩
  have halone := hmore [] ends_nil
  rwa [List.append_nil] at halone

/-- A text that is read alone is read where it stands. -/
theorem Spans.of_text (hitem : Spans item) {s t rest : List Char} {x : α}
    (hs : valueText s = .ok (t, rest)) (h : item t = .ok (x, [])) (hends : Ends rest) :
    item s = .ok (x, rest) := by
  obtain ⟨-, rfl⟩ := valueText_eq_ok_iff.1 hs
  obtain ⟨front, hfront, hmore⟩ := hitem.front h
  rw [List.append_nil] at hfront
  rw [hfront]
  exact hmore rest hends

/-- A value taken off a text is a value by itself. -/
theorem skim_of_valueText {s t rest : List Char} (h : valueText s = .ok (t, rest)) :
    skim t = .ok [] := by
  obtain ⟨t', ht', halone⟩ := spans_valueText.exists_text h
  rw [h] at ht'
  cases ht'
  exact spans_valueText.skims halone

/-- **Elements are read one by one from their texts.** -/
theorem Elements.texts_iff (hitem : Spans item) {first : Bool} {s rest : List Char}
    {xs : List α} :
    Elements item first s xs rest ↔
      ∃ ts, Elements valueText first s ts rest ∧
        List.Forall₂ (fun t x => item t = .ok (x, [])) ts xs := by
  constructor
  · intro h
    induction h with
    | closes hbs => exact ⟨[], .closes hbs, .nil⟩
    | entry hlead hopens hx _ ih =>
      obtain ⟨t, ht, halone⟩ := hitem.exists_text hx
      obtain ⟨ts, hts, hall⟩ := ih
      exact ⟨t :: ts, .entry hlead hopens ht hts, .cons halone hall⟩
  · rintro ⟨ts, h, hall⟩
    induction h generalizing xs with
    | closes hbs =>
      cases hall
      exact .closes hbs
    | entry hlead hopens ht hts ih =>
      cases hall with
      | cons halone hall =>
        exact .entry hlead hopens (hitem.of_text ht halone hts.ends) (ih hall)

/-- **Members are read one by one from their texts**, each by the reader for its name. -/
theorem Members.texts_iff {item : String → Reader α} (hitem : ∀ key, Spans (item key))
    {first : Bool} {s rest : List Char} {xs : List (String × α)} :
    Members item first s xs rest ↔
      ∃ ms, Members (fun _ => valueText) first s ms rest ∧
        List.Forall₂ (fun m x => m.1 = x.1 ∧ item m.1 m.2 = .ok (x.2, [])) ms xs := by
  constructor
  · intro h
    induction h with
    | closes hbs => exact ⟨[], .closes hbs, .nil⟩
    | @entry first lead name bs s t rest key x xs hlead hname hbs hx _ ih =>
      obtain ⟨text, ht, halone⟩ := (hitem key).exists_text hx
      obtain ⟨ms, hms, hall⟩ := ih
      exact ⟨(key, text) :: ms, .entry hlead hname hbs ht hms, .cons ⟨rfl, halone⟩ hall⟩
  · rintro ⟨ms, h, hall⟩
    induction h generalizing xs with
    | closes hbs =>
      cases hall
      exact .closes hbs
    | @entry first lead name bs s t rest key text ms hlead hname hbs ht hms ih =>
      cases hall with
      | @cons _ x _ xs hx hall =>
        obtain ⟨key', x⟩ := x
        obtain ⟨rfl, halone⟩ := hx
        exact .entry hlead hname hbs ((hitem _).of_text ht halone hms.ends) (ih hall)

end Texts

/-! ## Uniqueness -/

/-- Members, with what is read of each, in order. -/
def collect {α : Type} (item : String → Reader α) (key : String) (before : List (String × α)) :
    Reader (List (String × α)) := fun s => do
  let (x, rest) ← item key (← colon s)
  return (before ++ [(key, x)], rest)

theorem collect_eq_ok_iff {α : Type} {item : String → Reader α} (key : String)
    (before after : List (String × α)) (s rest : List Char) :
    collect item key before s = .ok (after, rest) ↔ ∃ t x, colon s = .ok t ∧
      item key t = .ok (x, rest) ∧ some (before ++ [(key, x)]) = some after := by
  constructor
  · intro h
    obtain ⟨t, ht, h⟩ := bind_eq_ok_iff.1 h
    obtain ⟨⟨x, rest'⟩, hx, h⟩ := bind_eq_ok_iff.1 h
    cases h
    exact ⟨t, x, ht, hx, rfl⟩
  · rintro ⟨t, x, ht, hx, h⟩
    cases h
    exact bind_eq_ok_iff.2 ⟨t, ht, bind_eq_ok_iff.2 ⟨(x, rest), hx, rfl⟩⟩

theorem foldlM_collect {α : Type} (xs before : List (String × α)) :
    xs.foldlM (fun before x => some (before ++ [(x.1, x.2)])) before = some (before ++ xs) := by
  induction xs generalizing before with
  | nil => rw [List.append_nil]; rfl
  | cons x xs ih =>
    refine (ih (before ++ [x])).trans ?_
    rw [List.append_assoc, List.singleton_append]

/-- Members of a text are found by a loop. -/
theorem members_collect_iff {α : Type} {item : String → Reader α} {rounds s rest : List Char}
    {first : Bool} {xs : List (String × α)} :
    members stringText (collect item) rounds first [] s = .ok (xs, rest) ↔
      Members item first s xs rest ∧ xs.length < rounds.length := by
  rw [members_eq_ok_iff collect_eq_ok_iff]
  constructor
  · rintro ⟨xs', h, hlength, hfold⟩
    rw [foldlM_collect, List.nil_append, Option.some.injEq] at hfold
    rw [← hfold]
    exact ⟨h, hlength⟩
  · rintro ⟨h, hlength⟩
    exact ⟨xs, h, hlength, by rw [foldlM_collect, List.nil_append]⟩

/-- **A text is read as members in one way at most.** -/
theorem Members.unique {α : Type} {item : String → Reader α} {first : Bool}
    {s rest rest' : List Char} {xs xs' : List (String × α)} (h : Members item first s xs rest)
    (h' : Members item first s xs' rest') : xs = xs' ∧ rest = rest' := by
  have hrounds : ∀ n, n ≤ xs.length + xs'.length →
      n < (List.replicate (xs.length + xs'.length + 1) ' ').length := by
    intro n hn
    rw [List.length_replicate]
    omega
  have hloop := members_collect_iff.2 ⟨h, hrounds _ (Nat.le_add_right ..)⟩
  have hloop' := members_collect_iff.2 ⟨h', hrounds _ (Nat.le_add_left ..)⟩
  rw [hloop, Except.ok.injEq, Prod.mk.injEq] at hloop'
  exact hloop'

/-! ## Single values -/

theorem spans_of_value_iff {α : Type} {item : Reader α} {d : Nat} {R : Json → α → Prop}
    (hitem : ∀ {s rest : List Char} {x : α},
      item s = .ok (x, rest) ↔ ∃ v, value d s = .ok (v, rest) ∧ R v x) : Spans item where
  toLocal := local_of_value_iff hitem
  skims := skim_of_value_iff hitem

/-- A number is read if the value is one and it is acceptable. -/
theorem numeric_eq_ok_iff {α : Type} {expected : Expected} {accept : Number → Except Mismatch α}
    {d : Nat} {s rest : List Char} {x : α} :
    numeric expected accept d s = .ok (x, rest) ↔
      ∃ v, value d s = .ok (v, rest) ∧ ∃ n, v = .number n ∧ accept n = .ok x := by
  constructor
  · intro h
    unfold numeric at h
    split at h
    · cases h
    · next t hs =>
      obtain ⟨⟨n, rest'⟩, hn, h⟩ := bind_eq_ok_iff.1 h
      obtain ⟨y, hy, h⟩ := bind_eq_ok_iff.1 h
      cases h
      refine ⟨.number n, ?_, n, rfl, mapError_eq_ok_iff.1 hy⟩
      rw [value_scalar hs (by decide) (by decide)]
      exact bind_eq_ok_iff.2 ⟨(n, rest), hn, rfl⟩
    · next c t hminus hs =>
      split at h
      · next hc =>
        obtain ⟨⟨n, rest'⟩, hn, h⟩ := bind_eq_ok_iff.1 h
        obtain ⟨y, hy, h⟩ := bind_eq_ok_iff.1 h
        cases h
        refine ⟨.number n, ?_, n, rfl, mapError_eq_ok_iff.1 hy⟩
        have hne : ∀ c', c'.isDigit = false → c ≠ c' := by
          rintro c' hc' rfl
          rw [hc] at hc'
          cases hc'
        rw [value_scalar hs (hne '[' rfl) (hne '{' rfl), scalar.eq_6 c t (hne 'n' rfl) (hne 't' rfl)
          (hne 'f' rfl) (hne '"' rfl) (hne '-' rfl), if_pos hc]
        exact bind_eq_ok_iff.2 ⟨(n, rest), hn, rfl⟩
      · cases h
  · rintro ⟨v, hv, n, rfl, hx⟩
    rcases value_cases hv with ⟨_, _, _, _, _, _, heq⟩ | ⟨_, _, _, _, _, _, heq⟩ |
      ⟨c, t, hs, _, _, hscalar⟩
    · cases heq
    · cases heq
    · rw [numeric_of_scalar hs hscalar, hx]
      rfl

/-- A truth value is read if the value is one. -/
theorem boolean_eq_ok_iff {d : Nat} {s rest : List Char} {b : Bool} :
    boolean d s = .ok (b, rest) ↔ ∃ v, value d s = .ok (v, rest) ∧ v = .bool b := by
  constructor
  · intro h
    unfold boolean at h
    split at h
    · cases h
    · next t hs =>
      obtain ⟨rest', hrest, h⟩ := bind_eq_ok_iff.1 h
      cases h
      refine ⟨.bool true, ?_, rfl⟩
      rw [value_scalar hs (by decide) (by decide)]
      exact bind_eq_ok_iff.2 ⟨rest, hrest, rfl⟩
    · next t hs =>
      obtain ⟨rest', hrest, h⟩ := bind_eq_ok_iff.1 h
      cases h
      refine ⟨.bool false, ?_, rfl⟩
      rw [value_scalar hs (by decide) (by decide)]
      exact bind_eq_ok_iff.2 ⟨rest, hrest, rfl⟩
    · cases h
  · rintro ⟨v, hv, rfl⟩
    rcases value_cases hv with ⟨_, _, _, _, _, _, heq⟩ | ⟨_, _, _, _, _, _, heq⟩ |
      ⟨c, t, hs, _, _, hscalar⟩
    · cases heq
    · cases heq
    · rw [boolean, hs]
      unfold scalar at hscalar
      split at hscalar
      · obtain ⟨_, -, h⟩ := bind_eq_ok_iff.1 hscalar
        cases h
      · next heq =>
        cases heq
        obtain ⟨rest', hrest, h⟩ := bind_eq_ok_iff.1 hscalar
        cases h
        show (do return (_, ← word _ _) : Except Fault (Bool × List Char)) = _
        rw [hrest]
        rfl
      · next heq =>
        cases heq
        obtain ⟨rest', hrest, h⟩ := bind_eq_ok_iff.1 hscalar
        cases h
        show (do return (_, ← word _ _) : Except Fault (Bool × List Char)) = _
        rw [hrest]
        rfl
      · obtain ⟨⟨_, _⟩, -, h⟩ := bind_eq_ok_iff.1 hscalar
        cases h
      · obtain ⟨⟨_, _⟩, -, h⟩ := bind_eq_ok_iff.1 hscalar
        cases h
      · split at hscalar
        · obtain ⟨⟨_, _⟩, -, h⟩ := bind_eq_ok_iff.1 hscalar
          cases h
        · cases hscalar
      · cases hscalar

theorem spans_numeric {α : Type} (expected : Expected) (accept : Number → Except Mismatch α)
    (d : Nat) : Spans (numeric expected accept d) :=
  spans_of_value_iff numeric_eq_ok_iff

theorem spans_boolean (d : Nat) : Spans (boolean d) := spans_of_value_iff boolean_eq_ok_iff

/-! ## Lists and records -/

section Decoders

variable {α : Type}

theorem Spans.map {β : Type} {item : Reader β} (h : Spans item) (f : β → α) :
    Spans fun s => do
      let (x, rest) ← item s
      return (f x, rest) where
  toLocal := h.toLocal.map f
  skims hs := by
    obtain ⟨⟨x, rest⟩, hx, hs⟩ := bind_eq_ok_iff.1 hs
    cases hs
    exact h.skims hx

theorem spans_passing_skim : Spans (passing skim) where
  toLocal := local_skim
  skims h := passing_eq_ok_iff.1 h

/-- **A list spans what its elements span.** -/
theorem Spans.array {item : Decoder α} (hitem : ∀ d, Spans (item d)) (d : Nat) :
    Spans (array item d) where
  nil xs rest h := by cases h
  front {s rest xs} h := by
    obtain ⟨d', bs, t, rfl, hbs, rfl, hxs⟩ :=
      (array_eq_ok_iff fun d => (hitem d).toLocal).1 h
    obtain ⟨front, rfl, hmore⟩ := hxs.exists_front (hitem d').toLocal
    refine ⟨bs ++ '[' :: front, by simp, fun more _ => ?_⟩
    refine (array_eq_ok_iff fun d => (hitem d).toLocal).2
      ⟨d', bs, front ++ more, rfl, hbs, by simp, hmore more⟩
  skims {s rest xs} h := by
    obtain ⟨d', bs, t, rfl, hbs, rfl, hxs⟩ :=
      (array_eq_ok_iff fun d => (hitem d).toLocal).1 h
    exact skim_list (hitem d').skims (skipBlanks_blanks_append hbs rfl t)
      ((listOf_eq_ok_iff (hitem d').toLocal).2 hxs)

/-- **Fields given by their order**: some texts for the first of them, and the rest may be left
out. -/
inductive Filled (d : Nat) :
    List (RecordField α) → List (List Char) → List (α → α) → Prop where
  /-- No text is left, and no field that has to be given. -/
  | nil {fields : List (RecordField α)} :
    (∀ f ∈ fields, f.required = false) → Filled d fields [] []
  /-- The next text gives the next field. -/
  | cons {f : RecordField α} {fields : List (RecordField α)} {t : List Char}
      {ts : List (List Char)} {change : α → α} {changes : List (α → α)} :
    f.decode d t = .ok (change, []) → Filled d fields ts changes →
    Filled d (f :: fields) (t :: ts) (change :: changes)

theorem closeList_eq_ok_iff {s rest : List Char} :
    closeList s = .ok rest ↔ skipBlanks s = ']' :: rest := by
  constructor
  · intro h
    unfold closeList at h
    split at h
    · cases h
    · next hs =>
      cases h
      exact hs
    · split at h <;> cases h
    · cases h
  · intro h
    rw [closeList, h]
    rfl

/-- Where the list is at its end, no further field is given. -/
theorem positional_closed_iff {expected : Expected} {d : Nat} {fields : List (RecordField α)}
    {i : Nat} {x y : α} {s rest rest' : List Char} (hs : skipBlanks s = ']' :: rest) :
    positional expected d fields i x s = .ok (y, rest') ↔
      (∀ f ∈ fields, f.required = false) ∧ y = x ∧ rest' = rest := by
  induction fields generalizing i s with
  | nil =>
    rw [positional, closeList_eq_ok_iff.2 hs, ok_bind]
    show Except.ok (x, rest) = .ok (y, rest') ↔ _
    rw [Except.ok.injEq, Prod.mk.injEq, eq_comm, eq_comm (a := rest)]
    exact ⟨fun h => ⟨fun _ hf => absurd hf List.not_mem_nil, h⟩, fun h => h.2⟩
  | cons f fields ih =>
    rw [positional, nextElement_of_closes hs, ok_bind, List.forall_mem_cons]
    dsimp only
    cases hf : f.required with
    | true => simp
    | false =>
      rw [if_neg Bool.false_ne_true, ih (skipBlanks_cons rfl rest)]
      exact ⟨fun h => ⟨⟨rfl, h.1⟩, h.2⟩, fun h => ⟨h.1.2, h.2⟩⟩

/-- **Fields in order are read one by one from their texts.** -/
theorem positional_eq_ok_iff {expected : Expected} {d : Nat} {fields : List (RecordField α)}
    (hfields : ∀ f ∈ fields, Spans (f.decode d)) {i : Nat} {x y : α} {s rest : List Char} :
    positional expected d fields i x s = .ok (y, rest) ↔
      ∃ ts changes, Elements valueText (i == 0) s ts rest ∧ Filled d fields ts changes ∧
        y = changes.foldl (fun x change => change x) x := by
  induction fields generalizing i x s with
  | nil =>
    constructor
    · intro h
      obtain ⟨rest', hclose, h⟩ := bind_eq_ok_iff.1 h
      cases h
      obtain ⟨bs, hbs, rfl⟩ := (skipBlanks_eq_cons_iff rfl).1 (closeList_eq_ok_iff.1 hclose)
      exact ⟨[], [], .closes hbs, .nil nofun, rfl⟩
    · rintro ⟨ts, changes, hts, hfilled, rfl⟩
      cases hfilled
      cases hts with
      | closes hbs =>
        exact bind_eq_ok_iff.2
          ⟨rest, closeList_eq_ok_iff.2 (skipBlanks_blanks_append hbs rfl rest), rfl⟩
  | cons f fields ih =>
    have hf := hfields f List.mem_cons_self
    have ih := fun {i x s} =>
      @ih (fun f' hf' => hfields f' (List.mem_cons_of_mem f hf')) i x s
    constructor
    · intro h
      rw [positional] at h
      obtain ⟨next, hnext, hread⟩ := bind_eq_ok_iff.1 h
      cases next with
      | closes r =>
        -- the list is over, so this field and all behind it are left out
        obtain ⟨tail, hs, rfl⟩ := nextElement_eq_closes hnext
        rw [← positional] at h
        obtain ⟨hnone, rfl, rfl⟩ := (positional_closed_iff hs).1 h
        obtain ⟨bs, hbs, rfl⟩ := (skipBlanks_eq_cons_iff rfl).1 hs
        exact ⟨[], [], .closes hbs, .nil hnone, rfl⟩
      | entry r =>
        obtain ⟨lead, hlead, hopens, rfl⟩ := nextElement_eq_entry_iff.1 hnext
        obtain ⟨⟨change, u⟩, hchange, hread⟩ := bind_eq_ok_iff.1 hread
        obtain ⟨t, ht, halone⟩ := hf.exists_text hchange
        obtain ⟨ts, changes, hts, hfilled, rfl⟩ := ih.1 hread
        exact ⟨t :: ts, change :: changes, .entry hlead hopens ht hts, .cons halone hfilled, rfl⟩
    · rintro ⟨ts, changes, hts, hfilled, rfl⟩
      cases hfilled with
      | nil hnone =>
        cases hts with
        | closes hbs =>
          exact (positional_closed_iff (skipBlanks_blanks_append hbs rfl rest)).2
            ⟨hnone, rfl, rfl⟩
      | cons halone hfilled =>
        cases hts with
        | entry hlead hopens ht hts =>
          refine bind_eq_ok_iff.2 ⟨_, nextElement_eq_entry_iff.2 ⟨_, hlead, hopens, rfl⟩, ?_⟩
          refine bind_eq_ok_iff.2 ⟨_, hf.of_text ht halone hts.ends, ?_⟩
          exact ih.2 ⟨_, _, hts, hfilled, rfl⟩

namespace Record

variable {r : Record α}

theorem spans_item {d : Nat} (hfields : ∀ f ∈ r.fields, Spans (f.decode d)) (key : String) :
    Spans (r.item d key) := by
  unfold item
  split
  · exact spans_passing_skim.map fun _ => none
  · next f hf => exact (hfields f (List.mem_of_find?_eq_some hf)).map some

/-- A record is read from an object or from a list. -/
theorem decode_eq_ok_iff {d : Nat} {s rest : List Char} {x : α} :
    r.decode d s = .ok (x, rest) ↔
      ∃ d' bs t, d = d' + 1 ∧ Blanks bs ∧
        (s = bs ++ '{' :: t ∧ r.keyed d' t = .ok (x, rest) ∨
          s = bs ++ '[' :: t ∧ positional (.fields r.title r.fields.length) d' r.fields 0
            r.template t = .ok (x, rest)) := by
  constructor
  · intro h
    unfold decode at h
    split at h
    · cases h
    · next t hs =>
      obtain ⟨bs, hbs, rfl⟩ := (skipBlanks_eq_cons_iff rfl).1 hs
      cases d with
      | zero => cases h
      | succ d => exact ⟨d, bs, t, rfl, hbs, .inr ⟨rfl, h⟩⟩
    · next t hs =>
      obtain ⟨bs, hbs, rfl⟩ := (skipBlanks_eq_cons_iff rfl).1 hs
      cases d with
      | zero => cases h
      | succ d => exact ⟨d, bs, t, rfl, hbs, .inl ⟨rfl, h⟩⟩
    · cases h
  · rintro ⟨d', bs, t, rfl, hbs, ⟨rfl, h⟩ | ⟨rfl, h⟩⟩
    · rw [decode, skipBlanks_blanks_append hbs rfl]
      exact h
    · rw [decode, skipBlanks_blanks_append hbs rfl]
      exact h

/-- **A record spans what its fields span.** -/
theorem spans_decode (hfields : ∀ f ∈ r.fields, ∀ d, Spans (f.decode d)) (d : Nat) :
    Spans (r.decode d) where
  nil x rest h := by cases h
  front {s rest x} h := by
    obtain ⟨d', bs, t, rfl, hbs, ⟨rfl, hread⟩ | ⟨rfl, hread⟩⟩ := decode_eq_ok_iff.1 h
    · -- fields with their names
      have hlocal : ∀ f ∈ r.fields, Local (f.decode d') := fun f hf => (hfields f hf d').toLocal
      obtain ⟨ms, given, hms, hfold, hgiven⟩ := (keyed_eq_ok_iff hlocal).1 hread
      obtain ⟨front, rfl, hmore⟩ := hms.exists_front (local_item hlocal)
      refine ⟨bs ++ '{' :: front, by simp, fun more _ => ?_⟩
      refine decode_eq_ok_iff.2 ⟨d', bs, front ++ more, rfl, hbs, .inl ⟨by simp, ?_⟩⟩
      exact (keyed_eq_ok_iff hlocal).2 ⟨ms, given, hmore more, hfold, hgiven⟩
    · -- fields in their order
      have hspans : ∀ f ∈ r.fields, Spans (f.decode d') := fun f hf => hfields f hf d'
      obtain ⟨ts, changes, hts, hfilled, rfl⟩ := (positional_eq_ok_iff hspans).1 hread
      obtain ⟨front, rfl, hmore⟩ := hts.exists_front spans_valueText.toLocal
      refine ⟨bs ++ '[' :: front, by simp, fun more _ => ?_⟩
      refine decode_eq_ok_iff.2 ⟨d', bs, front ++ more, rfl, hbs, .inr ⟨by simp, ?_⟩⟩
      exact (positional_eq_ok_iff hspans).2 ⟨ts, changes, hmore more, hfilled, rfl⟩
  skims {s rest x} h := by
    obtain ⟨d', bs, t, rfl, hbs, ⟨rfl, hread⟩ | ⟨rfl, hread⟩⟩ := decode_eq_ok_iff.1 h
    · have hspans : ∀ f ∈ r.fields, Spans (f.decode d') := fun f hf => hfields f hf d'
      obtain ⟨⟨⟨y, given⟩, rest'⟩, hmembers, hdone⟩ := bind_eq_ok_iff.1 hread
      have hrest : rest' = rest := by
        dsimp only at hdone
        split at hdone
        · cases hdone
        · cases hdone
          rfl
      rw [← hrest]
      refine skim_object (fun hm => ?_) (skipBlanks_blanks_append hbs rfl t) hmembers
      obtain ⟨u, change, hu, hitem, -⟩ := (member_eq_ok_iff ..).1 hm
      exact ⟨u, hu, (spans_item hspans _).skims hitem⟩
    · have hspans : ∀ f ∈ r.fields, Spans (f.decode d') := fun f hf => hfields f hf d'
      obtain ⟨ts, changes, hts, -, -⟩ := (positional_eq_ok_iff hspans).1 hread
      exact skim_list spans_valueText.skims (skipBlanks_blanks_append hbs rfl t)
        ((listOf_eq_ok_iff spans_valueText.toLocal).2 hts)

end Record

end Decoders

end Linework.Json
