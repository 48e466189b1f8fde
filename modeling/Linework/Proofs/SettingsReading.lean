import Linework.Settings.Json
import Linework.Proofs.DisplayListRoundTrip
import Linework.Proofs.Json.Fields

/-!
# Settings are overridden field by field

A text of settings gives some of them, by name or in order, and the others are the default
ones. `Settings.Partial` is what a text gives, and `Settings.Partial.GivenIn` says what texts it
is given by: for each field that is there exactly one text of its name, and for each other
field none. What a text stands for is said by what it is as a value, down to the numbers, and a
glow or a pass is again a text of fields. Nothing here depends on how a reader goes about it.

`Settings.read_eq_ok_iff` says that reading accepts these texts and no others, so the answers
to single questions follow from it: whether order matters, what happens to a field given twice,
what a glow needs. That settings come back from the text that is written of them does not
follow, but is the same round trip as for display lists.
-/

namespace Linework

open Json

/-! ## Texts of values -/

namespace Json

/-- The value is this truth value. -/
def IsBool (v : Json) (b : Bool) : Prop := v = .bool b

/-- The text of a value that a relation asks for, and that is no container. -/
def ScalarText {α : Type} (R : Json → α → Prop) (t : List Char) (x : α) : Prop :=
  ∃ v, value 0 t = .ok (v, []) ∧ R v x

/-- The text of a list, element by element. -/
def ListText {α : Type} (IsItem : List Char → α → Prop) (t : List Char) (xs : List α) : Prop :=
  ∃ bs s ts, Blanks bs ∧ t = bs ++ '[' :: s ∧ Elements valueText true s ts [] ∧
    List.Forall₂ IsItem ts xs

theorem gives_word32_iff (d : Nat) (t : List Char) (n : UInt32) :
    Gives (word32 d) t n ↔ ScalarText IsWord t n := by
  show numeric .word Number.toWord 0 t = .ok (n, []) ↔ _
  rw [numeric_eq_ok_iff]
  refine exists_congr fun v => and_congr_right fun _ => Iff.trans ?_ toWord_eq_ok_iff
  constructor
  · rintro ⟨m, rfl, hm⟩
    exact hm
  · intro h
    cases v with
    | number m => exact ⟨m, rfl, h⟩
    | null | bool _ | text _ | list _ | object _ => cases h

theorem gives_single_iff (d : Nat) (t : List Char) (x : Float32) :
    Gives (single d) t x ↔ ScalarText IsSingle t x := by
  show numeric .single (fun n => .ok n.toSingle) 0 t = .ok (x, []) ↔ _
  rw [numeric_eq_ok_iff]
  simp only [Except.ok.injEq]
  rfl

theorem gives_boolean_iff (d : Nat) (t : List Char) (b : Bool) :
    Gives (boolean d) t b ↔ ScalarText IsBool t b :=
  boolean_eq_ok_iff (d := 0)

theorem gives_array_iff {α : Type} {item : Decoder α} {IsItem : List Char → α → Prop} {d : Nat}
    (hspans : ∀ d, Spans (item d)) (hitem : ∀ t x, Gives (item d) t x ↔ IsItem t x)
    (t : List Char) (xs : List α) :
    Gives (array item (d + 1)) t xs ↔ ListText IsItem t xs := by
  have hall : ∀ {ts : List (List Char)},
      List.Forall₂ (fun t x => item d t = .ok (x, [])) ts xs ↔ List.Forall₂ IsItem ts xs :=
    ⟨fun h => h.imp fun t x => (hitem t x).1, fun h => h.imp fun t x => (hitem t x).2⟩
  refine (array_eq_ok_iff fun d => (hspans d).toLocal).trans ?_
  constructor
  · rintro ⟨d', bs, s, hd, hbs, rfl, hxs⟩
    cases hd
    obtain ⟨ts, hts, hitems⟩ := (Elements.texts_iff (hspans d)).1 hxs
    exact ⟨bs, s, ts, hbs, rfl, hts, hall.1 hitems⟩
  · rintro ⟨bs, s, ts, hbs, rfl, hts, hitems⟩
    exact ⟨d, bs, s, rfl, hbs, rfl, (Elements.texts_iff (hspans d)).2 ⟨ts, hts, hall.2 hitems⟩⟩

end Json

/-! ## Passes -/

namespace Pass

/-- The fields of a pass. -/
def slots : record.Slots where
  slots := [
    ⟨"width", true, Float32, single, fun width p => { p with width }, (·.width),
      spans_numeric _ _, fun _ _ => rfl⟩,
    ⟨"brightness", true, Float32, single, fun brightness p => { p with brightness },
      (·.brightness), spans_numeric _ _, fun _ _ => rfl⟩]
  fields_eq := rfl
  distinct := by decide
  get_store_of_ne := by simp
  ext {p q} h := by
    have hwidth : p.width = q.width := h _ List.mem_cons_self
    have hbrightness : p.brightness = q.brightness :=
      h _ (List.mem_cons_of_mem _ List.mem_cons_self)
    cases p
    cases q
    cases hwidth
    cases hbrightness
    rfl

/-- The text of a pass: both of its fields are given. -/
def IsText (t : List Char) (p : Pass) : Prop :=
  ∃ ms, FieldTexts ["width", "brightness"] t ms [] ∧
    Holds ms "width" (ScalarText IsSingle) (some p.width) ∧
    Holds ms "brightness" (ScalarText IsSingle) (some p.brightness)

theorem gives_iff (d : Nat) (t : List Char) (p : Pass) :
    Gives (record.decode (d + 1)) t p ↔ IsText t p := by
  refine slots.decode_eq_ok_iff.trans (exists_congr fun ms => and_congr_right fun _ => ?_)
  refine List.forall_mem_cons.trans (and_congr ?_ (List.forall_mem_singleton.trans ?_))
  · exact exists_required_iff.trans (holds_congr (gives_single_iff d))
  · exact exists_required_iff.trans (holds_congr (gives_single_iff d))

theorem spans_decode (d : Nat) : Json.Spans (record.decode d) := slots.spans_decode d

end Pass

/-! ## Glow -/

namespace Glow

/-- The fields of a glow. -/
def slots : record.Slots where
  slots := [
    ⟨"passes", true, List Pass, array Pass.record.decode, fun passes g => { g with passes },
      (·.passes), Json.Spans.array Pass.spans_decode, fun _ _ => rfl⟩,
    ⟨"apply_to_all_shapes", false, Bool, boolean, fun everyShape g => { g with everyShape },
      (·.everyShape), spans_boolean, fun _ _ => rfl⟩]
  fields_eq := rfl
  distinct := by decide
  get_store_of_ne := by simp
  ext {g g'} h := by
    have hpasses : g.passes = g'.passes := h _ List.mem_cons_self
    have heveryShape : g.everyShape = g'.everyShape :=
      h _ (List.mem_cons_of_mem _ List.mem_cons_self)
    cases g
    cases g'
    cases hpasses
    cases heveryShape
    rfl

/-- The names of the fields of a glow. -/
def fieldNames : List String := ["passes", "apply_to_all_shapes"]

/-- **The text of a glow**: its passes are given, and it is for lines only unless it says
otherwise. -/
def IsText (t : List Char) (g : Glow) : Prop :=
  ∃ ms, FieldTexts fieldNames t ms [] ∧
    Holds ms "passes" (ListText Pass.IsText) (some g.passes) ∧
    ∃ everyShape, Holds ms "apply_to_all_shapes" (ScalarText IsBool) everyShape ∧
      g.everyShape = everyShape.getD false

theorem gives_iff (d : Nat) (t : List Char) (g : Glow) :
    Gives (record.decode (d + 3)) t g ↔ IsText t g := by
  refine slots.decode_eq_ok_iff.trans (exists_congr fun ms => and_congr_right fun _ => ?_)
  refine List.forall_mem_cons.trans (and_congr ?_ (List.forall_mem_singleton.trans ?_))
  · exact exists_required_iff.trans
      (holds_congr (gives_array_iff Pass.spans_decode (Pass.gives_iff d)))
  · exact exists_optional_iff.trans (exists_congr fun o =>
      and_congr_left fun _ => holds_congr (gives_boolean_iff (d + 2)))

theorem spans_decode (d : Nat) : Json.Spans (record.decode d) := slots.spans_decode d

end Glow

/-! ## Settings -/

namespace Settings

/-- Some of the settings. -/
structure Partial where
  /-- How many segments a circle has, if that is given. -/
  circleSegments : Option UInt32
  /-- How many segments an ellipse has, if that is given. -/
  ellipseSegments : Option UInt32
  /-- How glow looks, if that is given. -/
  glow : Option Glow

/-- The default settings, apart from those that are given. -/
def Partial.orDefault (p : Partial) : Settings where
  circleSegments := p.circleSegments.getD Settings.default.circleSegments
  ellipseSegments := p.ellipseSegments.getD Settings.default.ellipseSegments
  glow := p.glow.getD Settings.default.glow

/-- **What settings are given by texts with names**: each of them by the only text of its name,
and those left out by none. Texts of other names say nothing. -/
structure Partial.GivenIn (p : Partial) (ms : List (String × List Char)) : Prop where
  circleSegments : Holds ms "circle_segments" (ScalarText IsWord) p.circleSegments
  ellipseSegments : Holds ms "ellipse_segments" (ScalarText IsWord) p.ellipseSegments
  glow : Holds ms "glow" Glow.IsText p.glow

/-- The fields of settings. -/
def slots : record.Slots where
  slots := [
    ⟨"circle_segments", false, UInt32, word32, fun n s => { s with circleSegments := n },
      (·.circleSegments), spans_numeric _ _, fun _ _ => rfl⟩,
    ⟨"ellipse_segments", false, UInt32, word32, fun n s => { s with ellipseSegments := n },
      (·.ellipseSegments), spans_numeric _ _, fun _ _ => rfl⟩,
    ⟨"glow", false, Glow, Glow.record.decode, fun glow s => { s with glow },
      (·.glow), Glow.spans_decode, fun _ _ => rfl⟩]
  fields_eq := rfl
  distinct := by decide
  get_store_of_ne := by simp
  ext {s s'} h := by
    have hcircle : s.circleSegments = s'.circleSegments := h _ List.mem_cons_self
    have hellipse : s.ellipseSegments = s'.ellipseSegments :=
      h _ (List.mem_cons_of_mem _ List.mem_cons_self)
    have hglow : s.glow = s'.glow :=
      h _ (List.mem_cons_of_mem _ (List.mem_cons_of_mem _ List.mem_cons_self))
    cases s
    cases s'
    cases hcircle
    cases hellipse
    cases hglow
    rfl

/-- The names of the fields of settings. -/
def fieldNames : List String := ["circle_segments", "ellipse_segments", "glow"]

/-- Settings as they are given, field by field. -/
theorem decode_eq_ok_iff {d : Nat} {s rest : List Char} {settings : Settings} :
    record.decode (d + 4) s = .ok (settings, rest) ↔
      ∃ (ms : List (String × List Char)) (p : Partial), FieldTexts fieldNames s ms rest ∧
        p.GivenIn ms ∧ settings = p.orDefault := by
  refine slots.decode_eq_ok_iff.trans (exists_congr fun ms => Iff.trans ?_ exists_and_left.symm)
  refine and_congr_right fun _ => Iff.trans (List.forall_mem_cons.trans (and_congr
    exists_optional_iff (List.forall_mem_cons.trans (and_congr exists_optional_iff
      (List.forall_mem_singleton.trans exists_optional_iff))))) ?_
  have hword : ∀ {name : String} {o : Option UInt32},
      Holds ms name (Gives (word32 (d + 3))) o ↔ Holds ms name (ScalarText IsWord) o :=
    holds_congr (gives_word32_iff (d + 3))
  have hglow : ∀ {name : String} {o : Option Glow},
      Holds ms name (Gives (Glow.record.decode (d + 3))) o ↔ Holds ms name Glow.IsText o :=
    holds_congr (Glow.gives_iff d)
  constructor
  · rintro ⟨⟨circle, hc, hcircle⟩, ⟨ellipse, he, hellipse⟩, glow, hg, hglow'⟩
    refine ⟨⟨circle, ellipse, glow⟩, ⟨hword.1 hc, hword.1 he, hglow.1 hg⟩, ?_⟩
    cases settings
    cases hcircle
    cases hellipse
    cases hglow'
    rfl
  · rintro ⟨p, hp, rfl⟩
    exact ⟨⟨p.circleSegments, hword.2 hp.circleSegments, rfl⟩,
      ⟨p.ellipseSegments, hword.2 hp.ellipseSegments, rfl⟩, p.glow, hglow.2 hp.glow, rfl⟩

/-- **Settings are read as the default ones, overridden by what is given.** -/
theorem read_eq_ok_iff {text : List Char} {settings : Settings} :
    read text = .ok settings ↔
      ∃ (rest : List Char) (ms : List (String × List Char)) (p : Partial), Blanks rest ∧
        FieldTexts fieldNames text ms rest ∧ p.GivenIn ms ∧ settings = p.orDefault := by
  -- a number of a pass stands inside four containers, so the limit does not matter
  have hdeepest : deepest = 123 + 4 := rfl
  rw [read, document_eq_ok_iff, hdeepest]
  constructor
  · rintro ⟨rest, hread, hrest⟩
    obtain ⟨ms, p, hp⟩ := decode_eq_ok_iff.1 hread
    exact ⟨rest, ms, p, hrest, hp⟩
  · rintro ⟨rest, ms, p, hrest, hp⟩
    exact ⟨rest, decode_eq_ok_iff.2 ⟨ms, p, hp⟩, hrest⟩

/-- Settings that are not read are refused for some fault. -/
theorem exists_error_of_forall_ne {text : List Char} (h : ∀ settings, read text ≠ .ok settings) :
    ∃ fault, read text = .error fault := by
  cases hread : read text with
  | error fault => exact ⟨fault, rfl⟩
  | ok settings => exact absurd hread (h settings)

/-- **What is read is given by the texts that are there.** -/
theorem givenIn_of_read {text rest : List Char} {ms : List (String × List Char)}
    {settings : Settings} (htexts : FieldTexts fieldNames text ms rest)
    (h : read text = .ok settings) : ∃ p : Partial, p.GivenIn ms ∧ settings = p.orDefault := by
  obtain ⟨rest', ms', p, -, htexts', hp⟩ := read_eq_ok_iff.1 h
  obtain ⟨rfl, -⟩ := htexts.unique htexts'
  exact ⟨p, hp⟩

/-- Fields are given once. -/
theorem Partial.GivenIn.length_le {p : Partial} {ms : List (String × List Char)}
    (h : p.GivenIn ms) {name : String} (hname : name ∈ fieldNames) :
    (textsOf name ms).length ≤ 1 := by
  simp only [fieldNames, List.mem_cons, List.not_mem_nil, or_false] at hname
  rcases hname with rfl | rfl | rfl
  · exact h.circleSegments.length_le
  · exact h.ellipseSegments.length_le
  · exact h.glow.length_le

/-- What a text says of the glow in it. -/
theorem glow_of_read {text rest t : List Char} {ms glowMs : List (String × List Char)}
    {settings : Settings} (htexts : FieldTexts fieldNames text ms rest)
    (ht : textsOf "glow" ms = [t]) (hglow : FieldTexts Glow.fieldNames t glowMs [])
    (h : read text = .ok settings) :
    Holds glowMs "passes" (ListText Pass.IsText) (some settings.glow.passes) ∧
      ∃ everyShape, Holds glowMs "apply_to_all_shapes" (ScalarText IsBool) everyShape ∧
        settings.glow.everyShape = everyShape.getD false := by
  obtain ⟨p, hp, rfl⟩ := givenIn_of_read htexts h
  have hholds := hp.glow
  cases hg : p.glow with
  | none =>
    rw [hg, Holds, ht] at hholds
    cases hholds
  | some g =>
    rw [hg] at hholds
    obtain ⟨t', ht', glowMs', hglow', hpasses⟩ := hholds
    rw [ht] at ht'
    cases ht'
    obtain ⟨rfl, -⟩ := hglow.unique hglow'
    have hdefault : p.orDefault.glow = g := by rw [Partial.orDefault, hg]; rfl
    rw [hdefault]
    exact hpasses

end Settings

/-! ## Settings that come back -/

/-- The numbers of a pass. -/
def Pass.singles (p : Pass) : List Float32 := [p.width, p.brightness]

theorem Pass.makes_decode {p : Pass} (h : ∀ x ∈ p.singles, x.isFinite = true ∧ TextStable x) :
    Makes record.decode p.document (.ok p) := by
  have hwidth := h p.width List.mem_cons_self
  have hbrightness := h p.brightness (List.mem_cons_of_mem _ List.mem_cons_self)
  exact makes_record (r := record)
    [.of "width" true (makes_single_of_textStable hwidth.1 hwidth.2)
        fun width p => { p with width },
      .of "brightness" true (makes_single_of_textStable hbrightness.1 hbrightness.2)
        fun brightness p => { p with brightness }] rfl (by decide)

theorem Glow.makes_decode {g : Glow}
    (h : ∀ p ∈ g.passes, Makes Pass.record.decode p.document (.ok p)) :
    Makes record.decode g.document (.ok g) := by
  have hpasses : Makes (array Pass.record.decode) (.list (g.passes.map Pass.document))
      (.ok g.passes) := by
    have hall : g.passes.mapM Except.ok = (.ok g.passes : Except Fault (List Pass)) :=
      mapM_eq_ok_self fun _ _ => rfl
    rw [← hall]
    exact makes_array g.passes h
  exact makes_record (r := record)
    [.of "passes" true hpasses fun passes g => { g with passes },
      .of "apply_to_all_shapes" false (makes_boolean g.everyShape)
        fun everyShape g => { g with everyShape }] rfl (by decide)

namespace Settings

theorem makes_decode {s : Settings} (h : Makes Glow.record.decode s.glow.document (.ok s.glow)) :
    Makes record.decode s.document (.ok s) :=
  makes_record (r := record)
    [.of "circle_segments" false (makes_word32 s.circleSegments)
        fun n s => { s with circleSegments := n },
      .of "ellipse_segments" false (makes_word32 s.ellipseSegments)
        fun n s => { s with ellipseSegments := n },
      .of "glow" false h fun glow s => { s with glow }] rfl (by decide)

/-- The object of the settings, that of the glow, the list of its passes, and a pass. -/
theorem nesting_document_le (s : Settings) : s.document.nesting ≤ 4 := by
  have hpasses : Document.nestingOf (s.glow.passes.map Pass.document) ≤ 1 := by
    refine nestingOf_le fun d hd => ?_
    obtain ⟨p, -, rfl⟩ := List.mem_map.1 hd
    exact Nat.le_refl 1
  have hnesting : s.document.nesting = max 0 (max 0 (max
      (max (Document.nestingOf (s.glow.passes.map Pass.document) + 1) (max 0 0) + 1) 0)) + 1 :=
    rfl
  omega

/-- The numbers of settings that are not whole. -/
def singles (s : Settings) : List Float32 := s.glow.passes.flatMap Pass.singles

theorem read_write_of_textStable {s : Settings}
    (h : ∀ x ∈ s.singles, x.isFinite = true ∧ TextStable x) : read (write s) = .ok s := by
  refine (makes_decode (Glow.makes_decode fun p hp => ?_)).document_eq
    (Nat.le_trans (nesting_document_le s) (by decide))
  exact Pass.makes_decode fun x hx => h x (List.mem_flatMap.2 ⟨p, hp, hx⟩)

/-- **Reading overrides the default settings, field by field.**

A text is read if it is an object, or a list of some of the first fields, that gives each field
once and validly or not at all; names that are not those of a field may stand between, with any
values. What is read is the default settings with exactly the given fields replaced. A glow
needs its passes, and it is for lines only unless it says otherwise. A list is read as the
object that names its elements after the fields. A field given twice is refused, of settings or
of their glow. And settings come back from the text that is written of them, if their numbers
do. -/
theorem read_overrides_default :
    (∀ (text : List Char) (settings : Settings), read text = .ok settings ↔
      ∃ (rest : List Char) (ms : List (String × List Char)) (p : Partial), Blanks rest ∧
        FieldTexts fieldNames text ms rest ∧ p.GivenIn ms ∧ settings = p.orDefault) ∧
    (∀ (text rest t : List Char) (ms glowMs : List (String × List Char)),
      FieldTexts fieldNames text ms rest → textsOf "glow" ms = [t] →
      FieldTexts Glow.fieldNames t glowMs [] →
        (textsOf "passes" glowMs = [] → ∃ fault, read text = .error fault) ∧
        (textsOf "apply_to_all_shapes" glowMs = [] → ∀ settings, read text = .ok settings →
          settings.glow.everyShape = false) ∧
        ∀ name ∈ Glow.fieldNames, 2 ≤ (textsOf name glowMs).length →
          ∃ fault, read text = .error fault) ∧
    (∀ (bs bs' s s' rest rest' : List Char) (ts : List (List Char)),
      Blanks bs → Blanks bs' → Blanks rest → Blanks rest' →
      ts.length ≤ fieldNames.length → Elements valueText true s ts rest →
      Members (fun _ => valueText) true s' (fieldNames.zip ts) rest' →
        ∀ settings, read (bs ++ '[' :: s) = .ok settings ↔
          read (bs' ++ '{' :: s') = .ok settings) ∧
    (∀ (text rest : List Char) (ms : List (String × List Char)) (name : String),
      FieldTexts fieldNames text ms rest → name ∈ fieldNames →
      2 ≤ (textsOf name ms).length → ∃ fault, read text = .error fault) ∧
    ∀ settings : Settings, (∀ x ∈ settings.singles, x.isFinite = true ∧ TextStable x) →
      read (write settings) = .ok settings := by
  refine ⟨fun _ _ => read_eq_ok_iff, ?_, ?_, ?_, fun _ => read_write_of_textStable⟩
  · intro text rest t ms glowMs htexts ht hglow
    refine ⟨fun hnone => exists_error_of_forall_ne fun settings hread => ?_,
      fun hnone settings hread => ?_,
      fun name hname htwice => exists_error_of_forall_ne fun settings hread => ?_⟩
    · obtain ⟨⟨t', ht', -⟩, -⟩ := glow_of_read htexts ht hglow hread
      rw [hnone] at ht'
      cases ht'
    · obtain ⟨-, everyShape, hholds, heq⟩ := glow_of_read htexts ht hglow hread
      rw [heq, hholds.eq_none_iff.2 (textsOf_eq_nil_iff.1 hnone)]
      rfl
    · obtain ⟨hpasses, everyShape, hholds, -⟩ := glow_of_read htexts ht hglow hread
      refine absurd htwice (Nat.not_le.2 (Nat.lt_succ_of_le ?_))
      simp only [Glow.fieldNames, List.mem_cons, List.not_mem_nil, or_false] at hname
      rcases hname with rfl | rfl
      · exact hpasses.length_le
      · exact hholds.length_le
  · intro bs bs' s s' rest rest' ts hbs hbs' hrest hrest' hlength hts hms settings
    have hlist : FieldTexts fieldNames (bs ++ '[' :: s) (fieldNames.zip ts) rest :=
      .ordered hbs hts hlength
    have hobject : FieldTexts fieldNames (bs' ++ '{' :: s') (fieldNames.zip ts) rest' :=
      .named hbs' hms
    constructor
    · intro h
      obtain ⟨p, hp, heq⟩ := givenIn_of_read hlist h
      exact read_eq_ok_iff.2 ⟨rest', _, p, hrest', hobject, hp, heq⟩
    · intro h
      obtain ⟨p, hp, heq⟩ := givenIn_of_read hobject h
      exact read_eq_ok_iff.2 ⟨rest, _, p, hrest, hlist, hp, heq⟩
  · intro text rest ms name htexts hname htwice
    refine exists_error_of_forall_ne fun settings hread => ?_
    obtain ⟨p, hp, -⟩ := givenIn_of_read htexts hread
    exact absurd (hp.length_le hname) (Nat.not_le.2 htwice)

/-- The segments of ellipses are left out here, and something else stands between the others.
Without passes there is no glow, and two are refused. A list of one is an object with the first
field. The default settings come back. -/
theorem read_overrides_default_in_texts :
    let glow := "\x7b\"passes\":[[2,0.5]]\x7d".toList
    let body := "\"note\":[null],\"glow\":".toList ++ glow ++ ",\"circle_segments\": 12\x7d ".toList
    let ms := [("note", "[null]".toList), ("glow", glow), ("circle_segments", " 12".toList)]
    let p : Partial := ⟨some 12, none, some ⟨[⟨2, 0.5⟩], false⟩⟩
    (FieldTexts fieldNames ('{' :: body) ms [' '] ∧ p.GivenIn ms ∧
        read ('{' :: body) = .ok p.orDefault ∧ p.orDefault = ⟨12, 40, ⟨[⟨2, 0.5⟩], false⟩⟩) ∧
      (∃ fault, read ('{' :: "\"glow\":\x7b\x7d\x7d".toList) = .error fault) ∧
      (read ('[' :: "12]".toList) = .ok ⟨12, 40, .default⟩ ↔
        read ('{' :: "\"circle_segments\":12\x7d".toList) = .ok ⟨12, 40, .default⟩) ∧
      (∃ fault, read ('{' :: "\"glow\":1,\"note\":2,\"glow\":3\x7d".toList) = .error fault) ∧
      (∀ x ∈ Settings.default.singles, x.isFinite = true ∧ TextStable x) ∧
      read (write .default) = .ok .default := by
  intro glow body ms p
  have hbody : FieldTexts fieldNames ('{' :: body) ms [' '] := .of_members (by decide +kernel)
  have hcircle : Gives (word32 0) " 12".toList 12 := toOption_eq_some_iff.1 (by decide +kernel)
  have hglow : Gives (Glow.record.decode 3) glow ⟨[⟨2, 0.5⟩], false⟩ :=
    toOption_eq_some_iff.1 (by decide +kernel)
  have hp : p.GivenIn ms :=
    ⟨⟨_, rfl, (gives_word32_iff 0 _ _).1 hcircle⟩, rfl, ⟨_, rfl, (Glow.gives_iff 0 _ _).1 hglow⟩⟩
  have hblank : Blanks [' '] := List.forall_mem_singleton.2 rfl
  have hbare : FieldTexts fieldNames ('{' :: "\"glow\":\x7b\x7d\x7d".toList)
      [("glow", "\x7b\x7d".toList)] [] := .of_members (by decide +kernel)
  have hempty : FieldTexts Glow.fieldNames "\x7b\x7d".toList [] [] :=
    .of_members (s := "\x7d".toList) (by decide +kernel)
  have htwice : FieldTexts fieldNames ('{' :: "\"glow\":1,\"note\":2,\"glow\":3\x7d".toList)
      [("glow", ['1']), ("note", ['2']), ("glow", ['3'])] [] := .of_members (by decide +kernel)
  have hlist : Elements valueText true "12]".toList ["12".toList] [] :=
    (listOf_eq_ok_iff spans_valueText.toLocal).1 (toOption_eq_some_iff.1 (by decide +kernel))
  have hloop : (members stringText (collect fun _ => valueText) [' ', ' '] true []
      "\"circle_segments\":12\x7d".toList).toOption =
        some ([("circle_segments", "12".toList)], []) := by decide +kernel
  have hobject := (members_collect_iff.1 (toOption_eq_some_iff.1 hloop)).1
  have hstable : ∀ x ∈ Settings.default.singles, x.isFinite = true ∧ TextStable x := by
    have hread : ∀ x ∈ Settings.default.singles, x.isFinite = true ∧
        (Json.document single (singleLayout.single x)).toOption = some x ∧ (x == x) = true := by
      decide +kernel
    intro x hx
    obtain ⟨hfinite, hsome, hequal⟩ := hread x hx
    exact ⟨hfinite, x, toOption_eq_some_iff.1 hsome, hequal⟩
  obtain ⟨hiff, hglows, horder, honce, hback⟩ := read_overrides_default
  refine ⟨⟨hbody, hp, (hiff _ _).2 ⟨_, ms, p, hblank, hbody, hp, rfl⟩, rfl⟩, ?_, ?_, ?_, hstable,
    hback _ hstable⟩
  · exact (hglows _ _ _ _ _ hbare rfl hempty).1 rfl
  · exact horder [] [] _ _ [] [] _ blanks_nil blanks_nil blanks_nil blanks_nil (by decide) hlist
      hobject _
  · exact honce _ _ _ "glow" htwice (by decide) (by decide)

end Settings

end Linework
