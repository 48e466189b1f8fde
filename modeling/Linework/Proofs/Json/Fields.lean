import Mathlib.Data.List.Nodup
import Linework.Proofs.Json.Spans

/-!
# Records field by field

A record is read from an object or from a list, and either way its fields come as texts with a
name each: the object has the names, and in a list they go by their order. `FieldTexts` is that
common form. It does not ask what the texts mean.

What is read is then said field by field, without going through the text again. A field is
given if exactly one text has its name and is read by itself, and it is left out if no text has
its name; `Holds` says which. A record is read if each of its fields is given or left out, and
it is the template with the given ones replaced: `Record.Slots.decode_eq_ok_iff`. For that the
fields have to be those of a record indeed: what is stored in one is found there, stays there
while others are stored, and all of them together are the record. `Record.Slots` has these
facts about a record's fields.
-/

namespace Linework.Json

/-! ## Names and texts -/

/-- The texts of a name. -/
def textsOf (name : String) (ms : List (String × List Char)) : List (List Char) :=
  (ms.filter (·.1 == name)).map (·.2)

section Texts

variable {name key : String} {t : List Char} {ms : List (String × List Char)}

theorem textsOf_cons_self : textsOf name ((name, t) :: ms) = t :: textsOf name ms := by
  simp [textsOf]

theorem textsOf_cons_of_ne (h : key ≠ name) :
    textsOf name ((key, t) :: ms) = textsOf name ms := by
  rw [textsOf, List.filter_cons_of_neg (by simpa using h)]
  rfl

theorem textsOf_eq_nil_iff : textsOf name ms = [] ↔ name ∉ ms.map (·.1) := by
  rw [textsOf, List.map_eq_nil_iff, List.filter_eq_nil_iff, List.mem_map]
  simp only [beq_iff_eq]
  exact ⟨fun h ⟨m, hm, hname⟩ => h m hm hname, fun h m hm hname => h ⟨m, hm, hname⟩⟩

end Texts

/-- A text that is read to its end. -/
def Gives {β : Type} (item : Reader β) (t : List Char) (b : β) : Prop := item t = .ok (b, [])

theorem Gives.unique {β : Type} {item : Reader β} {t : List Char} {b b' : β}
    (h : Gives item t b) (h' : Gives item t b') : b = b' := by
  rw [Gives, h] at h'
  cases h'
  rfl

/-- **What texts say under a name**: nothing, if no text has that name, or what the only text
of that name gives. -/
def Holds {β : Type} (ms : List (String × List Char)) (name : String)
    (G : List Char → β → Prop) : Option β → Prop
  | none => textsOf name ms = []
  | some b => ∃ t, textsOf name ms = [t] ∧ G t b

section Holds

variable {β : Type} {ms ms' : List (String × List Char)} {name : String}
  {G G' : List Char → β → Prop} {o o' : Option β}

/-- Only the texts of the name matter. -/
theorem holds_congr_texts (h : textsOf name ms = textsOf name ms') :
    Holds ms name G o ↔ Holds ms' name G o := by
  cases o with
  | none => rw [Holds, Holds, h]
  | some b => rw [Holds, Holds, h]

theorem holds_congr (h : ∀ t b, G t b ↔ G' t b) :
    Holds ms name G o ↔ Holds ms name G' o := by
  cases o with
  | none => rfl
  | some b => exact exists_congr fun t => and_congr_right fun _ => h t b

theorem Holds.eq_none_iff (h : Holds ms name G o) : o = none ↔ name ∉ ms.map (·.1) := by
  rw [← textsOf_eq_nil_iff]
  cases o with
  | none => exact iff_of_true rfl h
  | some b =>
    obtain ⟨t, ht, -⟩ := h
    rw [ht]
    exact iff_of_false nofun nofun

theorem Holds.length_le (h : Holds ms name G o) : (textsOf name ms).length ≤ 1 := by
  cases o with
  | none =>
    rw [show textsOf name ms = [] from h]
    exact Nat.zero_le 1
  | some b =>
    obtain ⟨t, ht, -⟩ := h
    rw [ht]
    exact Nat.le_refl 1

/-- Texts say one thing under a name, if each text does. -/
theorem Holds.unique (h : Holds ms name G o) (h' : Holds ms name G o')
    (hG : ∀ {t b b'}, G t b → G t b' → b = b') : o = o' := by
  cases o with
  | none => exact (h'.eq_none_iff.2 (h.eq_none_iff.1 rfl)).symm
  | some b =>
    cases o' with
    | none => exact h.eq_none_iff.2 (h'.eq_none_iff.1 rfl)
    | some b' =>
      obtain ⟨t, ht, hb⟩ := h
      obtain ⟨t', ht', hb'⟩ := h'
      rw [ht] at ht'
      cases ht'
      rw [hG hb hb']

/-- A field that has to be given is what its text says. -/
theorem exists_required_iff {x y : β} :
    (∃ o, Holds ms name G o ∧ (true = true → o ≠ none) ∧ x = o.getD y) ↔
      Holds ms name G (some x) := by
  constructor
  · rintro ⟨o, ho, hsome, rfl⟩
    cases o with
    | none => exact absurd rfl (hsome rfl)
    | some b => exact ho
  · intro h
    exact ⟨some x, h, nofun, rfl⟩

/-- A field that may be left out is what its text says, or what it is in the template. -/
theorem exists_optional_iff {x y : β} :
    (∃ o, Holds ms name G o ∧ (false = true → o ≠ none) ∧ x = o.getD y) ↔
      ∃ o, Holds ms name G o ∧ x = o.getD y := by
  simp only [Bool.false_eq_true, false_implies, true_and]

end Holds

/-- **The fields of a record as texts**: those of the members of an object, or those in a list,
which are for the first of the fields. -/
inductive FieldTexts (names : List String) :
    List Char → List (String × List Char) → List Char → Prop where
  /-- Fields with their names. -/
  | named {bs s rest : List Char} {ms : List (String × List Char)} :
    Blanks bs → Members (fun _ => valueText) true s ms rest →
    FieldTexts names (bs ++ '{' :: s) ms rest
  /-- Fields in their order. -/
  | ordered {bs s rest : List Char} {ts : List (List Char)} :
    Blanks bs → Elements valueText true s ts rest → ts.length ≤ names.length →
    FieldTexts names (bs ++ '[' :: s) (names.zip ts) rest

section FieldTexts

variable {names : List String} {s rest rest' : List Char} {ms ms' : List (String × List Char)}

theorem FieldTexts.opens (h : FieldTexts names s ms rest) :
    (∃ u, skipBlanks s = '{' :: u ∧ Members (fun _ => valueText) true u ms rest) ∨
      ∃ u ts, skipBlanks s = '[' :: u ∧ Elements valueText true u ts rest ∧
        ms = names.zip ts := by
  cases h with
  | named hbs hms => exact .inl ⟨_, skipBlanks_blanks_append hbs rfl _, hms⟩
  | ordered hbs hts _ => exact .inr ⟨_, _, skipBlanks_blanks_append hbs rfl _, hts, rfl⟩

/-- The fields of an object are found by going through its members. -/
theorem FieldTexts.of_members
    (h : (members stringText (collect fun _ => valueText) s true [] s).toOption =
      some (ms, rest)) : FieldTexts names ('{' :: s) ms rest :=
  .named blanks_nil (members_collect_iff.1 (toOption_eq_some_iff.1 h)).1

/-- **A text has its fields in one way at most.** -/
theorem FieldTexts.unique (h : FieldTexts names s ms rest) (h' : FieldTexts names s ms' rest') :
    ms = ms' ∧ rest = rest' := by
  rcases h.opens with ⟨u, hs, hms⟩ | ⟨u, ts, hs, hts, rfl⟩ <;>
    rcases h'.opens with ⟨u', hs', hms'⟩ | ⟨u', ts', hs', hts', rfl⟩ <;>
    rw [hs] at hs' <;> cases hs'
  · exact hms.unique hms'
  · have hlist := (listOf_eq_ok_iff spans_valueText.toLocal).2 hts
    rw [(listOf_eq_ok_iff spans_valueText.toLocal).2 hts'] at hlist
    cases hlist
    exact ⟨rfl, rfl⟩

end FieldTexts

/-! ## Texts that override a record -/

/-- A text that gives a field, as a change to the record. -/
abbrev RecordField.Gives {α : Type} (d : Nat) (f : RecordField α) :
    List Char → (α → α) → Prop :=
  Json.Gives (f.decode d)

namespace Record

variable {α : Type} {r : Record α} {d : Nat}

/-- What was read of the members takes a record where their texts take it. -/
theorem foldlM_override_iff {ms : List (String × List Char)} {xs : List (String × Option (α → α))}
    (h : List.Forall₂ (fun m x => m.1 = x.1 ∧ r.item d m.1 m.2 = .ok (x.2, [])) ms xs)
    {state state' : α × List String} :
    xs.foldlM (fun state x => override x.1 x.2 state) state = some state' ↔
      r.Overrides (RecordField.Gives d) ms state state' := by
  induction h generalizing state with
  | nil =>
    rw [overrides_nil_iff, eq_comm]
    exact Option.some_inj
  | @cons m x ms xs hx _ ih =>
    obtain ⟨key, t⟩ := m
    obtain ⟨key', change⟩ := x
    obtain ⟨rfl, hread⟩ := hx
    cases hkey : r.fields.find? (·.name == key) with
    | none =>
      obtain ⟨-, rfl⟩ := (item_of_none hkey).1 hread
      rw [overrides_other_iff hkey, ← ih]
      rfl
    | some f =>
      obtain ⟨change, hchange, rfl⟩ := (item_of_some hkey).1 hread
      rw [overrides_field_iff hkey, List.foldlM_cons, override]
      by_cases hgiven : key ∈ state.2
      · rw [if_pos hgiven]
        refine ⟨fun h => ?_, fun h => absurd hgiven h.1⟩
        cases h
      · rw [if_neg hgiven]
        refine ih.trans ⟨fun h => ⟨hgiven, change, hchange, h⟩, ?_⟩
        rintro ⟨-, change', hchange', h⟩
        obtain rfl := Gives.unique hchange hchange'
        exact h

/-- Members that override a record can be read. -/
theorem exists_items {ms : List (String × List Char)} {state state' : α × List String}
    (h : r.Overrides (RecordField.Gives d) ms state state') (hskim : ∀ m ∈ ms, skim m.2 = .ok []) :
    ∃ xs : List (String × Option (α → α)),
      List.Forall₂ (fun m x => m.1 = x.1 ∧ r.item d m.1 m.2 = .ok (x.2, [])) ms xs := by
  induction h with
  | nil => exact ⟨[], .nil⟩
  | @other key t ms _ _ hkey _ ih =>
    rw [List.forall_mem_cons] at hskim
    obtain ⟨xs, hxs⟩ := ih hskim.2
    exact ⟨(key, none) :: xs, .cons ⟨rfl, (item_of_none hkey).2 ⟨hskim.1, rfl⟩⟩ hxs⟩
  | @field key t ms _ _ f change hkey _ hchange _ ih =>
    rw [List.forall_mem_cons] at hskim
    obtain ⟨xs, hxs⟩ := ih hskim.2
    exact ⟨(key, some change) :: xs,
      .cons ⟨rfl, (item_of_some hkey).2 ⟨change, hchange, rfl⟩⟩ hxs⟩

/-- Which fields have been given in the end. -/
theorem mem_given_iff {ms : List (String × List Char)} {state state' : α × List String}
    (h : r.Overrides (RecordField.Gives d) ms state state') {f : RecordField α}
    (hf : f ∈ r.fields) :
    f.name ∈ state'.2 ↔ f.name ∈ state.2 ∨ f.name ∈ ms.map (·.1) := by
  induction h with
  | nil => simp
  | @other key t ms state state' hkey _ ih =>
    have hne : f.name ≠ key := by simpa using List.find?_eq_none.1 hkey f hf
    rw [ih, List.map_cons, List.mem_cons, or_iff_right hne]
  | field _ _ _ _ ih =>
    rw [ih, List.map_cons, List.mem_cons, List.mem_cons]
    exact or_assoc.trans or_left_comm

/-- **An object is read as a record by overriding its template**, each member by itself. -/
theorem keyed_texts_iff (hfields : ∀ f ∈ r.fields, Spans (f.decode d)) {s rest : List Char}
    {x : α} :
    r.keyed d s = .ok (x, rest) ↔
      ∃ ms, Members (fun _ => valueText) true s ms rest ∧
        (∃ given, r.Overrides (RecordField.Gives d) ms (r.template, []) (x, given)) ∧
        ∀ f ∈ r.fields, f.required = true → f.name ∈ ms.map (·.1) := by
  rw [keyed_eq_ok_iff fun f hf => (hfields f hf).toLocal]
  constructor
  · rintro ⟨xs, given, hxs, hfold, hgiven⟩
    obtain ⟨ms, hms, hall⟩ := (Members.texts_iff (spans_item hfields)).1 hxs
    have hover := (foldlM_override_iff hall).1 hfold
    refine ⟨ms, hms, ⟨given, hover⟩, fun f hf hrequired => ?_⟩
    exact ((mem_given_iff hover hf).1 (hgiven f hf hrequired)).resolve_left List.not_mem_nil
  · rintro ⟨ms, hms, ⟨given, hover⟩, hgiven⟩
    have hskim : ∀ m ∈ ms, skim m.2 = .ok [] := by
      rintro ⟨key, t⟩ hm
      obtain ⟨s', rest', ht⟩ := hms.exists_of_mem hm
      exact skim_of_valueText ht
    obtain ⟨xs, hall⟩ := exists_items hover hskim
    refine ⟨xs, given, (Members.texts_iff (spans_item hfields)).2 ⟨ms, hms, hall⟩,
      (foldlM_override_iff hall).2 hover, fun f hf hrequired => ?_⟩
    exact (mem_given_iff hover hf).2 (.inr (hgiven f hf hrequired))

/-- Fields in their order override a record as members of their names would. -/
theorem filled_iff {fields : List (RecordField α)} {ts : List (List Char)} {x y : α}
    {given : List String}
    (hfind : ∀ f ∈ fields, r.fields.find? (·.name == f.name) = some f)
    (hnames : (fields.map (·.name)).Nodup) (hnew : ∀ f ∈ fields, f.name ∉ given) :
    (∃ changes, Filled d fields ts changes ∧
        y = changes.foldl (fun x change => change x) x) ↔
      ts.length ≤ fields.length ∧
        (∃ given', r.Overrides (RecordField.Gives d) ((fields.map (·.name)).zip ts)
          (x, given) (y, given')) ∧
        ∀ f ∈ fields, f.required = true →
          f.name ∈ ((fields.map (·.name)).zip ts).map (·.1) := by
  induction ts generalizing fields x given with
  | nil =>
    rw [List.zip_nil_right]
    constructor
    · rintro ⟨changes, hfilled, rfl⟩
      cases hfilled with
      | nil hnone =>
        refine ⟨Nat.zero_le _, ⟨given, .nil _⟩, fun f hf hrequired => ?_⟩
        rw [hnone f hf] at hrequired
        cases hrequired
    · rintro ⟨-, ⟨given', hover⟩, hgiven⟩
      cases overrides_nil_iff.1 hover
      refine ⟨[], .nil fun f hf => ?_, rfl⟩
      exact Bool.eq_false_iff.2 fun hrequired => absurd (hgiven f hf hrequired) List.not_mem_nil
  | cons t ts ih =>
    cases fields with
    | nil =>
      constructor
      · rintro ⟨changes, hfilled, -⟩
        cases hfilled
      · rintro ⟨hlength, -⟩
        exact absurd hlength (Nat.not_succ_le_zero _)
    | cons f fields =>
      rw [List.forall_mem_cons] at hfind hnew
      rw [List.map_cons, List.nodup_cons] at hnames
      have hne : ∀ f' ∈ fields, f'.name ≠ f.name :=
        fun f' hf' h => hnames.1 (h ▸ List.mem_map_of_mem hf')
      -- names are distinct, so a field in its order is never one given before
      have hnew' : ∀ f' ∈ fields, f'.name ∉ f.name :: given := fun f' hf' h =>
        (List.mem_cons.1 h).elim (hne f' hf') (hnew.2 f' hf')
      have ih := fun {x} => @ih fields x (f.name :: given) hfind.2 hnames.2 hnew'
      rw [List.map_cons, List.zip_cons_cons]
      constructor
      · rintro ⟨changes, hfilled, rfl⟩
        cases hfilled with
        | @cons _ _ _ _ change changes hchange hfilled =>
          obtain ⟨hlength, ⟨given', hover⟩, hgiven⟩ := ih.1 ⟨changes, hfilled, rfl⟩
          refine ⟨Nat.succ_le_succ hlength,
            ⟨given', .field hfind.1 hnew.1 hchange hover⟩, ?_⟩
          rw [List.map_cons, List.forall_mem_cons]
          exact ⟨fun _ => List.mem_cons_self,
            fun f' hf' h => List.mem_cons_of_mem _ (hgiven f' hf' h)⟩
      · rintro ⟨hlength, ⟨given', hover⟩, hgiven⟩
        obtain ⟨-, change, hchange, hover⟩ := (overrides_field_iff hfind.1).1 hover
        rw [List.map_cons, List.forall_mem_cons] at hgiven
        obtain ⟨changes, hfilled, rfl⟩ := ih.2 ⟨Nat.le_of_succ_le_succ hlength, ⟨given', hover⟩,
          fun f' hf' h => (List.mem_cons.1 (hgiven.2 f' hf' h)).resolve_left (hne f' hf')⟩
        exact ⟨change :: changes, .cons hchange hfilled, rfl⟩

/-- **A record is read by overriding its template**, whether its fields have names or an
order. -/
theorem decode_texts_iff (hfields : ∀ f ∈ r.fields, ∀ d, Spans (f.decode d))
    (hnames : (r.fields.map (·.name)).Nodup) {s rest : List Char} {x : α} :
    r.decode (d + 1) s = .ok (x, rest) ↔
      ∃ ms, FieldTexts (r.fields.map (·.name)) s ms rest ∧
        (∃ given, r.Overrides (RecordField.Gives d) ms (r.template, []) (x, given)) ∧
        ∀ f ∈ r.fields, f.required = true → f.name ∈ ms.map (·.1) := by
  have hspans : ∀ f ∈ r.fields, Spans (f.decode d) := fun f hf => hfields f hf d
  have hfilled := fun {ts} => @filled_iff α r d r.fields ts r.template x []
    (fun f hf => find?_name_of_mem hnames hf) hnames fun _ _ => List.not_mem_nil
  rw [decode_eq_ok_iff]
  constructor
  · rintro ⟨d', bs, t, hd, hbs, ⟨rfl, hread⟩ | ⟨rfl, hread⟩⟩
    · cases hd
      obtain ⟨ms, hms, hover⟩ := (keyed_texts_iff hspans).1 hread
      exact ⟨ms, .named hbs hms, hover⟩
    · cases hd
      obtain ⟨ts, changes, hts, hread⟩ := (positional_eq_ok_iff hspans).1 hread
      obtain ⟨hlength, hover⟩ := hfilled.1 ⟨changes, hread⟩
      exact ⟨_, .ordered hbs hts (by rwa [List.length_map]), hover⟩
  · rintro ⟨ms, htexts, hover⟩
    cases htexts with
    | named hbs hms =>
      exact ⟨d, _, _, rfl, hbs, .inl ⟨rfl, (keyed_texts_iff hspans).2 ⟨ms, hms, hover⟩⟩⟩
    | ordered hbs hts hlength =>
      rw [List.length_map] at hlength
      obtain ⟨changes, hread⟩ := hfilled.2 ⟨hlength, hover⟩
      exact ⟨d, _, _, rfl, hbs,
        .inr ⟨rfl, (positional_eq_ok_iff hspans).2 ⟨_, changes, hts, hread⟩⟩⟩

end Record

/-! ## Fields that hold values -/

/-- **A field by the value that it holds.** What is stored is found there. -/
structure Slot (α : Type) where
  /-- The name of the field. -/
  name : String
  /-- Whether it has to be given. -/
  required : Bool
  /-- What it holds. -/
  Value : Type
  /-- Reads such a value. -/
  decode : Decoder Value
  /-- The record with another value. -/
  store : Value → α → α
  /-- The value in a record. -/
  get : α → Value
  spans : ∀ d, Spans (decode d)
  get_store : ∀ v x, get (store v x) = v

namespace Slot

variable {α : Type} (p : Slot α)

/-- The field as it is read. -/
def field : RecordField α := .of p.name p.required p.decode p.store

theorem field_decode_eq_ok_iff {d : Nat} {s rest : List Char} {change : α → α} :
    p.field.decode d s = .ok (change, rest) ↔
      ∃ v, p.decode d s = .ok (v, rest) ∧ change = p.store v := by
  constructor
  · intro h
    obtain ⟨⟨v, rest'⟩, hv, h⟩ := bind_eq_ok_iff.1 h
    cases h
    exact ⟨v, hv, rfl⟩
  · rintro ⟨v, hv, rfl⟩
    exact bind_eq_ok_iff.2 ⟨(v, rest), hv, rfl⟩

end Slot

/-- **A record as the values that its fields hold**: each keeps its value while others are
stored, and the record is determined by all of them. -/
structure Record.Slots {α : Type} (r : Record α) where
  /-- The fields. -/
  slots : List (Slot α)
  fields_eq : r.fields = slots.map Slot.field
  distinct : (slots.map (·.name)).Nodup
  get_store_of_ne : ∀ p ∈ slots, ∀ q ∈ slots, p.name ≠ q.name →
    ∀ v x, p.get (q.store v x) = p.get x
  ext : ∀ {x y : α}, (∀ p ∈ slots, p.get x = p.get y) → x = y

namespace Record.Slots

variable {α : Type} {r : Record α} (l : r.Slots) {d : Nat}

/-- The names of the fields. -/
def names : List String := l.slots.map (·.name)

theorem names_eq : r.fields.map (·.name) = l.names := by
  rw [l.fields_eq, List.map_map]
  rfl

theorem find?_eq_some {p : Slot α} (hp : p ∈ l.slots) :
    r.fields.find? (·.name == p.name) = some p.field := by
  refine find?_name_of_mem (by rw [l.names_eq]; exact l.distinct) (f := p.field) ?_
  rw [l.fields_eq]
  exact List.mem_map_of_mem hp

theorem exists_of_find? {key : String} {f : RecordField α}
    (h : r.fields.find? (·.name == key) = some f) :
    ∃ p ∈ l.slots, p.name = key ∧ f = p.field := by
  have hmem := List.mem_of_find?_eq_some h
  rw [l.fields_eq] at hmem
  obtain ⟨p, hp, rfl⟩ := List.mem_map.1 hmem
  have hname : p.field.name = key := by simpa using List.find?_some h
  exact ⟨p, hp, hname, rfl⟩

theorem ne_of_find?_eq_none {key : String} (h : r.fields.find? (·.name == key) = none)
    {p : Slot α} (hp : p ∈ l.slots) : key ≠ p.name := by
  rintro rfl
  rw [l.find?_eq_some hp] at h
  cases h

include l in
theorem spans_fields : ∀ f ∈ r.fields, ∀ d, Spans (f.decode d) := by
  rw [l.fields_eq, List.forall_mem_map]
  exact fun p _ d => (p.spans d).map p.store

include l in
theorem spans_decode (d : Nat) : Spans (r.decode d) := Record.spans_decode l.spans_fields d

/-- Names determine fields. -/
theorem eq_of_name_eq {p q : Slot α} (hp : p ∈ l.slots) (hq : q ∈ l.slots)
    (h : p.name = q.name) : p = q :=
  List.inj_on_of_nodup_map l.distinct hp hq h

/-- A field that was given before is not given again, and keeps its value. -/
theorem get_of_given {p : Slot α} (hp : p ∈ l.slots) {ms : List (String × List Char)}
    {state state' : α × List String} (h : r.Overrides (RecordField.Gives d) ms state state')
    (hgiven : p.name ∈ state.2) : textsOf p.name ms = [] ∧ p.get state'.1 = p.get state.1 := by
  induction h with
  | nil => exact ⟨rfl, rfl⟩
  | other hkey _ ih =>
    rw [textsOf_cons_of_ne (l.ne_of_find?_eq_none hkey hp)]
    exact ih hgiven
  | @field key t ms state state' f change hkey hnew hchange _ ih =>
    obtain ⟨q, hq, rfl, rfl⟩ := l.exists_of_find? hkey
    obtain ⟨v, -, rfl⟩ := q.field_decode_eq_ok_iff.1 hchange
    have hne : p.name ≠ q.name := fun h => hnew (h ▸ hgiven)
    obtain ⟨htexts, hget⟩ := ih (List.mem_cons_of_mem _ hgiven)
    rw [textsOf_cons_of_ne hne.symm, hget]
    exact ⟨htexts, l.get_store_of_ne p hp q hq hne v state.1⟩

/-- **A field in the end** is what the texts say under its name, or what it was. -/
theorem get_of_overrides {p : Slot α} (hp : p ∈ l.slots) {ms : List (String × List Char)}
    {state state' : α × List String} (h : r.Overrides (RecordField.Gives d) ms state state')
    (hnew : p.name ∉ state.2) :
    ∃ o, Holds ms p.name (Gives (p.decode d)) o ∧ p.get state'.1 = o.getD (p.get state.1) := by
  induction h with
  | nil => exact ⟨none, rfl, rfl⟩
  | other hkey _ ih =>
    obtain ⟨o, ho, hget⟩ := ih hnew
    exact ⟨o, (holds_congr_texts (textsOf_cons_of_ne (l.ne_of_find?_eq_none hkey hp))).2 ho, hget⟩
  | @field key t ms state state' f change hkey _ hchange hms ih =>
    obtain ⟨q, hq, rfl, rfl⟩ := l.exists_of_find? hkey
    obtain ⟨v, hv, rfl⟩ := q.field_decode_eq_ok_iff.1 hchange
    by_cases hname : p.name = q.name
    · -- this is its text, and whatever comes behind it leaves the field alone
      obtain rfl := l.eq_of_name_eq hp hq hname
      obtain ⟨htexts, hget⟩ := l.get_of_given hp hms List.mem_cons_self
      refine ⟨some v, ⟨t, by rw [textsOf_cons_self, htexts], hv⟩, ?_⟩
      rw [hget, p.get_store]
      rfl
    · obtain ⟨o, ho, hget⟩ := ih fun h => (List.mem_cons.1 h).elim hname hnew
      refine ⟨o, (holds_congr_texts (textsOf_cons_of_ne (Ne.symm hname))).2 ho, ?_⟩
      rw [hget, l.get_store_of_ne p hp q hq hname]

/-- Texts override a record if they say something or nothing under the name of each field, and
nothing where it was given before. -/
theorem exists_overrides {ms : List (String × List Char)} {state : α × List String}
    (h : ∀ p ∈ l.slots,
      ∃ o, Holds ms p.name (Gives (p.decode d)) o ∧ (p.name ∈ state.2 → o = none)) :
    ∃ state', r.Overrides (RecordField.Gives d) ms state state' := by
  induction ms generalizing state with
  | nil => exact ⟨state, .nil state⟩
  | cons m ms ih =>
    obtain ⟨key, t⟩ := m
    cases hkey : r.fields.find? (·.name == key) with
    | none =>
      have hms : ∀ p ∈ l.slots,
          ∃ o, Holds ms p.name (Gives (p.decode d)) o ∧ (p.name ∈ state.2 → o = none) := by
        intro p hp
        obtain ⟨o, ho, hnone⟩ := h p hp
        have hne := l.ne_of_find?_eq_none hkey hp
        exact ⟨o, (holds_congr_texts (textsOf_cons_of_ne hne)).1 ho, hnone⟩
      obtain ⟨state', hstate⟩ := ih hms
      exact ⟨state', .other hkey hstate⟩
    | some f =>
      obtain ⟨q, hq, rfl, rfl⟩ := l.exists_of_find? hkey
      obtain ⟨o, ho, hnone⟩ := h q hq
      cases o with
      | none =>
        rw [Holds, textsOf_cons_self] at ho
        cases ho
      | some v =>
        obtain ⟨t', ht', hv⟩ := ho
        rw [textsOf_cons_self, List.cons.injEq] at ht'
        obtain ⟨rfl, htexts⟩ := ht'
        have hnew : q.name ∉ state.2 := fun hgiven => nomatch hnone hgiven
        have hms : ∀ p ∈ l.slots, ∃ o, Holds ms p.name (Gives (p.decode d)) o ∧
            (p.name ∈ q.name :: state.2 → o = none) := by
          intro p hp
          by_cases hname : p.name = q.name
          · exact ⟨none, by rw [hname]; exact htexts, fun _ => rfl⟩
          · obtain ⟨o, ho, hnone⟩ := h p hp
            refine ⟨o, (holds_congr_texts (textsOf_cons_of_ne (Ne.symm hname))).1 ho, ?_⟩
            exact fun hgiven => hnone ((List.mem_cons.1 hgiven).resolve_left hname)
        obtain ⟨state', hstate⟩ := @ih (q.store v state.1, q.name :: state.2) hms
        exact ⟨state', .field hkey hnew (q.field_decode_eq_ok_iff.2 ⟨v, hv, rfl⟩) hstate⟩

/-- **A record is read field by field.** A text gives a record if its fields are given once or
left out, none is left out that has to be given, and those left out are as in the template. -/
theorem decode_eq_ok_iff {s rest : List Char} {x : α} :
    r.decode (d + 1) s = .ok (x, rest) ↔
      ∃ ms, FieldTexts l.names s ms rest ∧
        ∀ p ∈ l.slots, ∃ o, Holds ms p.name (Gives (p.decode d)) o ∧
          (p.required = true → o ≠ none) ∧ p.get x = o.getD (p.get r.template) := by
  rw [decode_texts_iff l.spans_fields (by rw [l.names_eq]; exact l.distinct), l.names_eq]
  refine exists_congr fun ms => and_congr_right fun _ => ?_
  rw [l.fields_eq, List.forall_mem_map]
  constructor
  · rintro ⟨⟨given, hover⟩, hrequired⟩ p hp
    obtain ⟨o, ho, hget⟩ := l.get_of_overrides hp hover List.not_mem_nil
    refine ⟨o, ho, fun hp' hnone => ?_, hget⟩
    exact ho.eq_none_iff.1 hnone (hrequired p hp hp')
  · intro h
    obtain ⟨⟨y, given⟩, hover⟩ : ∃ state', r.Overrides (RecordField.Gives d) ms
        (r.template, []) state' := l.exists_overrides fun p hp => by
      obtain ⟨o, ho, -⟩ := h p hp
      exact ⟨o, ho, fun hgiven => absurd hgiven List.not_mem_nil⟩
    -- what is read has the fields that were asked for, and nothing else is the record
    have hxy : x = y := l.ext fun p hp => by
      obtain ⟨o, ho, -, hx⟩ := h p hp
      obtain ⟨o', ho', hy⟩ := l.get_of_overrides hp hover List.not_mem_nil
      obtain rfl := ho.unique ho' Gives.unique
      rw [hx, hy]
    subst hxy
    refine ⟨⟨given, hover⟩, fun p hp hrequired => ?_⟩
    obtain ⟨o, ho, hgiven, -⟩ := h p hp
    exact not_not.1 fun hmem => hgiven hrequired (ho.eq_none_iff.2 hmem)

end Record.Slots

end Linework.Json
