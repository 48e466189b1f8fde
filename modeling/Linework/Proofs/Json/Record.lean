import Linework.Json.Record
import Linework.Proofs.Json.Local

/-!
# Records and the values they are read from

A record is read straight from the text, member by member, and what it has no
field for is passed over unread. It could as well be read from the value that the
text stands for: go through the members in order, and let each one that names a
field override it. `Record.Overrides` is that second way. It does not ask what the
members hold: the fields come in through a relation between that and changes to the
record.

`Record.keyed_iff` says that for an object that can be read as a value the two
ways are one. Members that name no field make no difference to either, and that
the first way gets past them is the theorem about passing over a value.

Not every object that gives a record can be read as a value, because what is passed
over may be nested too deep for that. `Record.keyed_eq_ok_iff` covers these too: it
says what the text of such an object is, member by member.
-/

namespace Linework.Json

variable {α : Type}

namespace Record

/-- **The members of an object override a record** with the fields given so far.
A field may be given once, and what no field is named after is of no account. -/
inductive Overrides {β : Type} (r : Record α) (F : RecordField α → β → (α → α) → Prop) :
    List (String × β) → α × List String → α × List String → Prop where
  /-- No members are left. -/
  | nil (state : α × List String) : Overrides r F [] state state
  /-- A member that names no field. -/
  | other {key : String} {v : β} {ms : List (String × β)} {state state' : α × List String} :
    r.fields.find? (·.name == key) = none → Overrides r F ms state state' →
    Overrides r F ((key, v) :: ms) state state'
  /-- A member that names a field not given before. -/
  | field {key : String} {v : β} {ms : List (String × β)} {state state' : α × List String}
      {f : RecordField α} {change : α → α} :
    r.fields.find? (·.name == key) = some f → key ∉ state.2 → F f v change →
    Overrides r F ms (change state.1, key :: state.2) state' →
    Overrides r F ((key, v) :: ms) state state'

section Overrides

variable {β : Type} {r : Record α} {F : RecordField α → β → (α → α) → Prop}

theorem overrides_nil_iff {state state' : α × List String} :
    r.Overrides F [] state state' ↔ state' = state := by
  constructor
  · intro h
    cases h
    rfl
  · rintro rfl
    exact .nil _

theorem overrides_other_iff {key : String} (hkey : r.fields.find? (·.name == key) = none)
    {v : β} {ms : List (String × β)} {state state' : α × List String} :
    r.Overrides F ((key, v) :: ms) state state' ↔ r.Overrides F ms state state' := by
  constructor
  · intro h
    cases h with
    | other _ hms => exact hms
    | field hf => rw [hkey] at hf; cases hf
  · exact .other hkey

theorem overrides_field_iff {key : String} {f : RecordField α}
    (hkey : r.fields.find? (·.name == key) = some f) {v : β} {ms : List (String × β)}
    {state state' : α × List String} :
    r.Overrides F ((key, v) :: ms) state state' ↔
      key ∉ state.2 ∧ ∃ change, F f v change ∧
        r.Overrides F ms (change state.1, key :: state.2) state' := by
  constructor
  · intro h
    cases h with
    | other hf => rw [hkey] at hf; cases hf
    | field hf hnew hchange hms =>
      rw [hkey] at hf
      cases hf
      exact ⟨hnew, _, hchange, hms⟩
  · rintro ⟨hnew, change, hchange, hms⟩
    exact .field hkey hnew hchange hms

theorem overrides_cons_iff {m : String × β} {ms : List (String × β)}
    {state state' : α × List String} :
    r.Overrides F (m :: ms) state state' ↔
      ∃ state₁, r.Overrides F [m] state state₁ ∧ r.Overrides F ms state₁ state' := by
  obtain ⟨key, v⟩ := m
  cases hkey : r.fields.find? (·.name == key) with
  | none =>
    rw [overrides_other_iff hkey]
    constructor
    · intro h
      exact ⟨state, .other hkey (.nil _), h⟩
    · rintro ⟨state₁, h₁, h⟩
      rw [overrides_other_iff hkey, overrides_nil_iff] at h₁
      rwa [h₁] at h
  | some f =>
    rw [overrides_field_iff hkey]
    constructor
    · rintro ⟨hnew, change, hchange, h⟩
      exact ⟨_, .field hkey hnew hchange (.nil _), h⟩
    · rintro ⟨state₁, h₁, h⟩
      obtain ⟨hnew, change, hchange, hnil⟩ := (overrides_field_iff hkey).1 h₁
      rw [overrides_nil_iff.1 hnil] at h
      exact ⟨hnew, change, hchange, h⟩

end Overrides

variable {r : Record α} {F : RecordField α → Json → (α → α) → Prop} {d : Nat}
  (hF : ∀ f ∈ r.fields, ∀ {s rest rest' : List Char} {v : Json} {change : α → α},
    value d s = .ok (v, rest) →
      (f.decode d s = .ok (change, rest') ↔ rest' = rest ∧ F f v change))

include hF

/-- One member, read from the text and from its value. -/
theorem member_iff {key : String} {s t rest rest' : List Char} {v : Json}
    {state state' : α × List String} (hcolon : colon s = .ok t)
    (hvalue : value d t = .ok (v, rest)) :
    r.member d key state s = .ok (state', rest') ↔
      rest' = rest ∧ r.Overrides F [(key, v)] state state' := by
  rw [member]
  cases hkey : r.fields.find? (·.name == key) with
  | none =>
    have hskip : (do return (state, ← skim (← colon s)) : Except Fault _) = .ok (state, rest) := by
      rw [hcolon, ok_bind, skim_of_value hvalue]
      rfl
    dsimp only
    rw [hskip, overrides_other_iff hkey, overrides_nil_iff, Except.ok.injEq, Prod.mk.injEq,
      eq_comm, and_comm, eq_comm]
  | some f =>
    have hf : f ∈ r.fields := List.mem_of_find?_eq_some hkey
    rw [overrides_field_iff hkey]
    dsimp only
    by_cases hgiven : key ∈ state.2
    · rw [if_pos (List.contains_iff_mem.2 hgiven)]
      simp [hgiven]
    · rw [if_neg (fun h => hgiven (List.contains_iff_mem.1 h)), hcolon, ok_bind]
      constructor
      · intro h
        obtain ⟨⟨change, rest₁⟩, hdecode, h⟩ := bind_eq_ok_iff.1 h
        cases h
        obtain ⟨hrest, hchange⟩ := (hF f hf hvalue).1 hdecode
        exact ⟨hrest, hgiven, change, hchange, .nil _⟩
      · rintro ⟨hrest, -, change, hchange, hnil⟩
        rw [overrides_nil_iff.1 hnil]
        exact bind_eq_ok_iff.2 ⟨(change, rest'), (hF f hf hvalue).2 ⟨hrest, hchange⟩, rfl⟩

/-- The loop over the members of an object, read as a record and as a value. The
value's members come out last one first, behind those there were before. -/
theorem members_iff {fuel s rest : List Char} {first : Bool}
    {before backwards : List (String × Json)}
    (h : members stringText (valueMember d) fuel first before s = .ok (backwards, rest)) :
    ∃ ms, backwards = ms.reverse ++ before ∧
      ∀ {state state' : α × List String} {rest' : List Char},
        members stringText (r.member d) fuel first state s = .ok (state', rest') ↔
          rest' = rest ∧ r.Overrides F ms state state' := by
  induction fuel generalizing s first before with
  | nil => cases h
  | cons _ fuel ih =>
    obtain ⟨next, hnext, h⟩ := bind_eq_ok_iff.1 h
    cases next with
    | closes tail =>
      cases h
      refine ⟨[], rfl, ?_⟩
      intro state state' rest'
      rw [members, hnext, overrides_nil_iff]
      show Except.ok (state, tail.tail) = .ok (state', rest') ↔ _
      rw [Except.ok.injEq, Prod.mk.injEq, eq_comm, and_comm, eq_comm]
    | entry t =>
      obtain ⟨⟨key, s₁⟩, hkey, h⟩ := bind_eq_ok_iff.1 h
      obtain ⟨⟨before₁, s₂⟩, hmember, h⟩ := bind_eq_ok_iff.1 h
      obtain ⟨s₃, v, hcolon, hvalue, rfl⟩ := valueMember_eq_ok hmember
      obtain ⟨ms, rfl, hms⟩ := ih h
      -- both loops see the same key and leave the same text, so they stay in step
      refine ⟨(key, v) :: ms, by simp, ?_⟩
      intro state state' rest'
      rw [members, hnext, ok_bind, overrides_cons_iff]
      constructor
      · intro hread
        obtain ⟨⟨key', s₁'⟩, hkey', hread⟩ := bind_eq_ok_iff.1 hread
        rw [hkey] at hkey'
        cases hkey'
        obtain ⟨⟨state₁, s₂'⟩, hstate, hread⟩ := bind_eq_ok_iff.1 hread
        obtain ⟨rfl, h₁⟩ := (member_iff hF hcolon hvalue).1 hstate
        obtain ⟨hrest, h₂⟩ := hms.1 hread
        exact ⟨hrest, state₁, h₁, h₂⟩
      · rintro ⟨hrest, state₁, h₁, h₂⟩
        refine bind_eq_ok_iff.2 ⟨(key, s₁), hkey, bind_eq_ok_iff.2 ⟨(state₁, s₂), ?_, ?_⟩⟩
        · exact (member_iff hF hcolon hvalue).2 ⟨rfl, h₁⟩
        · exact hms.2 ⟨hrest, h₂⟩

omit hF in
theorem find?_required_eq_none_iff {given : List String} :
    r.fields.find? (fun f => f.required && !given.contains f.name) = none ↔
      ∀ f ∈ r.fields, f.required = true → f.name ∈ given := by
  simp [List.find?_eq_none]

/-- **An object is read as a record by overriding its template**, and every field
that has to be given must have been. -/
theorem keyed_iff {s rest rest' : List Char} {backwards : List (String × Json)} {x : α}
    (h : objectOf stringText (valueMember d) [] s = .ok (backwards, rest)) :
    r.keyed d s = .ok (x, rest') ↔
      rest' = rest ∧ ∃ given, r.Overrides F backwards.reverse (r.template, []) (x, given) ∧
        ∀ f ∈ r.fields, f.required = true → f.name ∈ given := by
  obtain ⟨ms, hms, hiff⟩ := members_iff hF h
  rw [hms, List.append_nil, List.reverse_reverse, keyed, bind_eq_ok_iff]
  constructor
  · rintro ⟨⟨⟨y, given⟩, rest₁⟩, hread, hdone⟩
    obtain ⟨rfl, hover⟩ := hiff.1 hread
    dsimp only at hdone
    split at hdone
    · cases hdone
    · next hnone =>
      cases hdone
      exact ⟨rfl, given, hover, find?_required_eq_none_iff.1 hnone⟩
  · rintro ⟨hrest, given, hover, hgiven⟩
    refine ⟨((x, given), rest'), hiff.2 ⟨hrest, hover⟩, ?_⟩
    dsimp only
    rw [find?_required_eq_none_iff.2 hgiven]
    rfl

/-! ## The text of a record -/

/-- What a member of an object says of a record: how one of its fields is changed,
or nothing. -/
def item (r : Record α) (d : Nat) (key : String) : Reader (Option (α → α)) :=
  match r.fields.find? (·.name == key) with
  | none => fun s => do
    let (_, rest) ← passing skim s
    return (none, rest)
  | some field => fun s => do
    let (change, rest) ← field.decode d s
    return (some change, rest)

/-- A record after another member, with the fields given so far. -/
def override (key : String) (change : Option (α → α)) (state : α × List String) :
    Option (α × List String) :=
  match change with
  | none => some state
  | some change => if key ∈ state.2 then none else some (change state.1, key :: state.2)

section Text

omit hF

theorem item_of_none {key : String} (h : r.fields.find? (·.name == key) = none)
    {s rest : List Char} {change : Option (α → α)} :
    r.item d key s = .ok (change, rest) ↔ skim s = .ok rest ∧ change = none := by
  rw [item, h]
  constructor
  · intro hread
    obtain ⟨⟨_, rest'⟩, hskim, hread⟩ := bind_eq_ok_iff.1 hread
    cases hread
    exact ⟨passing_eq_ok_iff.1 hskim, rfl⟩
  · rintro ⟨hskim, rfl⟩
    exact bind_eq_ok_iff.2 ⟨((), rest), passing_eq_ok_iff.2 hskim, rfl⟩

theorem item_of_some {key : String} {f : RecordField α}
    (h : r.fields.find? (·.name == key) = some f) {s rest : List Char}
    {change : Option (α → α)} :
    r.item d key s = .ok (change, rest) ↔
      ∃ change', f.decode d s = .ok (change', rest) ∧ change = some change' := by
  rw [item, h]
  constructor
  · intro hread
    obtain ⟨⟨change', rest'⟩, hdecode, hread⟩ := bind_eq_ok_iff.1 hread
    cases hread
    exact ⟨change', hdecode, rfl⟩
  · rintro ⟨change', hdecode, rfl⟩
    exact bind_eq_ok_iff.2 ⟨(change', rest), hdecode, rfl⟩

/-- One member takes a record from one state to another. -/
theorem member_eq_ok_iff (key : String) (state state' : α × List String) (s rest : List Char) :
    r.member d key state s = .ok (state', rest) ↔
      ∃ t change, colon s = .ok t ∧ r.item d key t = .ok (change, rest) ∧
        override key change state = some state' := by
  rw [member]
  cases hkey : r.fields.find? (·.name == key) with
  | none =>
    constructor
    · intro h
      obtain ⟨t, ht, h⟩ := bind_eq_ok_iff.1 h
      obtain ⟨rest', hskim, h⟩ := bind_eq_ok_iff.1 h
      cases h
      exact ⟨t, none, ht, (item_of_none hkey).2 ⟨hskim, rfl⟩, rfl⟩
    · rintro ⟨t, change, ht, hread, hstep⟩
      obtain ⟨hskim, rfl⟩ := (item_of_none hkey).1 hread
      cases hstep
      exact bind_eq_ok_iff.2 ⟨t, ht, bind_eq_ok_iff.2 ⟨rest, hskim, rfl⟩⟩
  | some f =>
    dsimp only
    by_cases hgiven : key ∈ state.2
    · rw [if_pos (List.contains_iff_mem.2 hgiven)]
      constructor
      · nofun
      · rintro ⟨t, change, ht, hread, hstep⟩
        obtain ⟨change', -, rfl⟩ := (item_of_some hkey).1 hread
        rw [override, if_pos hgiven] at hstep
        cases hstep
    · rw [if_neg (fun h => hgiven (List.contains_iff_mem.1 h))]
      constructor
      · intro h
        obtain ⟨t, ht, h⟩ := bind_eq_ok_iff.1 h
        obtain ⟨⟨change, rest'⟩, hdecode, h⟩ := bind_eq_ok_iff.1 h
        cases h
        exact ⟨t, some change, ht, (item_of_some hkey).2 ⟨change, hdecode, rfl⟩, if_neg hgiven⟩
      · rintro ⟨t, change, ht, hread, hstep⟩
        obtain ⟨change', hdecode, rfl⟩ := (item_of_some hkey).1 hread
        rw [override, if_neg hgiven] at hstep
        cases hstep
        exact bind_eq_ok_iff.2 ⟨t, ht, bind_eq_ok_iff.2 ⟨(change', rest), hdecode, rfl⟩⟩

/-- What a member says of a record is read from the front, if its fields are. -/
theorem local_item (hfields : ∀ f ∈ r.fields, Local (f.decode d)) (key : String) :
    Local (r.item d key) := by
  unfold item
  split
  · exact local_skim.map fun _ => none
  · next f hf => exact (hfields f (List.mem_of_find?_eq_some hf)).map some

/-- **The text of a record given by name**: a text of members, each of which names no
field or one that was not named before, and together they name all that are needed. -/
theorem keyed_eq_ok_iff (hfields : ∀ f ∈ r.fields, Local (f.decode d)) {s rest : List Char}
    {x : α} :
    r.keyed d s = .ok (x, rest) ↔
      ∃ ms given, Members (r.item d) true s ms rest ∧
        ms.foldlM (fun state m => override m.1 m.2 state) (r.template, []) = some (x, given) ∧
        ∀ f ∈ r.fields, f.required = true → f.name ∈ given := by
  rw [keyed, bind_eq_ok_iff]
  constructor
  · rintro ⟨⟨⟨y, given⟩, rest₁⟩, hread, hdone⟩
    obtain ⟨ms, hms, -, hfold⟩ := (members_eq_ok_iff member_eq_ok_iff).1 hread
    dsimp only at hdone
    split at hdone
    · cases hdone
    · next hnone =>
      cases hdone
      exact ⟨ms, given, hms, hfold, find?_required_eq_none_iff.1 hnone⟩
  · rintro ⟨ms, given, hms, hfold, hgiven⟩
    refine ⟨((x, given), rest), (members_eq_ok_iff member_eq_ok_iff).2 ?_, ?_⟩
    · exact ⟨ms, hms, hms.length_lt (local_item hfields), hfold⟩
    · dsimp only
      rw [find?_required_eq_none_iff.2 hgiven]
      rfl

end Text

end Record

/-- **The text of a list of values of one type.** -/
theorem array_eq_ok_iff {item : Decoder α} (hitem : ∀ d, Local (item d)) {d : Nat}
    {s rest : List Char} {xs : List α} :
    array item d s = .ok (xs, rest) ↔
      ∃ d' bs s', d = d' + 1 ∧ Blanks bs ∧ s = bs ++ '[' :: s' ∧
        Elements (item d') true s' xs rest := by
  constructor
  · intro h
    unfold array at h
    split at h
    · cases h
    · next s' hs =>
      obtain ⟨bs, hbs, rfl⟩ := (skipBlanks_eq_cons_iff rfl).1 hs
      cases d with
      | zero => cases h
      | succ d => exact ⟨d, bs, s', rfl, hbs, rfl, (listOf_eq_ok_iff (hitem d)).1 h⟩
    · cases h
  · rintro ⟨d', bs, s', rfl, hbs, rfl, hxs⟩
    rw [array, skipBlanks_blanks_append hbs rfl]
    exact (listOf_eq_ok_iff (hitem d')).2 hxs

end Linework.Json
