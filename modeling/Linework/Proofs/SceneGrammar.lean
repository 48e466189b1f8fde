import Linework.Proofs.Grammar
import Linework.Proofs.Json.Record
import Linework.Scene

/-!
# The grammar of scenes

A scene's text holds a list of commands, and the list is read element by element:
each element is read whole, as a value, and then taken for a command by the rules
of `Command.Reads`. So there is a grammar of scenes as well, over the values of
their texts. A scene is an object with one member `commands`, whatever else it
holds, or a list of that one thing; and what `commands` holds is a list in which
the rules cover every element.

`Scene.read_eq_ok_iff` says that reading a text of a value agrees with the rules
for that value. Reading does not go through the value of the whole text, only
through those of the commands, so this rests on what is known about records.
-/

namespace Linework

open Json

/-! ## Lists of commands -/

namespace Command

theorem decode_eq_ok_iff {d : Nat} {s rest : List Char} {c : Command} :
    decode d s = .ok (c, rest) ↔ ∃ v, value d s = .ok (v, rest) ∧ Reads v c := by
  constructor
  · intro h
    obtain ⟨⟨v, rest'⟩, hv, h⟩ := bind_eq_ok_iff.1 h
    obtain ⟨c', hc, h⟩ := bind_eq_ok_iff.1 h
    cases h
    exact ⟨v, hv, (ofJson_eq_ok_iff v).1 (mapError_eq_ok_iff.1 hc)⟩
  · rintro ⟨v, hv, hc⟩
    refine bind_eq_ok_iff.2 ⟨(v, rest), hv, bind_eq_ok_iff.2 ⟨c, ?_, rfl⟩⟩
    exact mapError_eq_ok_iff.2 ((ofJson_eq_ok_iff v).2 hc)

/-- Elements are read as commands exactly if they are read as values and the rules
cover these. -/
theorem elements_decode_iff {d : Nat} {fuel s rest : List Char} {first : Bool}
    {cs : List Command} :
    elements (decode d) fuel first s = .ok (cs, rest) ↔
      ∃ items, elements (value d) fuel first s = .ok (items, rest) ∧ ReadsAll items cs := by
  induction fuel generalizing s first cs with
  | nil =>
    constructor
    · intro h
      cases h
    · rintro ⟨items, h, -⟩
      cases h
  | cons _ fuel ih =>
    rw [elements, bind_eq_ok_iff]
    constructor
    · rintro ⟨next, hnext, h⟩
      cases next with
      | closes r =>
        obtain ⟨rest', hrest, h⟩ := bind_eq_ok_iff.1 h
        cases h
        refine ⟨[], ?_, .nil⟩
        rw [elements, hnext, ok_bind]
        exact bind_eq_ok_iff.2 ⟨rest, hrest, rfl⟩
      | entry r =>
        obtain ⟨⟨c, s₁⟩, hc, h⟩ := bind_eq_ok_iff.1 h
        obtain ⟨⟨cs', s₂⟩, hcs, h⟩ := bind_eq_ok_iff.1 h
        cases h
        obtain ⟨v, hv, hreads⟩ := decode_eq_ok_iff.1 hc
        obtain ⟨items, hitems, hall⟩ := ih.1 hcs
        refine ⟨v :: items, ?_, .cons hreads hall⟩
        rw [elements, hnext, ok_bind]
        exact bind_eq_ok_iff.2 ⟨(v, s₁), hv, bind_eq_ok_iff.2 ⟨(items, rest), hitems, rfl⟩⟩
    · rintro ⟨items, h, hall⟩
      rw [elements] at h
      obtain ⟨next, hnext, h⟩ := bind_eq_ok_iff.1 h
      refine ⟨next, hnext, ?_⟩
      cases next with
      | closes r =>
        obtain ⟨rest', hrest, h⟩ := bind_eq_ok_iff.1 h
        cases h
        cases hall
        exact bind_eq_ok_iff.2 ⟨rest, hrest, rfl⟩
      | entry r =>
        obtain ⟨⟨v, s₁⟩, hv, h⟩ := bind_eq_ok_iff.1 h
        obtain ⟨⟨items', s₂⟩, hitems, h⟩ := bind_eq_ok_iff.1 h
        cases h
        cases hall with
        | cons hreads hall =>
          exact bind_eq_ok_iff.2 ⟨_, decode_eq_ok_iff.2 ⟨v, hv, hreads⟩,
            bind_eq_ok_iff.2 ⟨_, ih.2 ⟨items', hitems, hall⟩, rfl⟩⟩

/-- **A list of commands is read element by element**, each by the same rules. -/
theorem array_decode_iff {d : Nat} {s rest : List Char} {cs : List Command} :
    array decode d s = .ok (cs, rest) ↔
      ∃ items, value d s = .ok (.list items, rest) ∧ ReadsAll items cs := by
  constructor
  · intro h
    unfold array at h
    split at h
    · cases h
    · next s' hs =>
      cases d with
      | zero => cases h
      | succ d =>
        obtain ⟨items, hitems, hall⟩ := elements_decode_iff.1 h
        refine ⟨items, ?_, hall⟩
        rw [value_list hs]
        exact bind_eq_ok_iff.2 ⟨(items, rest), hitems, rfl⟩
    · cases h
  · rintro ⟨items, h, hall⟩
    rcases value_cases h with ⟨d', s', items', rfl, hs, hitems, heq⟩ |
      ⟨d', s', backwards, -, -, -, heq⟩ | ⟨c, s', -, -, -, hscalar⟩
    · cases heq
      rw [array, hs]
      exact elements_decode_iff.2 ⟨items, hitems, hall⟩
    · cases heq
    · exact absurd rfl ((not_container_of_scalar hscalar).1 items)

end Command

/-! ## Scenes -/

namespace Scene

/-- **The grammar of scenes**: which scene a value stands for. -/
inductive Reads : Json → Scene → Prop where
  /-- An object that gives the commands, and gives them once. -/
  | keyed {members : List (String × Json)} {items : List Json} {cs : List Command} :
    all "commands" members = [.list items] → Command.ReadsAll items cs →
    Reads (.object members) ⟨cs⟩
  /-- A list of the commands alone. -/
  | positional {items : List Json} {cs : List Command} :
    Command.ReadsAll items cs → Reads (.list [.list items]) ⟨cs⟩

/-- How a value changes a scene that it gives the commands of. -/
def FieldReads (_ : RecordField Scene) (v : Json) (change : Scene → Scene) : Prop :=
  ∃ items cs, v = .list items ∧ Command.ReadsAll items cs ∧ change = fun _ => ⟨cs⟩

theorem fieldReads_iff {d : Nat} (f : RecordField Scene) (hf : f ∈ record.fields)
    {s rest rest' : List Char} {v : Json} {change : Scene → Scene}
    (h : value d s = .ok (v, rest)) :
    f.decode d s = .ok (change, rest') ↔ rest' = rest ∧ FieldReads f v change := by
  rw [List.mem_singleton.1 hf]
  constructor
  · intro hread
    obtain ⟨⟨cs, s₁⟩, hcs, hread⟩ := bind_eq_ok_iff.1 hread
    obtain ⟨items, hitems, hall⟩ := Command.array_decode_iff.1 hcs
    rw [h] at hitems
    cases hitems
    cases hread
    exact ⟨rfl, items, cs, rfl, hall, rfl⟩
  · rintro ⟨rfl, items, cs, rfl, hall, rfl⟩
    exact bind_eq_ok_iff.2 ⟨(cs, _), Command.array_decode_iff.2 ⟨items, h, hall⟩, rfl⟩

theorem find?_commands :
    ∃ f, record.fields.find? (·.name == "commands") = some f ∧ record.fields = [f] :=
  ⟨_, rfl, rfl⟩

theorem find?_other {key : String} (h : key ≠ "commands") :
    record.fields.find? (·.name == key) = none := by
  rw [List.find?_eq_none]
  intro f hf
  rw [List.mem_singleton.1 hf, beq_iff_eq]
  exact fun hkey => h hkey.symm

/-- Once the commands are given they are not given again. -/
theorem overrides_given_iff {ms : List (String × Json)} {x : Scene}
    {state' : Scene × List String} :
    record.Overrides FieldReads ms (x, ["commands"]) state' ↔
      all "commands" ms = [] ∧ state' = (x, ["commands"]) := by
  induction ms with
  | nil =>
    rw [Record.overrides_nil_iff]
    exact ⟨fun h => ⟨rfl, h⟩, fun h => h.2⟩
  | cons m ms ih =>
    obtain ⟨key, v⟩ := m
    by_cases hkey : key = "commands"
    · subst hkey
      obtain ⟨f, hf, -⟩ := find?_commands
      rw [Record.overrides_field_iff hf, all, if_pos rfl]
      simp
    · rw [Record.overrides_other_iff (find?_other hkey), ih, all, if_neg hkey]

/-- The commands have been given exactly if one member gives them. -/
theorem overrides_template_iff {ms : List (String × Json)} {x y : Scene} :
    (∃ given, record.Overrides FieldReads ms (x, []) (y, given) ∧ "commands" ∈ given) ↔
      ∃ items, all "commands" ms = [.list items] ∧ Command.ReadsAll items y.commands := by
  induction ms with
  | nil => simp [Record.overrides_nil_iff, all]
  | cons m ms ih =>
    obtain ⟨key, v⟩ := m
    by_cases hkey : key = "commands"
    · subst hkey
      obtain ⟨f, hf, -⟩ := find?_commands
      rw [all, if_pos rfl]
      constructor
      · rintro ⟨given, hover, -⟩
        obtain ⟨-, change, ⟨items, cs, rfl, hall, rfl⟩, hms⟩ :=
          (Record.overrides_field_iff hf).1 hover
        obtain ⟨hnone, heq⟩ := overrides_given_iff.1 hms
        cases heq
        exact ⟨items, by rw [hnone], hall⟩
      · rintro ⟨items, heq, hall⟩
        obtain ⟨rfl, hnone⟩ := List.cons.inj heq
        refine ⟨["commands"], ?_, List.mem_singleton_self _⟩
        refine .field hf List.not_mem_nil ⟨items, y.commands, rfl, hall, rfl⟩ ?_
        exact overrides_given_iff.2 ⟨hnone, rfl⟩
    · rw [all, if_neg hkey, ← ih]
      simp only [Record.overrides_other_iff (find?_other hkey)]

/-- After one element of a list, the list ends exactly if it has no more. -/
theorem closeList_iff {α : Type} {item : Reader α} {fuel s rest rest' : List Char} {xs : List α}
    (h : elements item fuel false s = .ok (xs, rest)) :
    closeList s = .ok rest' ↔ xs = [] ∧ rest' = rest := by
  cases fuel with
  | nil => cases h
  | cons _ fuel =>
    obtain ⟨next, hnext, h⟩ := bind_eq_ok_iff.1 h
    cases next with
    | closes r =>
      obtain ⟨tail, hs, rfl⟩ := nextElement_eq_closes hnext
      cases h
      have hclose : closeList s = .ok rest := by rw [closeList, hs]; rfl
      rw [hclose, Except.ok.injEq, eq_comm]
      exact ⟨fun heq => ⟨rfl, heq⟩, fun heq => heq.2⟩
    | entry r =>
      obtain ⟨tail, hs, -⟩ := nextElement_false_eq_entry hnext
      obtain ⟨⟨x, s₁⟩, -, h⟩ := bind_eq_ok_iff.1 h
      obtain ⟨⟨xs', s₂⟩, -, h⟩ := bind_eq_ok_iff.1 h
      cases h
      have hclose : closeList s ≠ .ok rest' := by
        intro hclose
        unfold closeList at hclose
        split at hclose
        · cases hclose
        · next hs' => rw [hs] at hs'; cases hs'
        · split at hclose <;> cases hclose
        · cases hclose
      exact ⟨fun heq => absurd heq hclose, fun heq => absurd heq.1 (List.cons_ne_nil _ _)⟩

/-- The commands alone in a list. -/
theorem positional_iff {d : Nat} {expected : Expected} {fuel s rest rest' : List Char}
    {items : List Json} {x y : Scene}
    (h : elements (value d) fuel true s = .ok (items, rest)) :
    Json.positional expected d record.fields 0 x s = .ok (y, rest') ↔
      rest' = rest ∧ ∃ items', items = [.list items'] ∧ Command.ReadsAll items' y.commands := by
  obtain ⟨f, -, hfields⟩ := find?_commands
  have hf : f ∈ record.fields := by
    rw [hfields]
    exact List.mem_singleton_self f
  have hrequired : f.required = true := by
    have hall : ∀ f ∈ record.fields, f.required = true := by
      intro f hf
      rw [List.mem_singleton.1 hf]
      rfl
    exact hall f hf
  rw [hfields, Json.positional]
  cases fuel with
  | nil => cases h
  | cons _ fuel =>
    obtain ⟨next, hnext, h⟩ := bind_eq_ok_iff.1 h
    rw [beq_self_eq_true, hnext, ok_bind]
    cases next with
    | closes r =>
      -- an empty list lacks the one field there is
      obtain ⟨_, -, h⟩ := bind_eq_ok_iff.1 h
      cases h
      dsimp only
      rw [if_pos hrequired]
      simp
    | entry r =>
      obtain ⟨⟨v, s₁⟩, hv, h⟩ := bind_eq_ok_iff.1 h
      obtain ⟨⟨vs, s₂⟩, hvs, h⟩ := bind_eq_ok_iff.1 h
      cases h
      constructor
      · intro hread
        obtain ⟨⟨change, s₁'⟩, hdecode, hread⟩ := bind_eq_ok_iff.1 hread
        obtain ⟨rfl, items', cs, rfl, hall, rfl⟩ := (fieldReads_iff f hf hv).1 hdecode
        obtain ⟨r', hclose, hread⟩ := bind_eq_ok_iff.1 hread
        cases hread
        obtain ⟨rfl, rfl⟩ := (closeList_iff hvs).1 hclose
        exact ⟨rfl, items', rfl, hall⟩
      · rintro ⟨rfl, items', heq, hall⟩
        obtain ⟨rfl, rfl⟩ := List.cons.inj heq
        refine bind_eq_ok_iff.2 ⟨(fun _ => ⟨y.commands⟩, s₁), ?_, ?_⟩
        · exact (fieldReads_iff f hf hv).2 ⟨rfl, items', y.commands, rfl, hall, rfl⟩
        · exact bind_eq_ok_iff.2 ⟨rest', (closeList_iff hvs).2 ⟨rfl, rfl⟩, rfl⟩

/-- A text of a value is read as a scene exactly if the rules cover the value. -/
theorem record_decode_iff {d : Nat} {s rest rest' : List Char} {v : Json} {scene : Scene}
    (h : value d s = .ok (v, rest)) :
    record.decode d s = .ok (scene, rest') ↔ rest' = rest ∧ Reads v scene := by
  rw [Record.decode]
  rcases value_cases h with ⟨d', s', items, rfl, hs, hitems, rfl⟩ |
    ⟨d', s', backwards, rfl, hs, hmembers, rfl⟩ | ⟨c, s', hs, hlist, hobject, hscalar⟩
  · rw [hs]
    refine (positional_iff hitems).trans (and_congr_right fun _ => ?_)
    constructor
    · rintro ⟨items', rfl, hall⟩
      exact .positional hall
    · intro hreads
      cases hreads with
      | positional hall => exact ⟨_, rfl, hall⟩
  · rw [hs]
    refine (Record.keyed_iff fieldReads_iff hmembers).trans (and_congr_right fun _ => ?_)
    -- to have given every field that is needed is to have given the commands
    have hgiven : ∀ given : List String,
        (∀ f ∈ record.fields, f.required = true → f.name ∈ given) ↔ "commands" ∈ given := by
      intro given
      constructor
      · intro hall
        exact hall _ (List.mem_singleton_self _) rfl
      · intro hmem f hf _
        rw [List.mem_singleton.1 hf]
        exact hmem
    simp only [hgiven]
    rw [overrides_template_iff]
    constructor
    · rintro ⟨items, hitems, hall⟩
      exact .keyed hitems hall
    · intro hreads
      cases hreads with
      | keyed hitems hall => exact ⟨_, hitems, hall⟩
  · rw [hs]
    obtain ⟨hnolist, hnoobject⟩ := not_container_of_scalar hscalar
    have hnone : ¬ Reads v scene := by
      intro hreads
      cases hreads with
      | keyed => exact absurd rfl (hnoobject _)
      | positional => exact absurd rfl (hnolist _)
    constructor
    · intro hdecode
      split at hdecode
      · next heq => cases heq
      · next heq => cases heq; exact absurd rfl hlist
      · next heq => cases heq; exact absurd rfl hobject
      · cases hdecode
    · rintro ⟨-, hreads⟩
      exact absurd hreads hnone

/-- **Reading a scene agrees with the grammar**, for every text of a value. -/
theorem read_eq_ok_iff {t : List Char} {v : Json} (h : Json.document value t = .ok v) {s : Scene} :
    read t = .ok s ↔ Reads v s := by
  obtain ⟨⟨v', rest⟩, hv, hend⟩ := bind_eq_ok_iff.1 h
  dsimp only at hend
  split at hend
  · next hblank =>
    cases hend
    constructor
    · intro hread
      obtain ⟨⟨s', rest'⟩, hs, hread⟩ := bind_eq_ok_iff.1 hread
      obtain ⟨rfl, hreads⟩ := (record_decode_iff hv).1 hs
      dsimp only at hread
      rw [if_pos hblank] at hread
      cases hread
      exact hreads
    · intro hreads
      refine bind_eq_ok_iff.2 ⟨(s, rest), (record_decode_iff hv).2 ⟨rfl, hreads⟩, ?_⟩
      exact if_pos hblank
  · cases hend

/-- **Reading follows the grammar.** A value is read as the command that the rules
give it, as an unknown one exactly if it is of no known kind, and refused if no
rule covers it. A list of commands is read element by element by the same rules,
wherever it stands in a text, and so is the list of a scene. -/
theorem reading_follows_grammar :
    (∀ (v : Json) (c : Command), Command.ofJson v = .ok c ↔ Command.Reads v c) ∧
      (∀ v : Json, Command.ofJson v = .ok .unknown ↔ ¬ Command.IsKnown v) ∧
      (∀ v : Json, (∃ e, Command.ofJson v = .error e) ↔ ∀ c, ¬ Command.Reads v c) ∧
      (∀ (d : Nat) (t rest : List Char) (cs : List Command),
        array Command.decode d t = .ok (cs, rest) ↔
          ∃ items, value d t = .ok (.list items, rest) ∧ Command.ReadsAll items cs) ∧
      ∀ (t : List Char) (v : Json) (s : Scene), Json.document value t = .ok v →
        (read t = .ok s ↔ Reads v s) := by
  refine ⟨fun v c => Command.ofJson_eq_ok_iff v, ?_, ?_, fun _ _ _ _ => Command.array_decode_iff,
    fun _ _ _ h => read_eq_ok_iff h⟩
  · intro v
    rw [Command.ofJson_eq_ok_iff]
    constructor
    · intro hreads
      cases hreads with
      | unknown hnot => exact hnot
    · exact .unknown
  · intro v
    simp only [← Command.ofJson_eq_ok_iff]
    cases Command.ofJson v with
    | error e => simp
    | ok c => simp

/-- A number, and a glow with two polygons in it. The vertices of the first are no points,
so it is the regular polygon that it also is; the second is given no rotation. -/
theorem read_glowing_polygons :
    let text := "\x7b\"commands\":[1,\x7b\"kind\":\"glow\",\"children\":[".toList ++
      "\x7b\"kind\":\"polygon\",\"points\":[[0]],\"center\":[0,0],".toList ++
      "\"radius\":1,\"sides\":3,\"rotation\":2,\"color\":255\x7d,".toList ++
      "\x7b\"kind\":\"polygon\",\"center\":[1,2],".toList ++
      "\"radius\":2,\"sides\":4,\"color\":255\x7d]\x7d]\x7d".toList
    let number (n : Int) : Json := .number (.whole n)
    let turned : List (String × Json) :=
      [("kind", .text "polygon"), ("points", .list [.list [number 0]]),
        ("center", .list [number 0, number 0]), ("radius", number 1), ("sides", number 3),
        ("rotation", number 2), ("color", number 255)]
    let upright : List (String × Json) :=
      [("kind", .text "polygon"), ("center", .list [number 1, number 2]),
        ("radius", number 2), ("sides", number 4), ("color", number 255)]
    let glow : List (String × Json) :=
      [("kind", .text "glow"), ("children", .list [.object turned, .object upright])]
    Json.document value text = .ok (.object [("commands", .list [number 1, .object glow])]) ∧
      read text = .ok ⟨[.unknown, .glow [.polygon (.regular ⟨0, 0⟩ 1 3 2) 255,
        .polygon (.regular ⟨1, 2⟩ 2 4 0) 255]]⟩ := by
  intro text number turned upright glow
  have hvalue : Json.document value text =
      .ok (.object [("commands", .list [number 1, .object glow])]) := by
    dsimp only [text, number, turned, upright, glow]
    rfl
  have hunknown : ¬ Command.IsKnown (number 1) := by
    rintro ⟨_, _, h, -⟩
    cases h
  have hturned : PolygonForm.Reads turned (.regular ⟨0, 0⟩ 1 3 2) := by
    refine .regular ?_ ⟨_, rfl, _, _, rfl, ⟨_, rfl, rfl⟩, _, rfl, rfl⟩ ⟨_, rfl, _, rfl, rfl⟩
      ⟨_, rfl, rfl⟩ (.inl ⟨_, rfl, _, rfl, rfl⟩)
    -- a list of one number is no point
    rintro ps ⟨_, hlast, _, rfl, hall⟩
    cases hlast
    cases hall with
    | cons hpoint _ =>
      obtain ⟨_, _, hpair, -⟩ := hpoint
      cases hpair
  have hupright : PolygonForm.Reads upright (.regular ⟨1, 2⟩ 2 4 0) := by
    refine .regular ?_ ⟨_, rfl, _, _, rfl, ⟨_, rfl, rfl⟩, _, rfl, rfl⟩ ⟨_, rfl, _, rfl, rfl⟩
      ⟨_, rfl, rfl⟩ (.inr ⟨rfl, rfl⟩)
    rintro ps ⟨_, hlast, -⟩
    cases hlast
  have hglow : Command.Reads (.object glow) (.glow [.polygon (.regular ⟨0, 0⟩ 1 3 2) 255,
      .polygon (.regular ⟨1, 2⟩ 2 4 0) 255]) :=
    .glow rfl rfl (.cons (.polygon rfl ⟨_, rfl, rfl⟩ hturned)
      (.cons (.polygon rfl ⟨_, rfl, rfl⟩ hupright) .nil))
  exact ⟨hvalue, (reading_follows_grammar.2.2.2.2 _ _ _ hvalue).2
    (.keyed rfl (.cons (.unknown hunknown) (.cons hglow .nil)))⟩

end Scene

end Linework
