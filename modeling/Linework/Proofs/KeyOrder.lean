import Mathlib.Data.List.Nodup
import Mathlib.Data.List.Perm.Basic
import Linework.Proofs.Grammar
import Linework.Proofs.Json.Depth
import Linework.Proofs.Json.Splice

/-!
# The order of keys does not matter

Two objects that differ in the order of their members, or in members that their kind has no
field for, are read as the same command, and if they are refused it is for the same reason.
`Command.Rearranged` says which values are the same up to that. It goes as deep as commands
do: the children of a glow may be rearranged again, and so on.

Reading looks at an object only by the names of its fields (`Command.ofJson_object_congr`),
and what a name finds depends on nothing but the members of that name
(`Json.last?_eq_getLast?_all`). If no two members have one name then no order of them makes
a difference. That is why reasons do not depend on the order either: which field is at fault
first is decided by the names and not by where they stand.
-/

namespace Linework

namespace Json

/-! ## Members of a name -/

/-- **What a name finds** is the last of all members of that name. -/
theorem last?_eq_getLast?_all (name : String) (members : List (String × Json)) :
    last? name members = (all name members).getLast? := by
  induction members with
  | nil => rfl
  | cons m rest ih =>
    obtain ⟨key, v⟩ := m
    rw [last?, all, ih]
    by_cases hkey : key = name
    · rw [if_pos hkey, if_pos hkey]
      cases all name rest with
      | nil => rfl
      | cons w ws => rw [List.getLast?_cons_cons, List.getLast?_cons]
    · rw [if_neg hkey, if_neg hkey]
      cases (all name rest).getLast? <;> rfl

theorem all_eq_map_filter (name : String) (members : List (String × Json)) :
    all name members = (members.filter (·.1 = name)).map Prod.snd := by
  induction members with
  | nil => rfl
  | cons m rest ih =>
    obtain ⟨key, v⟩ := m
    rw [all, ih, List.filter_cons]
    by_cases hkey : key = name <;> simp [hkey]

theorem all_perm {members members' : List (String × Json)} (h : members.Perm members')
    (name : String) : (all name members).Perm (all name members') := by
  rw [all_eq_map_filter, all_eq_map_filter]
  exact (h.filter _).map _

theorem all_append_of_ne {name : String} (members : List (String × Json))
    {extra : List (String × Json)} (h : ∀ m ∈ extra, m.1 ≠ name) :
    all name (members ++ extra) = all name members := by
  have hnone : extra.filter (·.1 = name) = [] :=
    List.filter_eq_nil_iff.2 fun m hm => by simpa using h m hm
  rw [all_eq_map_filter, all_eq_map_filter, List.filter_append, hnone, List.append_nil]

/-- Where names are distinct, there is at most one member of each. -/
theorem length_all_le_one {members : List (String × Json)}
    (h : (members.map Prod.fst).Nodup) (name : String) : (all name members).length ≤ 1 := by
  have hcount : (all name members).length = (members.map Prod.fst).count name := by
    rw [all_eq_map_filter, List.length_map, List.count_eq_length_filter, List.filter_map,
      List.length_map]
    rfl
  rw [hcount]
  exact List.nodup_iff_count_le_one.1 h name

/-- **Neither order nor other names make a difference** to what a name finds. -/
theorem last?_of_perm {name : String} {members extra members' : List (String × Json)}
    (hdistinct : (members.map Prod.fst).Nodup) (hextra : ∀ m ∈ extra, m.1 ≠ name)
    (h : (members ++ extra).Perm members') : last? name members' = last? name members := by
  have hperm := all_perm h name
  rw [all_append_of_ne members hextra] at hperm
  have hlength := length_all_le_one hdistinct name
  rw [last?_eq_getLast?_all, last?_eq_getLast?_all]
  cases hall : all name members with
  | nil =>
    rw [hall] at hperm
    rw [hperm.nil_eq]
  | cons v vs =>
    rw [hall, List.length_cons] at hlength
    have hnil : vs = [] := List.length_eq_zero_iff.1 (by omega)
    rw [hall, hnil] at hperm
    rw [hnil, List.singleton_perm.1 hperm]

/-! ## Values with distinct keys -/

mutual

/-- Whether every object of a value has distinct keys. -/
def distinctKeys : Json → Bool
  | .list items => distinctKeysOf items
  | .object members => decide (members.map Prod.fst).Nodup && distinctKeysOfMembers members
  | .null | .bool _ | .number _ | .text _ => true

/-- Whether every object of some values has distinct keys. -/
def distinctKeysOf : List Json → Bool
  | [] => true
  | v :: vs => v.distinctKeys && distinctKeysOf vs

/-- Whether every object of some members has distinct keys. -/
def distinctKeysOfMembers : List (String × Json) → Bool
  | [] => true
  | (_, v) :: rest => v.distinctKeys && distinctKeysOfMembers rest

end

theorem distinctKeys_object_iff {members : List (String × Json)} :
    (object members).distinctKeys = true ↔
      (members.map Prod.fst).Nodup ∧ distinctKeysOfMembers members = true := by
  rw [distinctKeys, Bool.and_eq_true, decide_eq_true_iff]

theorem distinctKeys_of_mem {members : List (String × Json)}
    (h : distinctKeysOfMembers members = true) {m : String × Json} (hm : m ∈ members) :
    m.2.distinctKeys = true := by
  induction members with
  | nil => cases hm
  | cons m' rest ih =>
    rw [distinctKeysOfMembers, Bool.and_eq_true] at h
    rcases List.mem_cons.1 hm with rfl | hm
    · exact h.1
    · exact ih h.2 hm

end Json

open Json

namespace Command

/-! ## The same command, written otherwise -/

/-- The names of the fields that a kind has. -/
def fieldNames : String → List String
  | "line" => ["kind", "start", "end", "color"]
  | "rect" => ["kind", "pos", "size", "color"]
  | "polygon" => ["kind", "color", "points", "center", "radius", "sides", "rotation"]
  | "circle" => ["kind", "center", "radius", "color"]
  | "ellipse" => ["kind", "center", "radii", "color"]
  | "glow" => ["kind", "children"]
  | _ => []

/-- A name that an object of a known kind has no field for. -/
def Idle (members : List (String × Json)) (name : String) : Prop :=
  ∃ kind ∈ knownKinds, last? "kind" members = some (.text kind) ∧ name ∉ fieldNames kind

mutual

/-- **The same entry, rearranged**: members in another order and members that its kind has no
field for, in the object itself and in the children of a glow. -/
inductive Rearranged : Json → Json → Prop where
  /-- A value as it is. -/
  | same (v : Json) : Rearranged v v
  /-- Members are added that are of no account, and all are put in some order. -/
  | object {members extra members' : List (String × Json)} :
    (∀ m ∈ extra, Idle members m.1) → (members ++ extra).Perm members' →
    Rearranged (.object members) (.object members')
  /-- The same of a glow, after its children have been rearranged. -/
  | glow {before after extra members' : List (String × Json)} {items items' : List Json} :
    last? "kind" (before ++ ("children", .list items) :: after) = some (.text "glow") →
    RearrangedAll items items' →
    (∀ m ∈ extra, Idle (before ++ ("children", .list items) :: after) m.1) →
    (before ++ ("children", .list items') :: after ++ extra).Perm members' →
    Rearranged (.object (before ++ ("children", .list items) :: after)) (.object members')

/-- Entries that are rearranged one by one. -/
inductive RearrangedAll : List Json → List Json → Prop where
  /-- There are none. -/
  | nil : RearrangedAll [] []
  /-- The first one is, and so are the others. -/
  | cons {v w : Json} {vs ws : List Json} :
    Rearranged v w → RearrangedAll vs ws → RearrangedAll (v :: vs) (w :: ws)

end

/-! ## Reading by name -/

section Congruence

variable {members members' : List (String × Json)}

theorem given_congr {α : Type} {name : String} (read : Json → Except Mismatch α)
    (h : last? name members' = last? name members) :
    given name read members' = given name read members := by
  rw [given, given, h]

/-- Members that a kind's names find the same values in. -/
def Agree (kind : String) (members' members : List (String × Json)) : Prop :=
  ∀ name ∈ fieldNames kind, last? name members' = last? name members

theorem lineOf_congr (h : Agree "line" members' members) : lineOf members' = lineOf members := by
  rw [lineOf, lineOf, given_congr toWord (h "color" (by decide)),
    given_congr toPoint (h "end" (by decide)), given_congr toPoint (h "start" (by decide))]

theorem rectOf_congr (h : Agree "rect" members' members) : rectOf members' = rectOf members := by
  rw [rectOf, rectOf, given_congr toWord (h "color" (by decide)),
    given_congr toPoint (h "pos" (by decide)), given_congr toPoint (h "size" (by decide))]

theorem circleOf_congr (h : Agree "circle" members' members) :
    circleOf members' = circleOf members := by
  rw [circleOf, circleOf, given_congr toPoint (h "center" (by decide)),
    given_congr toWord (h "color" (by decide)), given_congr toSingle (h "radius" (by decide))]

theorem ellipseOf_congr (h : Agree "ellipse" members' members) :
    ellipseOf members' = ellipseOf members := by
  rw [ellipseOf, ellipseOf, given_congr toPoint (h "center" (by decide)),
    given_congr toWord (h "color" (by decide)), given_congr toPoint (h "radii" (by decide))]

/-- The form of a polygon is looked up by five names. -/
theorem ofFields_congr {field field' : String → Option (Option Json)}
    (h : ∀ name ∈ ["points", "center", "radius", "sides", "rotation"], field' name = field name) :
    PolygonForm.ofFields field' = PolygonForm.ofFields field := by
  have hpoints : PolygonForm.points? field' = PolygonForm.points? field := by
    rw [PolygonForm.points?, PolygonForm.points?, h "points" (by decide)]
  have hregular : PolygonForm.regular? field' = PolygonForm.regular? field := by
    rw [PolygonForm.regular?, PolygonForm.regular?, h "center" (by decide),
      h "radius" (by decide), h "sides" (by decide), h "rotation" (by decide)]
  rw [PolygonForm.ofFields, PolygonForm.ofFields, hpoints, hregular]

theorem polygonOf_congr (h : Agree "polygon" members' members) :
    polygonOf members' = polygonOf members := by
  have hform : PolygonForm.ofFields (fun name => some (last? name members')) =
      PolygonForm.ofFields fun name => some (last? name members) := by
    refine ofFields_congr fun name hname => congrArg some (h name ?_)
    exact List.mem_cons_of_mem _ (List.mem_cons_of_mem _ hname)
  rw [polygonOf, polygonOf, given_congr toWord (h "color" (by decide)), hform]

/-- **An object is read by the names of its fields.** Two objects are read alike if their
kinds are the same, every field has the same value, and the children of a glow are read
alike. -/
theorem ofJson_object_congr (hkind : last? "kind" members' = last? "kind" members)
    (hfields : ∀ kind ∈ knownKinds, last? "kind" members = some (.text kind) → kind ≠ "glow" →
      Agree kind members' members)
    (hchildren : last? "kind" members = some (.text "glow") →
      childrenOf members' = childrenOf members) :
    ofJson (.object members') = ofJson (.object members) := by
  by_cases hknown : IsKnown (.object members)
  · obtain ⟨_, kind, heq, hk, hmem⟩ := hknown
    cases heq
    have hk' := hkind.trans hk
    rw [ofJson, ofJson, hk, hk']
    simp only [knownKinds, List.mem_cons, List.not_mem_nil, or_false] at hmem
    rcases hmem with rfl | rfl | rfl | rfl | rfl | rfl
    · exact lineOf_congr (hfields _ (by decide) hk (by decide))
    · exact rectOf_congr (hfields _ (by decide) hk (by decide))
    · exact polygonOf_congr (hfields _ (by decide) hk (by decide))
    · exact circleOf_congr (hfields _ (by decide) hk (by decide))
    · exact ellipseOf_congr (hfields _ (by decide) hk (by decide))
    · rw [hchildren hk]
      rfl
  · have hknown' : ¬ IsKnown (.object members') := by
      rintro ⟨_, kind, heq, hk, hmem⟩
      cases heq
      exact hknown ⟨members, kind, rfl, hkind.symm.trans hk, hmem⟩
    rw [ofJson_of_not_isKnown hknown, ofJson_of_not_isKnown hknown']

end Congruence

/-! ## Rearranged values are read alike -/

/-- Every kind has a field for itself, so no member of that name is of no account. -/
theorem Idle.ne_kind {members : List (String × Json)} {name : String} (h : Idle members name) :
    name ≠ "kind" := by
  obtain ⟨kind, hmem, -, hname⟩ := h
  rintro rfl
  have hall : ∀ kind ∈ knownKinds, "kind" ∈ fieldNames kind := by decide
  exact hname (hall kind hmem)

theorem Idle.not_mem {members : List (String × Json)} {name kind : String} (h : Idle members name)
    (hkind : last? "kind" members = some (.text kind)) : name ∉ fieldNames kind := by
  obtain ⟨kind', -, hkind', hname⟩ := h
  rw [hkind, Option.some.injEq, Json.text.injEq] at hkind'
  rwa [hkind']

section Members

variable {members extra members' : List (String × Json)}
  (hdistinct : (members.map Prod.fst).Nodup) (hextra : ∀ m ∈ extra, Idle members m.1)
  (hperm : (members ++ extra).Perm members')

include hdistinct hextra hperm

theorem last?_kind_of_perm : last? "kind" members' = last? "kind" members :=
  last?_of_perm hdistinct (fun m hm => (hextra m hm).ne_kind) hperm

theorem agree_of_perm {kind : String} (hkind : last? "kind" members = some (.text kind)) :
    Agree kind members' members := by
  intro name hname
  refine last?_of_perm hdistinct (fun m hm => ?_) hperm
  rintro rfl
  exact (hextra m hm).not_mem hkind hname

/-- Another order, and members of no account, make no difference. -/
theorem ofJson_of_perm : ofJson (.object members') = ofJson (.object members) := by
  refine ofJson_object_congr (last?_kind_of_perm hdistinct hextra hperm)
    (fun kind _ hkind _ => agree_of_perm hdistinct hextra hperm hkind) fun hkind => ?_
  rw [childrenOf_eq, childrenOf_eq,
    agree_of_perm hdistinct hextra hperm hkind "children" (by decide)]

end Members

/-- The children of a glow may be exchanged for others that are read alike. -/
theorem ofJson_exchange_children {before after : List (String × Json)} {items items' : List Json}
    (hdistinct : ((before ++ ("children", Json.list items) :: after).map Prod.fst).Nodup)
    (hitems : ofItems items' = ofItems items) :
    ofJson (.object (before ++ ("children", .list items') :: after)) =
      ofJson (.object (before ++ ("children", .list items) :: after)) := by
  have hafter : ∀ m ∈ after, m.1 ≠ "children" := by
    intro m hm hname
    rw [List.map_append, List.map_cons] at hdistinct
    refine (List.nodup_cons.1 (List.nodup_append.1 hdistinct).2.1).1 ?_
    exact List.mem_map.2 ⟨m, hm, hname⟩
  have hlast : ∀ items : List Json,
      last? "children" (before ++ ("children", .list items) :: after) = some (.list items) :=
    fun items => (last?_exchange before after .null (.list items)).1 hafter
  have hother : ∀ name, name ≠ "children" →
      last? name (before ++ ("children", .list items') :: after) =
        last? name (before ++ ("children", .list items) :: after) :=
    (last?_exchange before after (.list items) (.list items')).2
  refine ofJson_object_congr (hother "kind" (by decide)) (fun kind hkind _ hne name hname => ?_)
    fun _ => ?_
  · have hall : ∀ kind ∈ knownKinds, kind ≠ "glow" → "children" ∉ fieldNames kind := by decide
    refine hother name ?_
    rintro rfl
    exact hall kind hkind hne hname
  · rw [childrenOf_eq, childrenOf_eq, hlast, hlast, Option.map_some, Option.map_some, commandsOf,
      commandsOf, hitems]

mutual

/-- **A rearranged value is read alike**, by induction along the rearrangement. -/
theorem ofJson_of_rearranged : ∀ {v w : Json}, Rearranged v w → v.distinctKeys = true →
    ofJson w = ofJson v
  | _, _, .same v, _ => rfl
  | _, _, .object hextra hperm, hv => ofJson_of_perm (distinctKeys_object_iff.1 hv).1 hextra hperm
  | _, _, @Rearranged.glow before after extra members' items items' _ hitems hextra hperm, hv => by
    obtain ⟨hdistinct, hmembers⟩ := distinctKeys_object_iff.1 hv
    have hchildren := distinctKeys_of_mem hmembers
      (List.mem_append_right before List.mem_cons_self)
    have hread := ofItems_of_rearrangedAll hitems (by rwa [distinctKeys] at hchildren)
    rw [← ofJson_exchange_children hdistinct hread]
    -- the members have the same names and the same kind as before their children were changed
    have hkeys : (before ++ ("children", Json.list items') :: after).map Prod.fst =
        (before ++ ("children", Json.list items) :: after).map Prod.fst := by
      rw [List.map_append, List.map_append, List.map_cons, List.map_cons]
    have hidle : ∀ m ∈ extra, Idle (before ++ ("children", Json.list items') :: after) m.1 := by
      intro m hm
      obtain ⟨kind, hmem, hk, hname⟩ := hextra m hm
      refine ⟨kind, hmem, ?_, hname⟩
      rw [← hk]
      exact (last?_exchange before after _ _).2 "kind" (by decide)
    exact ofJson_of_perm (by rwa [hkeys]) hidle hperm

theorem ofItems_of_rearrangedAll : ∀ {items items' : List Json}, RearrangedAll items items' →
    distinctKeysOf items = true → ofItems items' = ofItems items
  | _, _, .nil, _ => rfl
  | _, _, .cons hv hvs, h => by
    rw [distinctKeysOf, Bool.and_eq_true] at h
    rw [ofItems, ofItems, ofJson_of_rearranged hv h.1, ofItems_of_rearrangedAll hvs h.2]

end

/-! ## Texts -/

/-- A command is read from the value of its text. -/
theorem decode_of_value {d : Nat} {s rest : List Char} {v : Json} (h : value d s = .ok (v, rest)) :
    decode d s = ((ofJson v).mapError .mismatch).map (·, rest) := by
  rw [decode, h, ok_bind]
  dsimp only
  cases ofJson v <;> rfl

theorem document_decode_of_value {s : List Char} {v : Json} (h : Json.document value s = .ok v) :
    Json.document decode s = (ofJson v).mapError .mismatch := by
  obtain ⟨rest, hread, hrest⟩ := document_eq_ok_iff.1 h
  rw [Json.document, decode_of_value hread]
  cases ofJson v with
  | error e => rfl
  | ok c => exact if_pos (List.isEmpty_iff.2 (skipBlanks_eq_nil_iff.2 hrest))

/-- **Reading ignores how a command is arranged.** A value with distinct keys and the same value
rearranged are read as the same command, or refused for the same reason. So are their texts:
wherever a text of the value is read with some number of containers to open, a text of the
rearranged value is read in its place with the same result, if that is no deeper than the
number; and so are whole texts. -/
theorem ofJson_ignores_arrangement {v w : Json} (hv : v.distinctKeys = true)
    (h : Rearranged v w) :
    ofJson w = ofJson v ∧
      (∀ (d n : Nat) (s t rest rest' : List Char), value d s = .ok (v, rest) →
        value n t = .ok (w, rest') → w.depth ≤ d →
        ∃ result : Except Fault Command,
          decode d s = result.map (·, rest) ∧ decode d t = result.map (·, rest')) ∧
      ∀ s t : List Char, Json.document value s = .ok v → Json.document value t = .ok w →
        Json.document decode t = Json.document decode s := by
  have hread := ofJson_of_rearranged h hv
  refine ⟨hread, fun d n s t rest rest' hs ht hdepth => ?_, fun s t hs ht => ?_⟩
  · refine ⟨_, decode_of_value hs, ?_⟩
    rw [← hread]
    exact decode_of_value (value_of_depth_le ht hdepth)
  · rw [document_decode_of_value hs, document_decode_of_value ht, hread]

/-- A glow with its keys reversed, and those of its children, to one of which a member is
added that holds a list. The line is still a line, and the star is still unknown. -/
theorem ofJson_ignores_arrangement_in_glow :
    let number (n : Int) : Json := .number (.whole n)
    let line : List (String × Json) :=
      [("kind", .text "line"), ("start", .list [number 0, number 0]),
        ("end", .list [number 3, number 4]), ("color", number 255)]
    let star : List (String × Json) := [("kind", .text "star"), ("size", number 1)]
    let glow (children : List Json) : List (String × Json) :=
      [("kind", .text "glow"), ("children", .list children)]
    let v : Json := .object (glow [.object line, .object star])
    let w : Json :=
      .object
        (glow [.object (("note", .list [.null]) :: line.reverse), .object star.reverse]).reverse
    v.distinctKeys = true ∧ Rearranged v w ∧
      ofJson w = .ok (.glow [.line ⟨0, 0⟩ ⟨3, 4⟩ 255, .unknown]) := by
  intro number line star glow v w
  have hv : v.distinctKeys = true := by decide +kernel
  have hline : Rearranged (.object line) (.object (("note", .list [.null]) :: line.reverse)) := by
    have hidle : ∀ m ∈ [("note", Json.list [.null])], Idle line m.1 := by
      intro m hm
      rw [List.mem_singleton.1 hm]
      exact ⟨"line", by decide, rfl, by decide⟩
    exact .object hidle (List.reverse_perm (line ++ [("note", .list [.null])])).symm
  have hstar : Rearranged (.object star) (.object star.reverse) :=
    @Rearranged.object star [] star.reverse nofun (List.reverse_perm star).symm
  have h : Rearranged v w :=
    @Rearranged.glow [("kind", .text "glow")] [] [] _ _ _ rfl (.cons hline (.cons hstar .nil))
      nofun (List.reverse_perm (glow _)).symm
  exact ⟨hv, h, (ofJson_ignores_arrangement hv h).1.trans rfl⟩

end Command

end Linework
