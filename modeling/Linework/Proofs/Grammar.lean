import Mathlib.Data.List.Forall2
import Linework.Command.Json
import Linework.Proofs.Json.Reader

/-!
# The grammar of commands

Which values stand for which commands can be said without reading anything: this
module says it by inference rules. A value is a known command if it is an object
whose `kind` is one of six names. Any other value is an entry all the same, and
the rule for it looks at nothing but the kind. A known command has fields of its
kind, each of the right type, whatever else the object holds; a glow has a list of
values for each of which there is a rule in turn.

A polygon is where the rules are not a list of alternatives. Its vertices come
first, and only if they are not there, or are no list of points, do the fields of
a regular polygon count.

`Command.Reads` are the rules and `Command.ofJson` is the reader.
`Command.ofJson_eq_ok_iff` says that the two agree on every value. The proof goes
along the value, the reader's recursion, with one lemma for each type of field and
one for each kind of command; a value that no rule covers is refused, since the
reader always gives an answer.
-/

namespace Linework

/-! ## Fields of a type -/

namespace Json

/-- The value is a number, in single precision this one. -/
def IsSingle (v : Json) (x : Float32) : Prop := ∃ n : Number, v = .number n ∧ n.toSingle = x

/-- The value is a whole number of 32 bits. -/
def IsWord (v : Json) (w : UInt32) : Prop := v = .number (.whole w.toNat)

/-- The value is a list of two numbers. -/
def IsPoint (v : Json) (p : Point Float32) : Prop :=
  ∃ x y : Json, v = .list [x, y] ∧ x.IsSingle p.x ∧ y.IsSingle p.y

/-- The value is a list of points. -/
def IsPoints (v : Json) (ps : List (Point Float32)) : Prop :=
  ∃ items, v = .list items ∧ List.Forall₂ IsPoint items ps

/-- Among the members is one of a name, and its value is the one that a relation
asks for. Of several members of the name the last is meant. -/
def HasField {α : Type} (members : List (String × Json)) (name : String)
    (R : Json → α → Prop) (a : α) : Prop :=
  ∃ v, last? name members = some v ∧ R v a

theorem toSingle_eq_ok_iff {v : Json} {x : Float32} : v.toSingle = .ok x ↔ v.IsSingle x := by
  constructor
  · intro h
    cases v with
    | number n => exact ⟨n, rfl, Except.ok.inj h⟩
    | null | bool _ | text _ | list _ | object _ => cases h
  · rintro ⟨n, rfl, rfl⟩
    rfl

theorem toWord_eq_ok_iff {v : Json} {w : UInt32} : v.toWord = .ok w ↔ v.IsWord w := by
  constructor
  · intro h
    cases v with
    | number n =>
      cases n with
      | real x => cases h
      | whole n =>
        rw [toWord, Number.toWord, Number.toCount] at h
        split at h
        · next hn =>
          have hw : UInt32.ofNat n.toNat = w := Except.ok.inj h
          have hlt : n.toNat < UInt32.size := by
            have : (UInt32.size : Int) = 4294967296 := rfl
            omega
          rw [IsWord, ← hw, UInt32.toNat_ofNat_of_lt' hlt, Int.toNat_of_nonneg hn.1]
        · cases h
    | null | bool _ | text _ | list _ | object _ => cases h
  · intro h
    have hrange : (0 : Int) ≤ w.toNat ∧ (w.toNat : Int) ≤ (0xffffffff : Nat) := by
      have := w.toNat_lt
      omega
    rw [h, toWord, Number.toWord, Number.toCount, if_pos hrange]
    show Except.ok (UInt32.ofNat (w.toNat : Int).toNat) = _
    rw [Int.toNat_natCast, UInt32.ofNat_toNat]

theorem toPoint_eq_ok_iff {v : Json} {p : Point Float32} : v.toPoint = .ok p ↔ v.IsPoint p := by
  constructor
  · intro h
    unfold toPoint at h
    split at h
    · cases h
    · obtain ⟨_, -, h⟩ := bind_eq_ok_iff.1 h
      cases h
    · next x y more =>
      obtain ⟨a, ha, h⟩ := bind_eq_ok_iff.1 h
      obtain ⟨b, hb, h⟩ := bind_eq_ok_iff.1 h
      split at h
      · next hmore =>
        rw [List.isEmpty_iff.1 hmore, ← Except.ok.inj h]
        exact ⟨x, y, rfl, toSingle_eq_ok_iff.1 ha, toSingle_eq_ok_iff.1 hb⟩
      · cases h
    · cases h
  · rintro ⟨x, y, rfl, hx, hy⟩
    rw [toPoint, toSingle_eq_ok_iff.2 hx, toSingle_eq_ok_iff.2 hy]
    rfl

theorem mapM_toPoint_eq_ok_iff {items : List Json} {ps : List (Point Float32)} :
    items.mapM toPoint = .ok ps ↔ List.Forall₂ IsPoint items ps := by
  induction items generalizing ps with
  | nil =>
    rw [List.mapM_nil, List.forall₂_nil_left_iff]
    exact ⟨fun h => (Except.ok.inj h).symm, fun h => h ▸ rfl⟩
  | cons v items ih =>
    rw [List.mapM_cons, bind_eq_ok_iff, List.forall₂_cons_left_iff]
    constructor
    · rintro ⟨p, hp, h⟩
      obtain ⟨qs, hqs, h⟩ := bind_eq_ok_iff.1 h
      exact ⟨p, qs, toPoint_eq_ok_iff.1 hp, ih.1 hqs, (Except.ok.inj h).symm⟩
    · rintro ⟨p, qs, hp, hqs, rfl⟩
      exact ⟨p, toPoint_eq_ok_iff.2 hp, bind_eq_ok_iff.2 ⟨qs, ih.2 hqs, rfl⟩⟩

theorem toPoints_eq_ok_iff {v : Json} {ps : List (Point Float32)} :
    v.toPoints = .ok ps ↔ v.IsPoints ps := by
  constructor
  · intro h
    cases v with
    | list items => exact ⟨items, rfl, mapM_toPoint_eq_ok_iff.1 h⟩
    | null | bool _ | number n | text _ | object _ => cases h
  · rintro ⟨items, rfl, h⟩
    exact mapM_toPoint_eq_ok_iff.2 h

end Json

open Json

section Fields

variable {α : Type} {read : Json → Except Mismatch α} {R : Json → α → Prop}
  (members : List (String × Json)) (name : String)

theorem given_eq_ok_some_iff (hread : ∀ {v a}, read v = .ok a ↔ R v a) {a : α} :
    given name read members = .ok (some a) ↔ HasField members name R a := by
  rw [given, HasField]
  cases last? name members with
  | none => simp
  | some v =>
    dsimp only
    rw [bind_eq_ok_iff]
    constructor
    · rintro ⟨b, hb, h⟩
      cases Except.ok.inj h
      exact ⟨v, rfl, hread.1 hb⟩
    · rintro ⟨w, hw, ha⟩
      cases hw
      exact ⟨a, hread.2 ha, rfl⟩

theorem given_toSingle_iff {x : Float32} :
    given name toSingle members = .ok (some x) ↔ HasField members name IsSingle x :=
  given_eq_ok_some_iff members name toSingle_eq_ok_iff

theorem given_toWord_iff {w : UInt32} :
    given name toWord members = .ok (some w) ↔ HasField members name IsWord w :=
  given_eq_ok_some_iff members name toWord_eq_ok_iff

theorem given_toPoint_iff {p : Point Float32} :
    given name toPoint members = .ok (some p) ↔ HasField members name IsPoint p :=
  given_eq_ok_some_iff members name toPoint_eq_ok_iff

theorem needed_eq_ok_iff {o : Option α} {a : α} : needed name o = .ok a ↔ o = some a := by
  cases o with
  | none => simp [needed]
  | some b => simp [needed]

/-- Three independent steps succeed exactly if each does. -/
theorem bind₃_eq_ok_iff {ε α β γ δ : Type} {x : Except ε α} {y : Except ε β} {z : Except ε γ}
    {f : α → β → γ → Except ε δ} {d : δ} :
    (x >>= fun a => y >>= fun b => z >>= fun c => f a b c) = .ok d ↔
      ∃ a b c, x = .ok a ∧ y = .ok b ∧ z = .ok c ∧ f a b c = .ok d := by
  constructor
  · intro h
    obtain ⟨a, ha, h⟩ := bind_eq_ok_iff.1 h
    obtain ⟨b, hb, h⟩ := bind_eq_ok_iff.1 h
    obtain ⟨c, hc, h⟩ := bind_eq_ok_iff.1 h
    exact ⟨a, b, c, ha, hb, hc, h⟩
  · rintro ⟨a, b, c, rfl, rfl, rfl, h⟩
    exact h

/-- Three fields that must have been given. -/
theorem needed₃_eq_ok_iff {α β γ δ : Type} {n n' n'' : String} {a : Option α} {b : Option β}
    {c : Option γ} {make : α → β → γ → δ} {d : δ} :
    (do return make (← needed n a) (← needed n' b) (← needed n'' c)) = Except.ok d ↔
      ∃ x y z, a = some x ∧ b = some y ∧ c = some z ∧ d = make x y z := by
  rw [bind₃_eq_ok_iff]
  constructor
  · rintro ⟨x, y, z, hx, hy, hz, h⟩
    rw [needed_eq_ok_iff] at hx hy hz
    exact ⟨x, y, z, hx, hy, hz, (Except.ok.inj h).symm⟩
  · rintro ⟨x, y, z, rfl, rfl, rfl, rfl⟩
    exact ⟨x, y, z, rfl, rfl, rfl, rfl⟩

end Fields

/-! ## The rules -/

/-- The names of the kinds there are. -/
def Command.knownKinds : List String := ["line", "rect", "polygon", "circle", "ellipse", "glow"]

/-- The value is an object whose kind is one of those there are. -/
def Command.IsKnown (v : Json) : Prop :=
  ∃ members kind, v = .object members ∧ last? "kind" members = some (.text kind) ∧
    kind ∈ knownKinds

/-- The form of a polygon that some members give. -/
inductive PolygonForm.Reads (members : List (String × Json)) : PolygonForm → Prop where
  /-- By vertices. -/
  | points {ps : List (Point Float32)} :
    HasField members "points" IsPoints ps → Reads members (.points ps)
  /-- As a regular one, if it is not given by vertices. -/
  | regular {center : Point Float32} {radius : Float32} {sides : UInt32} {rotation : Float32} :
    (∀ ps, ¬ HasField members "points" IsPoints ps) →
    HasField members "center" IsPoint center →
    HasField members "radius" IsSingle radius →
    HasField members "sides" IsWord sides →
    HasField members "rotation" IsSingle rotation ∨
      last? "rotation" members = none ∧ rotation = 0 →
    Reads members (.regular center radius sides rotation)

namespace Command

mutual

/-- **The grammar of commands**: which command a value stands for. -/
inductive Reads : Json → Command → Prop where
  /-- An entry of no known kind. Nothing else about it matters. -/
  | unknown {v : Json} : ¬ IsKnown v → Reads v .unknown
  /-- A segment. -/
  | line {members : List (String × Json)} {start stop : Point Float32} {color : UInt32} :
    last? "kind" members = some (.text "line") →
    HasField members "start" IsPoint start →
    HasField members "end" IsPoint stop →
    HasField members "color" IsWord color →
    Reads (.object members) (.line start stop color)
  /-- A rectangle. -/
  | rect {members : List (String × Json)} {pos size : Point Float32} {color : UInt32} :
    last? "kind" members = some (.text "rect") →
    HasField members "pos" IsPoint pos →
    HasField members "size" IsPoint size →
    HasField members "color" IsWord color →
    Reads (.object members) (.rect pos size color)
  /-- A polygon. -/
  | polygon {members : List (String × Json)} {form : PolygonForm} {color : UInt32} :
    last? "kind" members = some (.text "polygon") →
    HasField members "color" IsWord color →
    form.Reads members →
    Reads (.object members) (.polygon form color)
  /-- A circle. -/
  | circle {members : List (String × Json)} {center : Point Float32} {radius : Float32}
      {color : UInt32} :
    last? "kind" members = some (.text "circle") →
    HasField members "center" IsPoint center →
    HasField members "radius" IsSingle radius →
    HasField members "color" IsWord color →
    Reads (.object members) (.circle center radius color)
  /-- An ellipse. -/
  | ellipse {members : List (String × Json)} {center radii : Point Float32} {color : UInt32} :
    last? "kind" members = some (.text "ellipse") →
    HasField members "center" IsPoint center →
    HasField members "radii" IsPoint radii →
    HasField members "color" IsWord color →
    Reads (.object members) (.ellipse center radii color)
  /-- A glow, whose children are entries again. -/
  | glow {members : List (String × Json)} {items : List Json} {children : List Command} :
    last? "kind" members = some (.text "glow") →
    last? "children" members = some (.list items) →
    ReadsAll items children →
    Reads (.object members) (.glow children)

/-- Values stand for commands one by one. -/
inductive ReadsAll : List Json → List Command → Prop where
  /-- There are none. -/
  | nil : ReadsAll [] []
  /-- The first one does, and so do the others. -/
  | cons {v : Json} {c : Command} {vs : List Json} {cs : List Command} :
    Reads v c → ReadsAll vs cs → ReadsAll (v :: vs) (c :: cs)

end

/-! ## One kind at a time -/

variable {members : List (String × Json)} {c : Command}

theorem lineOf_eq_ok_iff :
    lineOf members = .ok c ↔
      ∃ start stop color, HasField members "start" IsPoint start ∧
        HasField members "end" IsPoint stop ∧ HasField members "color" IsWord color ∧
        c = .line start stop color := by
  rw [lineOf, bind₃_eq_ok_iff]
  constructor
  · rintro ⟨color, stop, start, hcolor, hstop, hstart, h⟩
    obtain ⟨a, b, w, rfl, rfl, rfl, hc⟩ := needed₃_eq_ok_iff.1 h
    exact ⟨a, b, w, (given_toPoint_iff ..).1 hstart, (given_toPoint_iff ..).1 hstop,
      (given_toWord_iff ..).1 hcolor, hc⟩
  · rintro ⟨a, b, w, ha, hb, hw, rfl⟩
    exact ⟨some w, some b, some a, (given_toWord_iff ..).2 hw, (given_toPoint_iff ..).2 hb,
      (given_toPoint_iff ..).2 ha, rfl⟩

theorem rectOf_eq_ok_iff :
    rectOf members = .ok c ↔
      ∃ pos size color, HasField members "pos" IsPoint pos ∧
        HasField members "size" IsPoint size ∧ HasField members "color" IsWord color ∧
        c = .rect pos size color := by
  rw [rectOf, bind₃_eq_ok_iff]
  constructor
  · rintro ⟨color, pos, size, hcolor, hpos, hsize, h⟩
    obtain ⟨p, q, w, rfl, rfl, rfl, hc⟩ := needed₃_eq_ok_iff.1 h
    exact ⟨p, q, w, (given_toPoint_iff ..).1 hpos, (given_toPoint_iff ..).1 hsize,
      (given_toWord_iff ..).1 hcolor, hc⟩
  · rintro ⟨p, q, w, hp, hq, hw, rfl⟩
    exact ⟨some w, some p, some q, (given_toWord_iff ..).2 hw, (given_toPoint_iff ..).2 hp,
      (given_toPoint_iff ..).2 hq, rfl⟩

theorem circleOf_eq_ok_iff :
    circleOf members = .ok c ↔
      ∃ center radius color, HasField members "center" IsPoint center ∧
        HasField members "radius" IsSingle radius ∧ HasField members "color" IsWord color ∧
        c = .circle center radius color := by
  rw [circleOf, bind₃_eq_ok_iff]
  constructor
  · rintro ⟨center, color, radius, hcenter, hcolor, hradius, h⟩
    obtain ⟨p, r, w, rfl, rfl, rfl, hc⟩ := needed₃_eq_ok_iff.1 h
    exact ⟨p, r, w, (given_toPoint_iff ..).1 hcenter, (given_toSingle_iff ..).1 hradius,
      (given_toWord_iff ..).1 hcolor, hc⟩
  · rintro ⟨p, r, w, hp, hr, hw, rfl⟩
    exact ⟨some p, some w, some r, (given_toPoint_iff ..).2 hp, (given_toWord_iff ..).2 hw,
      (given_toSingle_iff ..).2 hr, rfl⟩

theorem ellipseOf_eq_ok_iff :
    ellipseOf members = .ok c ↔
      ∃ center radii color, HasField members "center" IsPoint center ∧
        HasField members "radii" IsPoint radii ∧ HasField members "color" IsWord color ∧
        c = .ellipse center radii color := by
  rw [ellipseOf, bind₃_eq_ok_iff]
  constructor
  · rintro ⟨center, color, radii, hcenter, hcolor, hradii, h⟩
    obtain ⟨p, q, w, rfl, rfl, rfl, hc⟩ := needed₃_eq_ok_iff.1 h
    exact ⟨p, q, w, (given_toPoint_iff ..).1 hcenter, (given_toPoint_iff ..).1 hradii,
      (given_toWord_iff ..).1 hcolor, hc⟩
  · rintro ⟨p, q, w, hp, hq, hw, rfl⟩
    exact ⟨some p, some w, some q, (given_toPoint_iff ..).2 hp, (given_toWord_iff ..).2 hw,
      (given_toPoint_iff ..).2 hq, rfl⟩

end Command

namespace PolygonForm

variable {members : List (String × Json)} {form : PolygonForm}

/-- A field that may not be left out, where failing means there is none. -/
theorem field_bind_eq_some_iff {α β : Type} {read : Json → Except Mismatch α}
    {R : Json → α → Prop} (hread : ∀ {v a}, read v = .ok a ↔ R v a) {name : String}
    {f : α → Option β} {b : β} :
    (last? name members >>= fun v => (read v).toOption >>= f) = some b ↔
      ∃ a, HasField members name R a ∧ f a = some b := by
  constructor
  · intro h
    obtain ⟨v, hv, h⟩ := Option.bind_eq_some_iff.1 h
    obtain ⟨a, ha, h⟩ := Option.bind_eq_some_iff.1 h
    exact ⟨a, ⟨v, hv, hread.1 (toOption_eq_some_iff.1 ha)⟩, h⟩
  · rintro ⟨a, ⟨v, hv, ha⟩, h⟩
    refine Option.bind_eq_some_iff.2 ⟨v, hv, Option.bind_eq_some_iff.2 ⟨a, ?_, h⟩⟩
    exact toOption_eq_some_iff.2 (hread.2 ha)

theorem points?_eq_some_iff :
    points? (fun name => some (last? name members)) = some form ↔
      ∃ ps, HasField members "points" IsPoints ps ∧ form = .points ps := by
  refine (field_bind_eq_some_iff toPoints_eq_ok_iff).trans (exists_congr fun ps => ?_)
  exact and_congr_right fun _ => ⟨fun h => (Option.some.inj h).symm, fun h => congrArg some h.symm⟩

/-- The one field that may be left out. -/
theorem rotation_bind_eq_some_iff {β : Type} {f : Float32 → Option β} {b : β} :
    (match last? "rotation" members with
      | none => some 0 >>= f
      | some v => v.toSingle.toOption >>= f) = some b ↔
      ∃ rotation, (HasField members "rotation" IsSingle rotation ∨
        last? "rotation" members = none ∧ rotation = 0) ∧ f rotation = some b := by
  cases hv : last? "rotation" members with
  | none =>
    constructor
    · intro h
      exact ⟨0, .inr ⟨rfl, rfl⟩, h⟩
    · rintro ⟨rotation, ⟨v, hv', -⟩ | ⟨-, rfl⟩, h⟩
      · rw [hv] at hv'
        cases hv'
      · exact h
  | some v =>
    constructor
    · intro h
      obtain ⟨x, hx, h⟩ := Option.bind_eq_some_iff.1 h
      exact ⟨x, .inl ⟨v, hv, toSingle_eq_ok_iff.1 (toOption_eq_some_iff.1 hx)⟩, h⟩
    · rintro ⟨rotation, ⟨w, hw, hx⟩ | ⟨hnone, -⟩, h⟩
      · rw [hv] at hw
        cases hw
        refine Option.bind_eq_some_iff.2 ⟨rotation, ?_, h⟩
        exact toOption_eq_some_iff.2 (toSingle_eq_ok_iff.2 hx)
      · cases hnone

theorem regular?_eq_some_iff :
    regular? (fun name => some (last? name members)) = some form ↔
      ∃ center radius sides rotation, HasField members "center" IsPoint center ∧
        HasField members "radius" IsSingle radius ∧ HasField members "sides" IsWord sides ∧
        (HasField members "rotation" IsSingle rotation ∨
          last? "rotation" members = none ∧ rotation = 0) ∧
        form = .regular center radius sides rotation := by
  constructor
  · intro h
    obtain ⟨center, hcenter, h⟩ := (field_bind_eq_some_iff toPoint_eq_ok_iff).1 h
    obtain ⟨radius, hradius, h⟩ := (field_bind_eq_some_iff toSingle_eq_ok_iff).1 h
    obtain ⟨sides, hsides, h⟩ := (field_bind_eq_some_iff toWord_eq_ok_iff).1 h
    obtain ⟨rotation, hrotation, h⟩ := rotation_bind_eq_some_iff.1 h
    exact ⟨center, radius, sides, rotation, hcenter, hradius, hsides, hrotation,
      (Option.some.inj h).symm⟩
  · rintro ⟨center, radius, sides, rotation, hcenter, hradius, hsides, hrotation, rfl⟩
    refine (field_bind_eq_some_iff toPoint_eq_ok_iff).2 ⟨center, hcenter, ?_⟩
    refine (field_bind_eq_some_iff toSingle_eq_ok_iff).2 ⟨radius, hradius, ?_⟩
    refine (field_bind_eq_some_iff toWord_eq_ok_iff).2 ⟨sides, hsides, ?_⟩
    exact rotation_bind_eq_some_iff.2 ⟨rotation, hrotation, rfl⟩

theorem points?_eq_none_iff :
    points? (fun name => some (last? name members)) = none ↔
      ∀ ps, ¬ HasField members "points" IsPoints ps := by
  constructor
  · intro h ps hps
    rw [points?_eq_some_iff.2 ⟨ps, hps, rfl⟩] at h
    cases h
  · intro h
    refine Option.eq_none_iff_forall_ne_some.2 fun form hform => ?_
    obtain ⟨ps, hps, -⟩ := points?_eq_some_iff.1 hform
    exact h ps hps

/-- **Vertices first**: a regular polygon is read only if there are none. -/
theorem ofFields_eq_ok_iff :
    ofFields (fun name => some (last? name members)) = .ok form ↔ form.Reads members := by
  have hfirst : ∀ field, ofFields field = .ok form ↔
      points? field = some form ∨ points? field = none ∧ regular? field = some form := by
    intro field
    rw [ofFields]
    cases points? field <;> cases regular? field <;> simp
  rw [hfirst, points?_eq_some_iff, points?_eq_none_iff, regular?_eq_some_iff]
  constructor
  · rintro (⟨ps, hps, rfl⟩ |
      ⟨hnone, center, radius, sides, rotation, hcenter, hradius, hsides, hrotation, rfl⟩)
    · exact .points hps
    · exact .regular hnone hcenter hradius hsides hrotation
  · intro h
    cases h with
    | points hps => exact .inl ⟨_, hps, rfl⟩
    | regular hnone hcenter hradius hsides hrotation =>
      exact .inr ⟨hnone, _, _, _, _, hcenter, hradius, hsides, hrotation, rfl⟩

end PolygonForm

namespace Command

variable {members : List (String × Json)} {c : Command}

theorem polygonOf_eq_ok_iff :
    polygonOf members = .ok c ↔
      ∃ form color, HasField members "color" IsWord color ∧ form.Reads members ∧
        c = .polygon form color := by
  rw [polygonOf]
  constructor
  · intro h
    obtain ⟨color, hcolor, h⟩ := bind_eq_ok_iff.1 h
    obtain ⟨w, hw, h⟩ := bind_eq_ok_iff.1 h
    obtain ⟨form, hform, h⟩ := bind_eq_ok_iff.1 h
    rw [needed_eq_ok_iff] at hw
    rw [hw] at hcolor
    exact ⟨form, w, (given_toWord_iff ..).1 hcolor, PolygonForm.ofFields_eq_ok_iff.1 hform,
      (Except.ok.inj h).symm⟩
  · rintro ⟨form, color, hcolor, hform, rfl⟩
    refine bind_eq_ok_iff.2 ⟨some color, (given_toWord_iff ..).2 hcolor, ?_⟩
    refine bind_eq_ok_iff.2 ⟨color, rfl, ?_⟩
    exact bind_eq_ok_iff.2 ⟨form, PolygonForm.ofFields_eq_ok_iff.2 hform, rfl⟩

/-! ## The reader and the rules agree -/

/-- The children are those of the last member of that name. -/
theorem childrenOf_eq (members : List (String × Json)) :
    childrenOf members = (last? "children" members).map commandsOf := by
  induction members with
  | nil => rw [childrenOf]; rfl
  | cons m rest ih =>
    obtain ⟨key, v⟩ := m
    rw [childrenOf, ih, last?]
    cases last? "children" rest with
    | some w => rfl
    | none =>
      by_cases hkey : key = "children"
      · rw [if_pos hkey]
        simp [hkey]
      · simp [hkey]

/-- A value of no known kind is an entry, whatever it holds. -/
theorem ofJson_of_not_isKnown {v : Json} (h : ¬ IsKnown v) : ofJson v = .ok .unknown := by
  cases v with
  | object members =>
    rw [ofJson]
    split
    iterate 6
      next hkind => exact absurd ⟨members, _, rfl, hkind, by decide⟩ h
    rfl
  | null | bool _ | number _ | text _ | list _ => simp [ofJson]

/-- A value of no known kind is read by the first rule and no other. -/
theorem unknown_iff {v : Json} (h : ¬ IsKnown v) : ofJson v = .ok c ↔ Reads v c := by
  rw [ofJson_of_not_isKnown h]
  constructor
  · intro hc
    rw [← Except.ok.inj hc]
    exact .unknown h
  · intro hreads
    have hkind : ∀ {members kind}, v = .object members →
        last? "kind" members = some (.text kind) → kind ∉ knownKinds :=
      fun hv hk hmem => h ⟨_, _, hv, hk, hmem⟩
    cases hreads with
    | unknown _ => rfl
    | line hk => exact absurd (by decide) (hkind rfl hk)
    | rect hk => exact absurd (by decide) (hkind rfl hk)
    | polygon hk => exact absurd (by decide) (hkind rfl hk)
    | circle hk => exact absurd (by decide) (hkind rfl hk)
    | ellipse hk => exact absurd (by decide) (hkind rfl hk)
    | glow hk => exact absurd (by decide) (hkind rfl hk)

/-- An object is one of the six kinds of command, and which lists its children
stand for is left open. -/
def OfKind (members : List (String × Json)) (childrenAre : List Command → Prop) (c : Command) :
    Prop :=
  (last? "kind" members = some (.text "line") ∧ lineOf members = .ok c) ∨
  (last? "kind" members = some (.text "rect") ∧ rectOf members = .ok c) ∨
  (last? "kind" members = some (.text "polygon") ∧ polygonOf members = .ok c) ∨
  (last? "kind" members = some (.text "circle") ∧ circleOf members = .ok c) ∨
  (last? "kind" members = some (.text "ellipse") ∧ ellipseOf members = .ok c) ∨
  (last? "kind" members = some (.text "glow") ∧
    ∃ children, childrenAre children ∧ c = .glow children)

/-- What the rules say of an object of a known kind. -/
theorem reads_object_iff (h : IsKnown (.object members)) :
    Reads (.object members) c ↔
      OfKind members (fun children => ∃ items, last? "children" members = some (.list items) ∧
        ReadsAll items children) c := by
  rw [OfKind, lineOf_eq_ok_iff, rectOf_eq_ok_iff, polygonOf_eq_ok_iff, circleOf_eq_ok_iff,
    ellipseOf_eq_ok_iff]
  constructor
  · intro hreads
    cases hreads with
    | unknown hnot => exact absurd h hnot
    | line hkind hstart hstop hcolor => exact .inl ⟨hkind, _, _, _, hstart, hstop, hcolor, rfl⟩
    | rect hkind hpos hsize hcolor =>
      exact .inr (.inl ⟨hkind, _, _, _, hpos, hsize, hcolor, rfl⟩)
    | polygon hkind hcolor hform => exact .inr (.inr (.inl ⟨hkind, _, _, hcolor, hform, rfl⟩))
    | circle hkind hcenter hradius hcolor =>
      exact .inr (.inr (.inr (.inl ⟨hkind, _, _, _, hcenter, hradius, hcolor, rfl⟩)))
    | ellipse hkind hcenter hradii hcolor =>
      exact .inr (.inr (.inr (.inr (.inl ⟨hkind, _, _, _, hcenter, hradii, hcolor, rfl⟩))))
    | glow hkind hchildren hall =>
      exact .inr (.inr (.inr (.inr (.inr ⟨hkind, _, ⟨_, hchildren, hall⟩, rfl⟩))))
  · rintro (⟨hkind, start, stop, color, hstart, hstop, hcolor, rfl⟩ |
      ⟨hkind, pos, size, color, hpos, hsize, hcolor, rfl⟩ |
      ⟨hkind, form, color, hcolor, hform, rfl⟩ |
      ⟨hkind, center, radius, color, hcenter, hradius, hcolor, rfl⟩ |
      ⟨hkind, center, radii, color, hcenter, hradii, hcolor, rfl⟩ |
      ⟨hkind, children, ⟨items, hchildren, hall⟩, rfl⟩)
    · exact .line hkind hstart hstop hcolor
    · exact .rect hkind hpos hsize hcolor
    · exact .polygon hkind hcolor hform
    · exact .circle hkind hcenter hradius hcolor
    · exact .ellipse hkind hcenter hradii hcolor
    · exact .glow hkind hchildren hall

/-- What the reader makes of the children of a glow. -/
theorem glow_bind_eq_ok_iff {children : Option (Except Mismatch (List Command))} :
    (match children with
      | none => Except.error (Mismatch.missingField "children")
      | some children => do return Command.glow (← children)) = .ok c ↔
      ∃ cs, children = some (.ok cs) ∧ c = .glow cs := by
  cases children with
  | none => simp
  | some children =>
    dsimp only
    rw [bind_eq_ok_iff]
    constructor
    · rintro ⟨cs, rfl, h⟩
      exact ⟨cs, rfl, (Except.ok.inj h).symm⟩
    · rintro ⟨cs, h, rfl⟩
      exact ⟨cs, Option.some.inj h, rfl⟩

/-- What the reader makes of an object of a known kind. -/
theorem ofJson_object_iff (h : IsKnown (.object members)) :
    ofJson (.object members) = .ok c ↔
      OfKind members (fun children => ∃ v, last? "children" members = some v ∧
        commandsOf v = .ok children) c := by
  obtain ⟨members', kind, heq, hkind, hknown⟩ := h
  cases heq
  have hchildren : ∀ cs, childrenOf members = some (.ok cs) ↔
      ∃ v, last? "children" members = some v ∧ commandsOf v = .ok cs := by
    intro cs
    rw [childrenOf_eq, Option.map_eq_some_iff]
  rw [ofJson, OfKind, hkind]
  simp only [knownKinds, List.mem_cons, List.not_mem_nil, or_false] at hknown
  rcases hknown with rfl | rfl | rfl | rfl | rfl | rfl
  · simp
  · simp
  · simp
  · simp
  · simp
  · refine glow_bind_eq_ok_iff.trans ?_
    simp [hchildren]

theorem mem_of_last? {name : String} {v : Json} {members : List (String × Json)}
    (h : last? name members = some v) : (name, v) ∈ members := by
  induction members with
  | nil => cases h
  | cons m rest ih =>
    obtain ⟨key, w⟩ := m
    rw [last?] at h
    cases hrest : last? name rest with
    | some u =>
      rw [hrest] at h
      exact List.mem_cons_of_mem _ (ih (hrest.trans h))
    | none =>
      rw [hrest] at h
      dsimp only at h
      split at h
      · next hkey =>
        rw [← Option.some.inj h, hkey]
        exact List.mem_cons_self
      · cases h

mutual

/-- **The reader agrees with the grammar.** -/
theorem ofJson_eq_ok_iff : ∀ (v : Json) {c : Command}, ofJson v = .ok c ↔ Reads v c
  | .object members, c => by
    by_cases hknown : IsKnown (.object members)
    · rw [ofJson_object_iff hknown, reads_object_iff hknown]
      have hchildren : ∀ children,
          (∃ v, last? "children" members = some v ∧ commandsOf v = .ok children) ↔
            ∃ items, last? "children" members = some (.list items) ∧ ReadsAll items children := by
        intro children
        constructor
        · rintro ⟨v, hv, h⟩
          obtain ⟨items, rfl, hall⟩ :=
            (commandsOf_member_iff members _ (mem_of_last? hv)).1 h
          exact ⟨items, hv, hall⟩
        · rintro ⟨items, hv, hall⟩
          exact ⟨_, hv, (commandsOf_member_iff members _ (mem_of_last? hv)).2 ⟨items, rfl, hall⟩⟩
      rw [OfKind, OfKind, exists_congr fun children => and_congr_left fun _ => hchildren children]
    · exact unknown_iff hknown
  | .null, c => unknown_iff (by rintro ⟨_, _, h, _⟩; cases h)
  | .bool _, c => unknown_iff (by rintro ⟨_, _, h, _⟩; cases h)
  | .number _, c => unknown_iff (by rintro ⟨_, _, h, _⟩; cases h)
  | .text _, c => unknown_iff (by rintro ⟨_, _, h, _⟩; cases h)
  | .list _, c => unknown_iff (by rintro ⟨_, _, h, _⟩; cases h)

theorem commandsOf_member_iff : ∀ (members : List (String × Json)) (m : String × Json),
    m ∈ members → ∀ {cs : List Command},
      commandsOf m.2 = .ok cs ↔ ∃ items, m.2 = .list items ∧ ReadsAll items cs
  | (key, v) :: rest, m, hm, cs => by
    rcases List.mem_cons.1 hm with rfl | hm
    · exact commandsOf_eq_ok_iff v
    · exact commandsOf_member_iff rest m hm

theorem commandsOf_eq_ok_iff : ∀ (v : Json) {cs : List Command},
    commandsOf v = .ok cs ↔ ∃ items, v = .list items ∧ ReadsAll items cs
  | .list items, cs => by
    rw [commandsOf, ofItems_eq_ok_iff items]
    constructor
    · intro h
      exact ⟨items, rfl, h⟩
    · rintro ⟨items', h, hall⟩
      cases h
      exact hall
  | .null, cs => by simp [commandsOf]
  | .bool _, cs => by simp [commandsOf]
  | .number _, cs => by simp [commandsOf]
  | .text _, cs => by simp [commandsOf]
  | .object _, cs => by simp [commandsOf]

theorem ofItems_eq_ok_iff : ∀ (items : List Json) {cs : List Command},
    ofItems items = .ok cs ↔ ReadsAll items cs
  | [], cs => by
    rw [ofItems]
    constructor
    · intro h
      rw [← Except.ok.inj h]
      exact .nil
    · intro h
      cases h
      rfl
  | v :: vs, cs => by
    rw [ofItems, bind_eq_ok_iff]
    constructor
    · rintro ⟨c, hc, h⟩
      obtain ⟨cs', hcs, h⟩ := bind_eq_ok_iff.1 h
      rw [← Except.ok.inj h]
      exact .cons ((ofJson_eq_ok_iff v).1 hc) ((ofItems_eq_ok_iff vs).1 hcs)
    · intro h
      cases h with
      | cons hv hvs =>
        exact ⟨_, (ofJson_eq_ok_iff v).2 hv,
          bind_eq_ok_iff.2 ⟨_, (ofItems_eq_ok_iff vs).2 hvs, rfl⟩⟩

end

end Command

end Linework
