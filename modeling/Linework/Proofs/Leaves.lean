import Linework.Compiler

/-!
# The leaves of a forest

A list of commands is a forest, and its leaves are the commands that are no glow
scopes. Read from left to right, each scope replaced by what it holds, they are
the order in which a picture is drawn. `leavesOf` lists them together with where
they stand: the index at the top level, then the index in each scope around.

A leaf has everything it needs for being drawn: the settings, the command itself,
and whether any scope stands around it. `Leaf.primitives` is that picture, said
one shape at a time and without a drawing in the making. A leaf may also be at
fault. There are two ways, both of them polygons without a vertex:
`Command.IsVoidFor` lists them with the words for each, and `Command.fault?` finds
them.

`Command.OccursIn` says that a command stands somewhere in a forest without
saying where. `Command.exists_mem_leavesOf_iff` ties it to the list of leaves.
-/

namespace Linework

/-! ## Where leaves stand -/

/-- A command other than a glow, at its place in a forest. -/
structure Leaf where
  /-- Its index at the top level, then its index in each glow around it. -/
  path : List Nat
  /-- The command. -/
  command : Command

namespace Leaf

/-- How many glow scopes stand around a leaf: the path has an index for each of
them, and one for the top level. -/
def scopes (l : Leaf) : Nat := l.path.length - 1

/-- Whether a leaf has a glow around it. -/
def inGlow (l : Leaf) : Bool := 0 < l.scopes

theorem inGlow_eq (l : Leaf) : l.inGlow = decide (1 < l.path.length) := by
  rw [inGlow, scopes]
  exact decide_eq_decide.2 Nat.lt_sub_iff_add_lt

end Leaf

namespace Command

/-- Whether a command is a glow scope. -/
def isGlow : Command → Bool
  | .glow _ => true
  | _ => false

mutual

/-- The leaves of a command that stands at a path. -/
def leaves (path : List Nat) : Command → List Leaf
  | .glow children => leavesFrom path 0 children
  | .line a b color => [⟨path, .line a b color⟩]
  | .rect pos size color => [⟨path, .rect pos size color⟩]
  | .polygon form color => [⟨path, .polygon form color⟩]
  | .circle center radius color => [⟨path, .circle center radius color⟩]
  | .ellipse center radii color => [⟨path, .ellipse center radii color⟩]
  | .unknown => [⟨path, .unknown⟩]

/-- The leaves of commands inside the scope of a path, of which the first has
index `i`. -/
def leavesFrom (path : List Nat) : Nat → List Command → List Leaf
  | _, [] => []
  | i, c :: cs => leaves (path ++ [i]) c ++ leavesFrom path (i + 1) cs

end

/-- The leaves of a forest, in the order they are drawn. -/
def leavesOf (cs : List Command) : List Leaf := leavesFrom [] 0 cs

theorem leaves_of_not_isGlow {c : Command} (h : c.isGlow = false) (path : List Nat) :
    c.leaves path = [⟨path, c⟩] := by
  cases c with
  | glow children => simp [isGlow] at h
  | line _ _ _ => rw [leaves]
  | rect _ _ _ => rw [leaves]
  | polygon _ _ => rw [leaves]
  | circle _ _ _ => rw [leaves]
  | ellipse _ _ _ => rw [leaves]
  | unknown => rw [leaves]

/-- A command stands somewhere in a forest, at the top level or inside any number
of scopes. -/
inductive OccursIn (c : Command) : List Command → Prop where
  /-- It is the first one. -/
  | head (cs : List Command) : OccursIn c (c :: cs)
  /-- It stands inside the first one. -/
  | inside {children : List Command} (cs : List Command) :
    OccursIn c children → OccursIn c (.glow children :: cs)
  /-- It comes after the first one. -/
  | tail (c' : Command) {cs : List Command} : OccursIn c cs → OccursIn c (c' :: cs)

mutual

theorem occursIn_of_mem_leaves {l : Leaf} {path : List Nat} (cs : List Command) :
    ∀ c : Command, l ∈ c.leaves path → OccursIn l.command (c :: cs)
  | .glow children, h => by
    rw [leaves] at h
    exact .inside cs (occursIn_of_mem_leavesFrom children h)
  | .line .., h | .rect .., h | .polygon .., h | .circle .., h | .ellipse .., h
  | .unknown, h => by
    rw [leaves_of_not_isGlow rfl, List.mem_singleton] at h
    rw [h]
    exact .head cs

theorem occursIn_of_mem_leavesFrom {l : Leaf} {path : List Nat} {i : Nat} :
    ∀ cs : List Command, l ∈ leavesFrom path i cs → OccursIn l.command cs
  | [], h => by
    rw [leavesFrom] at h
    exact absurd h List.not_mem_nil
  | c :: cs, h => by
    rw [leavesFrom, List.mem_append] at h
    rcases h with h | h
    · exact occursIn_of_mem_leaves cs c h
    · exact .tail c (occursIn_of_mem_leavesFrom cs h)

end

theorem exists_leaf_of_occursIn {c : Command} (hc : c.isGlow = false) {cs : List Command}
    (h : c.OccursIn cs) :
    ∀ (path : List Nat) (i : Nat), ∃ l ∈ leavesFrom path i cs, l.command = c := by
  induction h with
  | head cs =>
    intro path i
    refine ⟨⟨path ++ [i], c⟩, ?_, rfl⟩
    rw [leavesFrom, leaves_of_not_isGlow hc]
    exact List.mem_append_left _ (List.mem_singleton_self _)
  | inside cs _ ih =>
    intro path i
    obtain ⟨l, hl, hlc⟩ := ih (path ++ [i]) 0
    refine ⟨l, ?_, hlc⟩
    rw [leavesFrom, leaves]
    exact List.mem_append_left _ hl
  | tail c' _ ih =>
    intro path i
    obtain ⟨l, hl, hlc⟩ := ih path (i + 1)
    refine ⟨l, ?_, hlc⟩
    rw [leavesFrom]
    exact List.mem_append_right _ hl

/-- **The leaves are the commands of the forest**, the scopes themselves apart. -/
theorem exists_mem_leavesOf_iff {c : Command} (hc : c.isGlow = false) (cs : List Command) :
    (∃ l ∈ leavesOf cs, l.command = c) ↔ c.OccursIn cs := by
  constructor
  · rintro ⟨l, hl, rfl⟩
    exact occursIn_of_mem_leavesFrom cs hl
  · intro h
    exact exists_leaf_of_occursIn hc h [] 0

/-! ## What a leaf draws -/

/-- The packed colour of a command, if it has one. -/
def color? : Command → Option UInt32
  | .line _ _ color => some color
  | .rect _ _ color => some color
  | .polygon _ color => some color
  | .circle _ _ color => some color
  | .ellipse _ _ color => some color
  | .glow _ => none
  | .unknown => none

/-- A command has nothing to draw, for a reason: it is a polygon given without
vertices, or a regular one without sides. -/
inductive IsVoidFor : Command → String → Prop where
  /-- No vertices are given. -/
  | noVertices (color : UInt32) :
    IsVoidFor (.polygon (.points []) color) "a polygon needs at least one vertex"
  /-- There are no sides. -/
  | noSides (center : Point Float32) (radius rotation : Float32) (color : UInt32) :
    IsVoidFor (.polygon (.regular center radius 0 rotation) color)
      "a regular polygon needs at least one side"

/-- The fault of a command that has nothing to draw. -/
def fault? : Command → Option PolygonFault
  | .polygon (.points []) _ => some .noVertices
  | .polygon (.regular _ _ sides _) _ => if sides = 0 then some .noSides else none
  | _ => none

theorem isVoidFor_of_fault? {c : Command} {fault : PolygonFault} (h : c.fault? = some fault) :
    c.IsVoidFor fault.reason := by
  unfold fault? at h
  split at h
  · rw [← Option.some.inj h]
    exact .noVertices _
  · split at h
    · next hsides =>
      rw [← Option.some.inj h, hsides]
      exact .noSides _ _ _ _
    · cases h
  · cases h

theorem exists_fault?_of_isVoidFor {c : Command} {reason : String} (h : c.IsVoidFor reason) :
    ∃ fault, c.fault? = some fault := by
  cases h with
  | noVertices color => exact ⟨.noVertices, rfl⟩
  | noSides center radius rotation color => exact ⟨.noSides, rfl⟩

/-- A command is at fault exactly if it has nothing to draw. -/
theorem fault?_eq_none_iff {c : Command} : c.fault? = none ↔ ∀ reason, ¬ c.IsVoidFor reason := by
  constructor
  · intro h reason hvoid
    obtain ⟨fault, hfault⟩ := exists_fault?_of_isVoidFor hvoid
    rw [h] at hfault
    cases hfault
  · intro h
    cases hfault : c.fault? with
    | none => rfl
    | some fault => exact absurd (isVoidFor_of_fault? hfault) (h _)

theorem IsVoidFor.isGlow_eq {c : Command} {reason : String} (h : c.IsVoidFor reason) :
    c.isGlow = false := by
  cases h with
  | noVertices color => rfl
  | noSides center radius rotation color => rfl

end Command

/-- Vertices and how they are joined, before they are stroked. -/
structure Geometry where
  /-- How the vertices are joined. -/
  topology : Topology
  /-- The vertices, in order. -/
  vertices : List (Point Float32)

namespace Geometry

/-- A single segment. -/
def segment (a b : Point Float32) : Geometry := ⟨.segments, [a, b]⟩

/-- The closed outline through some vertices. Through a single one it is the
segment from that vertex to itself. -/
def closed : List (Point Float32) → Geometry
  | [p] => segment p p
  | ps => ⟨.lineLoop, ps⟩

/-- A geometry, once per stroke. -/
def stroked (strokes : List Stroke) (g : Geometry) : List (Primitive Float32) :=
  strokes.map fun s => ⟨s.width, s.color, g.topology, g.vertices⟩

end Geometry

/-- The strokes of a path of a kind, given whether a glow stands around it. -/
def Glow.strokesWithin (glow : Glow) (inGlow : Bool) (kind : PathKind) (color : UInt32) :
    List Stroke :=
  if inGlow && (kind == .line || glow.everyShape) then
    glow.passes.map fun pass => ⟨pass.width, (Color.ofPacked color).brighten pass.brightness⟩
  else [⟨1.0, .ofPacked color⟩]

namespace Command

/-- Whether a command's path is a single segment or some outline. -/
def pathKind : Command → PathKind
  | .line .. => .line
  | _ => .outline

/-- The geometries of a command, in the order they are drawn. -/
def geometries (settings : Settings) : Command → List Geometry
  | .line start stop _ => [.segment start stop]
  | .rect pos size _ => (boxEdges pos size).map fun (a, b) => .segment a b
  | .polygon (.points ps) _ => [.closed ps]
  | .polygon (.regular center radius sides rotation) _ =>
    [.closed (ngon center radius sides rotation)]
  | .circle center radius _ => [.closed (ngon center radius settings.circleSegments 0)]
  | .ellipse center radii _ =>
    [⟨.lineLoop, Linework.ellipse center radii settings.ellipseSegments⟩]
  | .glow _ => []
  | .unknown => []

/-- **The picture of one command** outside of any drawing: its geometries, each
of them once per stroke. Of the scopes around the command it is only told whether
there are any. -/
def primitives (settings : Settings) (inGlow : Bool) (c : Command) : List (Primitive Float32) :=
  match c.color? with
  | none => []
  | some color =>
    (c.geometries settings).flatMap
      (Geometry.stroked (settings.glow.strokesWithin inGlow c.pathKind color))

/-- The picture of a command with a single geometry. -/
theorem primitives_of_single {settings : Settings} {c : Command} {color : UInt32} {g : Geometry}
    (hcolor : c.color? = some color) (hg : c.geometries settings = [g]) (inGlow : Bool) :
    c.primitives settings inGlow =
      g.stroked (settings.glow.strokesWithin inGlow c.pathKind color) := by
  rw [primitives, hcolor, hg]
  exact List.flatMap_singleton _ _

end Command

namespace Leaf

/-- What a leaf adds to a picture. -/
def primitives (settings : Settings) (l : Leaf) : List (Primitive Float32) :=
  l.command.primitives settings l.inGlow

/-- What is reported about a leaf. -/
def diagnostics (l : Leaf) : List Diagnostic :=
  match l.command with
  | .unknown => [⟨l.path, "unknown", "unrecognized command kind"⟩]
  | _ => []

end Leaf

end Linework
