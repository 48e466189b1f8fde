import Mathlib.Data.List.Perm.Basic
import Mathlib.Data.Multiset.Bind
import Linework.Proofs.Polygons

/-!
# Rectangles are polygons, edge for edge

A rectangle could be given as the polygon through its four corners. It is not drawn like
one: a polygon is a single loop, stroked as a whole once per pass, while the edges of a
rectangle are segments of their own, and each goes through all passes before the next one
begins. So the two pictures differ as lists of primitives, and if there are several passes
they differ in the order of what is stroked. What they have in common are the edges, each
with its width and colour (`edgesOf`): the same ones, equally often, and in the same order
if there is a single stroke.

The corners are computed in the same way for both, so they are the same to the last bit,
and nothing is asked of the addition. A size may be negative, or not even be a number.

That two loops, one inside the other, may be exchanged is `flatMap_map_perm`. It is used
for a single rectangle (`Command.edgesOf_rect_perm`) and carried from there to all the
rectangles of a forest at once.
-/

namespace Linework

/-! ## Edges as they are stroked -/

/-- The edges of a primitive, each with the width and the colour it is stroked in. -/
def Primitive.strokedEdges {α : Type} (p : Primitive α) :
    List (α × Color × Point α × Point α) :=
  p.edges.map fun e => (p.width, p.color, e)

/-- All edges of some primitives, in the order they are stroked. -/
def edgesOf {α : Type} (ps : List (Primitive α)) : List (α × Color × Point α × Point α) :=
  ps.flatMap (·.strokedEdges)

theorem edgesOf_flatMap {α β : Type} (xs : List β) (f : β → List (Primitive α)) :
    edgesOf (xs.flatMap f) = xs.flatMap fun x => edgesOf (f x) :=
  List.flatMap_assoc

/-- **One loop inside another may be the outer one** as far as it is not about the
order. -/
theorem flatMap_map_perm {α β γ : Type} (f : α → β → γ) (xs : List α) (ys : List β) :
    (xs.flatMap fun x => ys.map (f x)).Perm (ys.flatMap fun y => xs.map (f · y)) := by
  have h := Multiset.bind_map_comm (xs : Multiset α) (ys : Multiset β) (f := f)
  simp only [Multiset.map_coe, Multiset.coe_bind] at h
  exact Multiset.coe_eq_coe.1 h

namespace Geometry

/-- A segment per edge: edge by edge, and for each of them stroke by stroke. -/
theorem edgesOf_segments (strokes : List Stroke) (es : List (Point Float32 × Point Float32)) :
    edgesOf ((es.map fun (a, b) => segment a b).flatMap (stroked strokes)) =
      es.flatMap fun e => strokes.map fun s => (s.width, s.color, e) := by
  rw [edgesOf_flatMap, List.flatMap_map]
  refine List.flatMap_congr fun e _ => ?_
  rw [edgesOf, stroked, List.flatMap_map, List.map_eq_flatMap]
  rfl

/-- A loop: stroke by stroke, and for each of them edge by edge. -/
theorem edgesOf_loop (strokes : List Stroke) (ps : List (Point Float32)) :
    edgesOf (stroked strokes ⟨.lineLoop, ps⟩) =
      strokes.flatMap fun s => (cycle ps).map fun e => (s.width, s.color, e) := by
  rw [edgesOf, stroked, List.flatMap_map]
  rfl

end Geometry

/-! ## One rectangle -/

/-- The corners of a rectangle, in the order they are walked. -/
def boxCorners {α : Type} [Add α] (pos size : Point α) : List (Point α) :=
  [pos, ⟨pos.x + size.x, pos.y⟩, pos + size, ⟨pos.x, pos.y + size.y⟩]

/-- **The edges of a rectangle close a loop through its corners**, in whatever numbers. -/
theorem boxEdges_eq_cycle {α : Type} [Add α] (pos size : Point α) :
    boxEdges pos size = cycle (boxCorners pos size) :=
  rfl

/-- Whether an outline gets one stroke only, given whether a glow stands around it. -/
def Settings.StrokesOnce (settings : Settings) (inGlow : Bool) : Prop :=
  inGlow = false ∨ settings.glow.everyShape = false ∨ settings.glow.passes.length = 1

theorem Settings.StrokesOnce.exists_stroke {settings : Settings} {inGlow : Bool}
    (h : settings.StrokesOnce inGlow) (color : UInt32) :
    ∃ s, settings.glow.strokesWithin inGlow .outline color = [s] := by
  rcases h with h | h | h
  · exact ⟨_, Glow.strokesWithin_of_not (.inl h) color⟩
  · exact ⟨_, Glow.strokesWithin_of_not (.inr ⟨rfl, h⟩) color⟩
  · obtain ⟨pass, hpass⟩ := List.length_eq_one_iff.1 h
    rw [Glow.strokesWithin, hpass]
    split
    · exact ⟨_, rfl⟩
    · exact ⟨_, rfl⟩

namespace Command

variable (settings : Settings) (inGlow : Bool) (pos size : Point Float32) (color : UInt32)

theorem edgesOf_rect :
    edgesOf ((Command.rect pos size color).primitives settings inGlow) =
      (boxEdges pos size).flatMap fun e =>
        (settings.glow.strokesWithin inGlow .outline color).map fun s =>
          (s.width, s.color, e) :=
  Geometry.edgesOf_segments _ _

theorem edgesOf_corners :
    edgesOf ((Command.polygon (.points (boxCorners pos size)) color).primitives settings inGlow) =
      (settings.glow.strokesWithin inGlow .outline color).flatMap fun s =>
        (boxEdges pos size).map fun e => (s.width, s.color, e) := by
  rw [primitives_of_single rfl rfl, boxEdges_eq_cycle]
  exact Geometry.edgesOf_loop _ _

/-- **A rectangle and the polygon through its corners have the same edges**, equally
often. -/
theorem edgesOf_rect_perm :
    (edgesOf ((Command.rect pos size color).primitives settings inGlow)).Perm
      (edgesOf ((Command.polygon (.points (boxCorners pos size)) color).primitives settings
        inGlow)) := by
  rw [edgesOf_rect, edgesOf_corners]
  exact flatMap_map_perm (fun e (s : Stroke) => (s.width, s.color, e)) _ _

/-- With a single stroke they also come in the same order. -/
theorem edgesOf_rect_of_strokesOnce (h : settings.StrokesOnce inGlow) :
    edgesOf ((Command.rect pos size color).primitives settings inGlow) =
      edgesOf ((Command.polygon (.points (boxCorners pos size)) color).primitives settings
        inGlow) := by
  obtain ⟨s, hs⟩ := h.exists_stroke color
  rw [edgesOf_rect, edgesOf_corners, hs, List.flatMap_singleton, List.map_eq_flatMap]
  rfl

/-! ## All rectangles of a forest -/

/-- A rectangle as the polygon through its corners. -/
def rectAsPolygon : Command → Command
  | .rect pos size color => .polygon (.points (boxCorners pos size)) color
  | c => c

/-- Neither a rectangle nor the polygon is a scope or at fault, and neither is reported. -/
theorem rectAsPolygon_keeps (c : Command) :
    (c.isGlow = false → (rectAsPolygon c).isGlow = false) ∧
      (rectAsPolygon c).fault? = c.fault? ∧
      ∀ path, Leaf.diagnostics ⟨path, rectAsPolygon c⟩ = Leaf.diagnostics ⟨path, c⟩ := by
  cases c with
  | rect pos size color => exact ⟨fun _ => rfl, rfl, fun _ => rfl⟩
  | line _ _ _ | polygon _ _ | circle _ _ _ | ellipse _ _ _ | glow _ | unknown =>
    exact ⟨id, rfl, fun _ => rfl⟩

variable {settings inGlow}

theorem edgesOf_rectAsPolygon_perm (c : Command) :
    (edgesOf (c.primitives settings inGlow)).Perm
      (edgesOf ((rectAsPolygon c).primitives settings inGlow)) := by
  cases c with
  | rect pos size color => exact edgesOf_rect_perm settings inGlow pos size color
  | line _ _ _ | polygon _ _ | circle _ _ _ | ellipse _ _ _ | glow _ | unknown => exact .refl _

theorem edgesOf_rectAsPolygon_eq (h : settings.StrokesOnce inGlow) (c : Command) :
    edgesOf (c.primitives settings inGlow) =
      edgesOf ((rectAsPolygon c).primitives settings inGlow) := by
  cases c with
  | rect pos size color => exact edgesOf_rect_of_strokesOnce settings inGlow pos size color h
  | line _ _ _ | polygon _ _ | circle _ _ _ | ellipse _ _ _ | glow _ | unknown => rfl

end Command

namespace Compiler

/-- **The rectangles of a forest may be given as polygons.** If the forest compiles, so it
does then, the same is reported, and the pictures have the same edges, in the same order if
every outline is stroked once. -/
theorem compile_rectAsPolygon (c : Compiler) {cs : List Command} {a : Compiled}
    (h : c.compile cs = .ok a) :
    ∃ b, c.compile (Command.everywhereIn Command.rectAsPolygon cs) = .ok b ∧
      b.diagnostics = a.diagnostics ∧
      (edgesOf a.displayList).Perm (edgesOf b.displayList) ∧
      ((∀ l ∈ Command.leavesOf cs, c.settings.StrokesOnce l.inGlow) →
        edgesOf a.displayList = edgesOf b.displayList) := by
  have hleaves := Command.leavesOf_everywhereIn
    (fun d => (Command.rectAsPolygon_keeps d).1) cs
  obtain ⟨hfault, rfl⟩ := compile_eq_ok_iff.1 h
  have hfault' : firstFault? (Command.leavesOf
      (Command.everywhereIn Command.rectAsPolygon cs)) = none := by
    rw [← hfault]
    refine firstFault?_congr_fault? ?_
    rw [hleaves, List.map_map]
    exact List.map_congr_left fun l _ => (Command.rectAsPolygon_keeps l.command).2.1
  refine ⟨_, compile_eq_ok_iff.2 ⟨hfault', rfl⟩, ?_, ?_, fun honce => ?_⟩
  · dsimp only
    rw [hleaves, List.flatMap_map]
    exact List.flatMap_congr fun l _ => (Command.rectAsPolygon_keeps l.command).2.2 l.path
  · dsimp only
    rw [edgesOf_flatMap, edgesOf_flatMap, hleaves, List.flatMap_map]
    exact .flatMap_left _ fun l _ => Command.edgesOf_rectAsPolygon_perm l.command
  · dsimp only
    rw [edgesOf_flatMap, edgesOf_flatMap, hleaves, List.flatMap_map]
    exact List.flatMap_congr fun l hl =>
      Command.edgesOf_rectAsPolygon_eq (honce l hl) l.command

end Compiler

/-! ## A shape in so many scopes -/

namespace Command

theorem everywhere_wrapped {f : Command → Command} {c : Command} (hc : c.isGlow = false)
    (n : Nat) : everywhere f (c.wrapped n) = (f c).wrapped n := by
  induction n with
  | zero =>
    cases c with
    | glow children => cases hc
    | line _ _ _ | rect _ _ _ | polygon _ _ | circle _ _ _ | ellipse _ _ _ | unknown =>
      rw [wrapped, wrapped, everywhere]
  | succ n ih => rw [wrapped, wrapped, everywhere, everywhereIn, everywhereIn, ih]

/-- Its one leaf is as deep as there are scopes. -/
theorem leaves_wrapped {c : Command} (hc : c.isGlow = false) (n : Nat) (path : List Nat) :
    (c.wrapped n).leaves path = [⟨path ++ List.replicate n 0, c⟩] := by
  induction n generalizing path with
  | zero => rw [wrapped, leaves_of_not_isGlow hc, List.replicate_zero, List.append_nil]
  | succ n ih =>
    rw [wrapped, leaves, leavesFrom, leavesFrom, ih, List.append_nil, List.append_assoc]
    rfl

theorem leavesOf_wrapped {c : Command} (hc : c.isGlow = false) (n : Nat) :
    leavesOf [c.wrapped n] = [⟨List.replicate (n + 1) 0, c⟩] := by
  rw [leavesOf, leavesFrom, leavesFrom, leaves_wrapped hc, List.append_nil]
  rfl

end Command

theorem Leaf.inGlow_replicate (n : Nat) (c : Command) :
    Leaf.inGlow ⟨List.replicate (n + 1) 0, c⟩ = decide (0 < n) := by
  rw [Leaf.inGlow, Leaf.scopes, List.length_replicate, Nat.add_sub_cancel]

/-- **A rectangle agrees with the polygon through its corners.** Both compile, whatever
their position and size, whatever the settings and with any number of glow scopes around
them. Taken edge by edge, each with its width and colour, the two pictures are the same
but for the order; and the order is the same, too, if there is one stroke only: outside of
any scope, where outlines do not glow, or with a glow of one pass. The corners are those
that the edges of a rectangle are made of, for any numbers and any addition. -/
theorem Compiler.rect_agrees_with_polygon (c : Compiler) (depth : Nat)
    (pos size : Point Float32) (color : UInt32) :
    let corners : List (Point Float32) :=
      [pos, ⟨pos.x + size.x, pos.y⟩, pos + size, ⟨pos.x, pos.y + size.y⟩]
    (∃ a b, c.compile [(Command.rect pos size color).wrapped depth] = .ok a ∧
      c.compile [(Command.polygon (.points corners) color).wrapped depth] = .ok b ∧
      (edgesOf a.displayList).Perm (edgesOf b.displayList) ∧
      (depth = 0 ∨ c.settings.glow.everyShape = false ∨ c.settings.glow.passes.length = 1 →
        edgesOf a.displayList = edgesOf b.displayList)) ∧
    ∀ {α : Type} [Add α] (p s : Point α),
      boxEdges p s = cycle [p, ⟨p.x + s.x, p.y⟩, p + s, ⟨p.x, p.y + s.y⟩] := by
  intro corners
  refine ⟨?_, fun p s => boxEdges_eq_cycle p s⟩
  have hleaves := Command.leavesOf_wrapped (c := .rect pos size color) rfl depth
  obtain ⟨a, ha⟩ : ∃ a, c.compile [(Command.rect pos size color).wrapped depth] = .ok a := by
    refine ⟨_, compile_eq_ok_iff.2 ⟨?_, rfl⟩⟩
    rw [hleaves]
    rfl
  obtain ⟨b, hb, -, hperm, honce⟩ := c.compile_rectAsPolygon ha
  rw [Command.everywhereIn, Command.everywhereIn, Command.everywhere_wrapped rfl] at hb
  refine ⟨a, b, ha, hb, hperm, fun h => honce fun l hl => ?_⟩
  rw [hleaves, List.mem_singleton] at hl
  rw [hl, Leaf.inGlow_replicate]
  refine h.imp_left fun h0 => ?_
  rw [h0]
  rfl

/-- A rectangle of negative width, two scopes deep. With two passes for every shape its
edges are in another order than those of the polygon; with the default glow, which is for
lines only, they are in the same. -/
theorem Compiler.rect_agrees_two_scopes_deep :
    let glowing : Compiler :=
      ⟨{ Settings.default with glow := ⟨[⟨5, 0.5⟩, ⟨2, 1⟩], true⟩ }, by decide +kernel⟩
    let rect : Command := .rect ⟨3, 1⟩ ⟨-2, 4⟩ 0x00ff00ff
    let polygon : Command := .polygon (.points [⟨3, 1⟩, ⟨1, 1⟩, ⟨1, 5⟩, ⟨3, 5⟩]) 0x00ff00ff
    (∃ a b, glowing.compile [.glow [.glow [rect]]] = .ok a ∧
      glowing.compile [.glow [.glow [polygon]]] = .ok b ∧
      (edgesOf a.displayList).Perm (edgesOf b.displayList) ∧
      edgesOf a.displayList ≠ edgesOf b.displayList) ∧
    ∃ a b, Compiler.default.compile [.glow [.glow [rect]]] = .ok a ∧
      Compiler.default.compile [.glow [.glow [polygon]]] = .ok b ∧
      edgesOf a.displayList = edgesOf b.displayList := by
  intro glowing rect polygon
  have hcorners : boxCorners ⟨3, 1⟩ ⟨-2, 4⟩ =
      ([⟨3, 1⟩, ⟨1, 1⟩, ⟨1, 5⟩, ⟨3, 5⟩] : List (Point Float32)) := by decide +kernel
  have hpolygon : polygon = .polygon (.points (boxCorners ⟨3, 1⟩ ⟨-2, 4⟩)) 0x00ff00ff := by
    rw [hcorners]
  constructor
  · obtain ⟨a, b, ha, hb, hperm, -⟩ :=
      (rect_agrees_with_polygon glowing 2 ⟨3, 1⟩ ⟨-2, 4⟩ 0x00ff00ff).1
    refine ⟨a, b, ha, by rw [hpolygon]; exact hb, hperm, fun heq => ?_⟩
    rw [(compile_eq_ok_iff.1 ha).2, (compile_eq_ok_iff.1 hb).2] at heq
    -- the second stroke goes along the first edge again, but on to the next in the loop
    have hwidth : (2 : Float32) = 5 := congrArg (fun es => (es.map (·.1)).getD 1 0) heq
    exact absurd hwidth (by decide +kernel)
  · obtain ⟨a, b, ha, hb, -, honce⟩ :=
      (rect_agrees_with_polygon .default 2 ⟨3, 1⟩ ⟨-2, 4⟩ 0x00ff00ff).1
    exact ⟨a, b, ha, by rw [hpolygon]; exact hb, honce (.inr (.inl rfl))⟩

end Linework
