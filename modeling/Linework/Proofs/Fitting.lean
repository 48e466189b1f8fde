import Linework.Proofs.Bounds
import Linework.Proofs.Painting
import Linework.Proofs.Single
import Linework.Viewport

/-!
# Glow does not move a picture

How a picture is placed in a window depends on the bounds of its vertices. A path
that glows is stroked several times over, so its vertices come several times; a
path that does not, once. The bounds are the same. Since the fold behind them can
tell the order of vertices, this is not because bounds ignore repetition, but
because a geometry is repeated as a whole and right away, and comes once at least:
a glow without a pass is refused.

`Command.corners` are the vertices of a command, each geometry once. They depend
on how finely curves are drawn and on nothing else in the settings, and the bounds
of a picture are those of the corners of its commands
(`Compiler.sameBounds_displayList`).
-/

namespace Linework

open Bounds (SameBounds)

/-- The vertices of a command, in the order they are drawn, each geometry once. -/
def Command.corners (settings : Settings) (c : Command) : List (Point Float32) :=
  (c.geometries settings).flatMap (·.vertices)

/-- Of the settings only the segments of curves matter. -/
theorem Command.corners_congr {s s' : Settings} (hcircle : s.circleSegments = s'.circleSegments)
    (hellipse : s.ellipseSegments = s'.ellipseSegments) (c : Command) :
    c.corners s = c.corners s' := by
  have hgeometries : c.geometries s = c.geometries s' := by
    cases c with
    | circle center radius color => rw [geometries, geometries, hcircle]
    | ellipse center radii color => rw [geometries, geometries, hellipse]
    | polygon form color => cases form <;> rfl
    | line _ _ _ | rect _ _ _ | glow _ | unknown => rfl
  rw [corners, corners, hgeometries]

/-- Settings without fault have a pass for what glows. -/
theorem Settings.passes_ne_nil {settings : Settings} (h : settings.fault? = none) :
    settings.glow.passes ≠ [] := by
  intro hnil
  rw [Settings.fault?, hnil] at h
  split at h
  · cases h
  · split at h <;> cases h

/-- Every path is stroked. -/
theorem Glow.strokesWithin_ne_nil {glow : Glow} (h : glow.passes ≠ []) (inGlow : Bool)
    (kind : PathKind) (color : UInt32) : glow.strokesWithin inGlow kind color ≠ [] := by
  rw [Glow.strokesWithin]
  split
  · exact fun hnil => h (List.map_eq_nil_iff.1 hnil)
  · exact List.cons_ne_nil _ _

/-- A geometry that is stroked comes once per stroke. -/
theorem Geometry.verticesOf_stroked (strokes : List Stroke) (g : Geometry) :
    verticesOf (g.stroked strokes) = strokes.flatMap fun _ => g.vertices := by
  rw [verticesOf, stroked, List.flatMap_map]

/-- **A command has the bounds of its corners**, however often it is stroked. -/
theorem Command.sameBounds_primitives {settings : Settings} (h : settings.fault? = none)
    (inGlow : Bool) (c : Command) :
    SameBounds (verticesOf (c.primitives settings inGlow)) (c.corners settings) := by
  rw [primitives, corners]
  cases hcolor : c.color? with
  | none =>
    -- what has no colour has no geometry either
    have hnone : c.geometries settings = [] := by
      cases c with
      | glow _ | unknown => rfl
      | line _ _ _ | rect _ _ _ | polygon _ _ | circle _ _ _ | ellipse _ _ _ => cases hcolor
    rw [hnone]
    exact .refl []
  | some color =>
    rw [verticesOf, List.flatMap_assoc]
    refine .flatMap (fun g => ?_) _
    show SameBounds (verticesOf (g.stroked _)) g.vertices
    rw [Geometry.verticesOf_stroked]
    exact .repeated (Glow.strokesWithin_ne_nil (Settings.passes_ne_nil h) _ _ _) _

namespace Compiler

/-- A picture has the bounds of the corners of its commands. -/
theorem sameBounds_displayList {c : Compiler} {cs : List Command} {compiled : Compiled}
    (h : c.compile cs = .ok compiled) :
    SameBounds (verticesOf compiled.displayList)
      (((Command.leavesOf cs).map (·.command)).flatMap (Command.corners c.settings)) := by
  obtain ⟨-, rfl⟩ := compile_eq_ok_iff.1 h
  rw [verticesOf, List.flatMap_assoc, List.flatMap_map]
  exact .flatMap
    (fun l : Leaf => Command.sameBounds_primitives c.valid l.inGlow l.command) _

/-- **Fitting ignores glow.** Take two lists of commands that differ in their scopes
only, and two compilers that differ in their glow only. If the first list compiles,
so does the second, and on every screen both pictures are scaled and moved alike, to
the last bit: also if they have vertices that are infinite or not numbers, or zeros
of either sign. -/
theorem fit_ignores_glow (c c' : Compiler)
    (hcircle : c.settings.circleSegments = c'.settings.circleSegments)
    (hellipse : c.settings.ellipseSegments = c'.settings.ellipseSegments) (xs ys : List Command)
    (hleaves : (Command.leavesOf xs).map (·.command) = (Command.leavesOf ys).map (·.command))
    {a : Compiled} (ha : c.compile xs = .ok a) :
    ∃ b, c'.compile ys = .ok b ∧
      ∀ screen : Point Float32,
        Fit.ofPrimitives a.displayList screen = Fit.ofPrimitives b.displayList screen := by
  have hfault : firstFault? (Command.leavesOf ys) = none := by
    rw [← firstFault?_congr hleaves]
    exact (compile_eq_ok_iff.1 ha).1
  obtain ⟨b, hb⟩ : ∃ b, c'.compile ys = .ok b := ⟨_, compile_eq_ok_iff.2 ⟨hfault, rfl⟩⟩
  refine ⟨b, hb, fun screen => ?_⟩
  have hbounds : Bounds.ofPoints? (verticesOf a.displayList) =
      Bounds.ofPoints? (verticesOf b.displayList) := by
    rw [(sameBounds_displayList ha).ofPoints?_eq, (sameBounds_displayList hb).ofPoints?_eq,
      hleaves, funext (Command.corners_congr hcircle hellipse)]
  rw [Fit.ofPrimitives, Fit.ofPrimitives, hbounds]

/-- A line between the two zeros and a rectangle with a corner that is not a number,
first without any scope and then in different ones, with a glow of its own. In a window
half as high as the picture with its margins, either picture is halved and moved down by
half a margin, while its place to the right is not a number. -/
theorem fit_of_scopes_around :
    let line : Command := .line ⟨-0, 1⟩ ⟨0, 1⟩ 0xff
    let rect : Command := .rect ⟨Float32.ofBits 0x7fc00000, 0⟩ ⟨1, 2⟩ 0xff
    let glowing : Compiler :=
      ⟨{ Settings.default with glow := ⟨[⟨4, 0.5⟩, ⟨1, 2⟩], true⟩ }, by decide +kernel⟩
    ∃ a b, Compiler.default.compile [line, rect] = .ok a ∧
      glowing.compile [.glow [line, .glow []], .glow [.glow [rect]]] = .ok b ∧
      a.displayList.length = 5 ∧ b.displayList.length = 10 ∧
      (∀ screen : Point Float32,
        Fit.ofPrimitives a.displayList screen = Fit.ofPrimitives b.displayList screen) ∧
      (Fit.ofPrimitives b.displayList ⟨100, 21⟩).scale = 0.5 ∧
      (Fit.ofPrimitives b.displayList ⟨100, 21⟩).offset.y = 10 ∧
      (Fit.ofPrimitives b.displayList ⟨100, 21⟩).offset.x.isNaN = true := by
  intro line rect glowing
  obtain ⟨a, ha⟩ : ∃ a, Compiler.default.compile [line, rect] = .ok a := ⟨_, compile_eq _ _⟩
  obtain ⟨b, hb, hfit⟩ := fit_ignores_glow .default glowing rfl rfl [line, rect]
    [.glow [line, .glow []], .glow [.glow [rect]]] rfl ha
  refine ⟨a, b, ha, hb, ?_, ?_, hfit, ?_⟩
  · rw [(compile_eq_ok_iff.1 ha).2]
    rfl
  · rw [(compile_eq_ok_iff.1 hb).2]
    rfl
  · -- the fit of the second picture is that of the first, which is evaluated
    rw [← hfit, (compile_eq_ok_iff.1 ha).2]
    decide +kernel

end Compiler

end Linework
