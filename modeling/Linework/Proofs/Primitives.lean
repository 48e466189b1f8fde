import Mathlib.Data.List.Basic
import Linework.Proofs.Painting

/-!
# What can be relied on in a picture

Whoever draws a display list takes its primitives as they come: strokes the edges
of each with its width, in its colour. This module says that nothing can go wrong
there. The width is a positive number, the edges are neither none nor fewer than the
vertices ask for, and the opacity is the command's own.

None of it is checked while a picture is made. Widths are fine because settings
with a bad pass make no compiler, loops have two vertices because curves have
segments and polygons without a vertex stop everything, and the one polygon whose
loop would be too short is drawn as a segment instead. So the facts are proved where
they come from, of the passes of a glow and of the geometries of a command, and are
put together at the end.
-/

namespace Linework

/-! ## Strokes -/

namespace Pass

/-- Passes are without fault exactly if each of them is. -/
theorem fault?_eq_none_iff {i : Nat} {ps : List Pass} :
    fault? i ps = none ↔ ∀ p ∈ ps, p.widthIsFine = true ∧ p.brightnessIsFine = true := by
  induction ps generalizing i with
  | nil => simp [fault?]
  | cons p ps ih =>
    rw [fault?, List.forall_mem_cons]
    cases hwidth : p.widthIsFine with
    | false => simp
    | true =>
      cases hbrightness : p.brightnessIsFine with
      | false => simp
      | true =>
        show fault? (i + 1) ps = none ↔ _
        rw [ih, and_iff_right ⟨rfl, rfl⟩]

theorem widthIsFine_iff (p : Pass) :
    p.widthIsFine = true ↔ 0 < p.width ∧ p.width.isFinite = true := by
  rw [widthIsFine, Bool.and_eq_true, decide_eq_true_iff]

end Pass

namespace Settings

variable {settings : Settings}

theorem ellipseSegments_ne_zero (h : settings.fault? = none) : settings.ellipseSegments ≠ 0 := by
  intro hzero
  rw [fault?, if_neg (circleSegments_ne_zero h), if_pos hzero] at h
  cases h

/-- Settings without fault have no pass at fault. -/
theorem passes_fault?_eq_none (h : settings.fault? = none) :
    Pass.fault? 0 settings.glow.passes = none := by
  have hellipse := ellipseSegments_ne_zero h
  rw [fault?, if_neg (circleSegments_ne_zero h), if_neg hellipse] at h
  split at h
  · cases h
  · exact h

end Settings

/-- **Every stroke has a width to draw with**, whether its path glows or not. -/
theorem Glow.width_of_mem_strokesWithin {glow : Glow} (h : Pass.fault? 0 glow.passes = none)
    {inGlow : Bool} {kind : PathKind} {color : UInt32} {s : Stroke}
    (hs : s ∈ glow.strokesWithin inGlow kind color) : 0 < s.width ∧ s.width.isFinite = true := by
  rw [strokesWithin] at hs
  split at hs
  · obtain ⟨pass, hpass, rfl⟩ := List.mem_map.1 hs
    exact pass.widthIsFine_iff.1 (Pass.fault?_eq_none_iff.1 h pass hpass).1
  · rw [List.mem_singleton.1 hs]
    show (0 : Float32) < 1.0 ∧ (1.0 : Float32).isFinite = true
    decide +kernel

/-- The opacity of a packed colour is its lowest byte. -/
theorem Color.toNat_a_ofPacked (w : UInt32) : (ofPacked w).a.toNat = w.toNat % 256 :=
  UInt32.toNat_toUInt8 w

/-- **Brightening leaves the opacity alone.** -/
theorem Glow.a_of_mem_strokesWithin {glow : Glow} {inGlow : Bool} {kind : PathKind}
    {color : UInt32} {s : Stroke} (hs : s ∈ glow.strokesWithin inGlow kind color) :
    s.color.a = (Color.ofPacked color).a := by
  rw [strokesWithin] at hs
  split at hs
  · obtain ⟨pass, -, rfl⟩ := List.mem_map.1 hs
    rfl
  · rw [List.mem_singleton.1 hs]

/-! ## Geometries -/

/-- **Vertices that can be joined as they are to be**: two of them in a segment, and
two at least in a loop. -/
def Topology.Joins : Topology → Nat → Prop
  | .segments, n => n = 2
  | .lineLoop, n => 2 ≤ n

namespace Geometry

/-- A closed outline can be drawn if it has a vertex: a single one is no loop. -/
theorem joins_closed {ps : List (Point Float32)} (h : ps ≠ []) :
    (closed ps).topology.Joins (closed ps).vertices.length := by
  match ps with
  | [] => exact absurd rfl h
  | [p] => exact rfl
  | p :: q :: rest =>
    show 2 ≤ rest.length + 1 + 1
    exact Nat.le_add_left 2 _

end Geometry

namespace Command

/-- The vertices of a polygon that is not at fault. -/
theorem ne_nil_of_fault?_points {ps : List (Point Float32)} {color : UInt32}
    (h : (Command.polygon (.points ps) color).fault? = none) : ps ≠ [] := by
  rintro rfl
  cases h

theorem sides_ne_zero_of_fault?_regular {center : Point Float32} {radius : Float32}
    {sides : UInt32} {rotation : Float32} {color : UInt32}
    (h : (Command.polygon (.regular center radius sides rotation) color).fault? = none) :
    sides ≠ 0 := by
  rintro rfl
  cases h

/-- **The geometries of a command can be drawn**, if it is not at fault and curves have
segments. -/
theorem joins_of_mem_geometries {settings : Settings} (hs : settings.fault? = none) {c : Command}
    (hc : c.fault? = none) {g : Geometry} (hg : g ∈ c.geometries settings) :
    g.topology.Joins g.vertices.length := by
  cases c with
  | line start stop color =>
    rw [List.mem_singleton.1 hg]
    exact rfl
  | rect pos size color =>
    obtain ⟨e, -, rfl⟩ := List.mem_map.1 hg
    exact rfl
  | polygon form color =>
    cases form with
    | points ps =>
      rw [List.mem_singleton.1 hg]
      exact Geometry.joins_closed (ne_nil_of_fault?_points hc)
    | regular center radius sides rotation =>
      rw [List.mem_singleton.1 hg]
      exact Geometry.joins_closed
        (ngon_ne_nil center radius (sides_ne_zero_of_fault?_regular hc) rotation)
  | circle center radius color =>
    rw [List.mem_singleton.1 hg]
    exact Geometry.joins_closed
      (ngon_ne_nil center radius (Settings.circleSegments_ne_zero hs) 0)
  | ellipse center radii color =>
    -- the last point of an ellipse is its first again, so one segment makes two points
    rw [List.mem_singleton.1 hg]
    show 2 ≤ (Linework.ellipse center radii settings.ellipseSegments).length
    have hpos : settings.ellipseSegments.toNat ≠ 0 := fun h0 =>
      Settings.ellipseSegments_ne_zero hs (UInt32.toNat_inj.1 h0)
    rw [length_ellipse]
    omega
  | glow children => cases hg
  | unknown => cases hg

/-- What a command draws has the command's opacity, a width to draw with, and vertices
that can be joined. -/
theorem of_mem_primitives {settings : Settings} (hs : settings.fault? = none) {c : Command}
    (hc : c.fault? = none) {inGlow : Bool} {p : Primitive Float32}
    (hp : p ∈ c.primitives settings inGlow) :
    (0 < p.width ∧ p.width.isFinite = true) ∧ p.topology.Joins p.vertices.length ∧
      ∃ color, c.color? = some color ∧ p.color.a.toNat = color.toNat % 256 := by
  rw [primitives] at hp
  cases hcolor : c.color? with
  | none =>
    rw [hcolor] at hp
    cases hp
  | some color =>
    rw [hcolor] at hp
    obtain ⟨g, hg, hp⟩ := List.mem_flatMap.1 hp
    obtain ⟨s, hs', rfl⟩ := List.mem_map.1 hp
    refine ⟨?_, joins_of_mem_geometries hs hc hg, color, rfl, ?_⟩
    · exact Glow.width_of_mem_strokesWithin (Settings.passes_fault?_eq_none hs) hs'
    · rw [Glow.a_of_mem_strokesWithin hs', Color.toNat_a_ofPacked]

end Command

/-! ## Edges -/

/-- In a loop every vertex is where an edge begins. -/
theorem map_fst_cycle {α : Type} (xs : List α) : (cycle xs).map Prod.fst = xs := by
  rw [cycle]
  refine List.map_fst_zip ?_
  rw [List.length_append, List.length_drop, List.length_take]
  omega

namespace Primitive

variable {α : Type} {p : Primitive α}

/-- **No vertex is left out** of the edges of a primitive whose vertices can be joined. -/
theorem exists_edge_of_mem_vertices (h : p.topology.Joins p.vertices.length) {v : Point α}
    (hv : v ∈ p.vertices) : ∃ e ∈ p.edges, e.1 = v ∨ e.2 = v := by
  rw [edges]
  cases htopology : p.topology with
  | segments =>
    rw [htopology] at h
    obtain ⟨a, b, hab⟩ := List.length_eq_two.1 h
    rw [hab, List.mem_pair] at hv
    rw [hab]
    exact ⟨(a, b), List.mem_singleton_self _, hv.imp Eq.symm Eq.symm⟩
  | lineLoop =>
    rw [← map_fst_cycle p.vertices] at hv
    obtain ⟨e, he, rfl⟩ := List.mem_map.1 hv
    exact ⟨e, he, .inl rfl⟩

end Primitive

/-- A forest without a fault has no leaf at fault. -/
theorem fault?_of_mem_of_firstFault? {ls : List Leaf} (h : firstFault? ls = none) {l : Leaf}
    (hl : l ∈ ls) : l.command.fault? = none :=
  List.findSome?_eq_none_iff.1 h l hl

/-- **Every primitive can be drawn.** A picture is what its leaves draw, one after
another, and of each primitive that a leaf draws this much is certain: its width is
positive and finite; a segment has two vertices and one edge; a loop has two vertices
at least and an edge for each; there is always an edge, and every vertex is on one; and
its opacity is the lowest byte of the colour that the leaf is given in. -/
theorem Compiler.drawable_of_compile (c : Compiler) (cs : List Command) {compiled : Compiled}
    (h : c.compile cs = .ok compiled) :
    compiled.displayList = (Command.leavesOf cs).flatMap (·.primitives c.settings) ∧
      ∀ l ∈ Command.leavesOf cs, ∀ p ∈ l.primitives c.settings,
        (0 < p.width ∧ p.width.isFinite = true) ∧
        (p.topology = .segments → p.vertices.length = 2 ∧ p.edges.length = 1) ∧
        (p.topology = .lineLoop → 2 ≤ p.vertices.length ∧ p.edges.length = p.vertices.length) ∧
        (p.edges ≠ [] ∧ ∀ v ∈ p.vertices, ∃ e ∈ p.edges, e.1 = v ∨ e.2 = v) ∧
        ∃ color, l.command.color? = some color ∧ p.color.a.toNat = color.toNat % 256 := by
  obtain ⟨hfault, rfl⟩ := compile_eq_ok_iff.1 h
  refine ⟨rfl, fun l hl p hp => ?_⟩
  obtain ⟨hwidth, hjoins, hopacity⟩ :=
    Command.of_mem_primitives c.valid (fault?_of_mem_of_firstFault? hfault hl) hp
  have hsegments : p.topology = .segments → p.vertices.length = 2 ∧ p.edges.length = 1 := by
    intro htopology
    rw [htopology] at hjoins
    have hlength : p.vertices.length = 2 := hjoins
    rw [Primitive.edges, htopology]
    show _ ∧ (pairs p.vertices).length = 1
    rw [length_pairs, hlength]
    exact ⟨rfl, rfl⟩
  have hloop : p.topology = .lineLoop →
      2 ≤ p.vertices.length ∧ p.edges.length = p.vertices.length := by
    intro htopology
    rw [htopology] at hjoins
    rw [Primitive.edges, htopology]
    exact ⟨hjoins, length_cycle p.vertices⟩
  have hedges : p.edges.length ≠ 0 := by
    cases htopology : p.topology with
    | segments =>
      rw [(hsegments htopology).2]
      exact Nat.one_ne_zero
    | lineLoop =>
      have := hloop htopology
      omega
  exact ⟨hwidth, hsegments, hloop,
    ⟨fun hnil => hedges (List.length_eq_zero_iff.2 hnil),
      fun v hv => Primitive.exists_edge_of_mem_vertices hjoins hv⟩, hopacity⟩

/-- A polygon with one vertex, in a glow for every shape and half transparent: both of
its strokes are segments of one edge. -/
theorem Compiler.drawable_glowing_dot :
    let glowing : Compiler :=
      ⟨{ Settings.default with glow := ⟨[⟨6, 0.25⟩, ⟨1, 2⟩], true⟩ }, by decide +kernel⟩
    let dot : Command := .polygon (.points [⟨1, 2⟩]) 0xff00ff80
    ∃ compiled, glowing.compile [.glow [.unknown, .glow [dot]]] = .ok compiled ∧
      compiled.displayList.length = 2 ∧
      ∀ p ∈ compiled.displayList, 0 < p.width ∧ p.edges.length = 1 ∧ p.color.a.toNat = 128 := by
  intro glowing dot
  obtain ⟨compiled, h⟩ : ∃ compiled,
      glowing.compile [.glow [.unknown, .glow [dot]]] = .ok compiled := ⟨_, compile_eq _ _⟩
  obtain ⟨hlist, hdrawable⟩ := drawable_of_compile glowing _ h
  refine ⟨compiled, h, by rw [hlist]; rfl, fun p hp => ?_⟩
  rw [hlist] at hp
  obtain ⟨l, hl, hp⟩ := List.mem_flatMap.1 hp
  obtain ⟨hwidth, hsegments, -, -, color, hcolor, hopacity⟩ := hdrawable l hl p hp
  -- the leaf is the dot, since what is unknown draws nothing
  have hdot : l.command.color? = some 0xff00ff80 ∧ p.topology = .segments := by
    rcases List.mem_pair.1 hl with rfl | rfl
    · cases hp
    · obtain ⟨g, hg, hp⟩ := List.mem_flatMap.1 hp
      obtain ⟨s, -, rfl⟩ := List.mem_map.1 hp
      rw [List.mem_singleton.1 hg]
      exact ⟨rfl, rfl⟩
  rw [hdot.1, Option.some.injEq] at hcolor
  rw [hopacity, ← hcolor]
  exact ⟨hwidth.1, (hsegments hdot.2).2, rfl⟩

end Linework
