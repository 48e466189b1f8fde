import Linework.Proofs.Painting
import Linework.Proofs.Paths

/-!
# Round shapes are polygons

A circle is drawn as a regular polygon with as many sides as circles have segments,
and a regular polygon is drawn through its vertices. A scene could as well say so
itself: a circle may be written as that polygon, and a regular polygon as the list of
its vertices, anywhere in a forest and under any glow, and nothing that a compiler
returns is different. Not the picture, not a path that is reported, and not the fault.

The painter does not take these three the same way. It asks a regular polygon for
its sides and a circle for nothing, and only then, of the vertices, whether there are
any. That it comes to the same is for settings that give circles a segment, and for
polygons with a side: one without sides is at fault for that, and would be for another
reason if it were a list of no vertices. So such a polygon is left as it is.

Commands are exchanged one by one, `Command.everywhere`, and the places stay. What an
exchange has to keep of a single command is `Command.Alike`.
-/

namespace Linework

namespace Command

/-! ## Exchanging commands -/

mutual

/-- A command with the commands in it exchanged, but for the scopes. -/
def everywhere (f : Command → Command) : Command → Command
  | .glow children => .glow (everywhereIn f children)
  | .line start stop color => f (.line start stop color)
  | .rect pos size color => f (.rect pos size color)
  | .polygon form color => f (.polygon form color)
  | .circle center radius color => f (.circle center radius color)
  | .ellipse center radii color => f (.ellipse center radii color)
  | .unknown => f .unknown

/-- A forest with its commands exchanged, at every depth. -/
def everywhereIn (f : Command → Command) : List Command → List Command
  | [] => []
  | c :: cs => everywhere f c :: everywhereIn f cs

end

/-- **Two commands are alike** for some settings: neither is a scope, they are at fault
alike, and they are drawn and reported alike wherever they stand. -/
structure Alike (settings : Settings) (c c' : Command) : Prop where
  isGlow_left : c.isGlow = false
  isGlow_right : c'.isGlow = false
  fault : c'.fault? = c.fault?
  primitives (inGlow : Bool) : c'.primitives settings inGlow = c.primitives settings inGlow
  diagnostics (path : List Nat) : Leaf.diagnostics ⟨path, c'⟩ = Leaf.diagnostics ⟨path, c⟩

theorem Alike.refl (settings : Settings) {c : Command} (h : c.isGlow = false) :
    Alike settings c c :=
  ⟨h, h, rfl, fun _ => rfl, fun _ => rfl⟩

/-- A leaf with its command exchanged. -/
def exchanged (f : Command → Command) (l : Leaf) : Leaf := { l with command := f l.command }

mutual

/-- Exchanging commands that are no scopes leaves every place as it is. -/
theorem leaves_everywhere {f : Command → Command}
    (hf : ∀ c : Command, c.isGlow = false → (f c).isGlow = false) :
    ∀ (c : Command) (path : List Nat),
      (everywhere f c).leaves path = (c.leaves path).map (exchanged f)
  | .glow children, path => by
    rw [everywhere, leaves, leaves]
    exact leavesFrom_everywhereIn hf children path 0
  | .line .., path | .rect .., path | .polygon .., path | .circle .., path | .ellipse .., path
  | .unknown, path => by
    rw [everywhere, leaves_of_not_isGlow (hf _ rfl), leaves_of_not_isGlow rfl]
    rfl

theorem leavesFrom_everywhereIn {f : Command → Command}
    (hf : ∀ c : Command, c.isGlow = false → (f c).isGlow = false) :
    ∀ (cs : List Command) (path : List Nat) (i : Nat),
      leavesFrom path i (everywhereIn f cs) = (leavesFrom path i cs).map (exchanged f)
  | [], path, i => by
    rw [everywhereIn, leavesFrom]
    rfl
  | c :: cs, path, i => by
    rw [everywhereIn, leavesFrom, leavesFrom, List.map_append, leaves_everywhere hf c,
      leavesFrom_everywhereIn hf cs]

end

/-- The leaves of a forest after an exchange are its leaves, exchanged. -/
theorem leavesOf_everywhereIn {f : Command → Command}
    (hf : ∀ c : Command, c.isGlow = false → (f c).isGlow = false) (cs : List Command) :
    leavesOf (everywhereIn f cs) = (leavesOf cs).map (exchanged f) :=
  leavesFrom_everywhereIn hf cs [] 0

/-- What stands in a forest after an exchange was exchanged for something. -/
theorem exists_of_occursIn_everywhereIn {f : Command → Command}
    (hf : ∀ c : Command, c.isGlow = false → (f c).isGlow = false) {cs : List Command}
    {d : Command} (hd : d.isGlow = false) (h : d.OccursIn (everywhereIn f cs)) :
    ∃ c : Command, c.isGlow = false ∧ c.OccursIn cs ∧ d = f c := by
  obtain ⟨l, hl, rfl⟩ := (exists_mem_leavesOf_iff hd _).2 h
  rw [leavesOf_everywhereIn hf] at hl
  obtain ⟨m, hm, rfl⟩ := List.mem_map.1 hl
  exact ⟨m.command, (mem_leavesOf_iff.1 hm).2, occursIn_of_mem_leavesFrom cs hm, rfl⟩

end Command

/-- **Exchanging commands for others alike** changes nothing that is returned. -/
theorem Compiler.compile_everywhereIn (c : Compiler) {f : Command → Command}
    (hf : ∀ d : Command, d.isGlow = false → d.Alike c.settings (f d)) (cs : List Command) :
    c.compile (Command.everywhereIn f cs) = c.compile cs := by
  have hleaves := Command.leavesOf_everywhereIn (fun d hd => (hf d hd).isGlow_right) cs
  have halike : ∀ l ∈ Command.leavesOf cs, l.command.Alike c.settings (f l.command) :=
    fun l hl => hf l.command (Command.mem_leavesOf_iff.1 hl).2
  have hfault : firstFault? (Command.leavesOf (Command.everywhereIn f cs)) =
      firstFault? (Command.leavesOf cs) := by
    refine firstFault?_congr_fault? ?_
    rw [hleaves, List.map_map]
    exact List.map_congr_left fun l hl => (halike l hl).fault
  have hprimitives : (Command.leavesOf (Command.everywhereIn f cs)).flatMap
        (·.primitives c.settings) =
      (Command.leavesOf cs).flatMap (·.primitives c.settings) := by
    rw [hleaves, List.flatMap_map]
    exact List.flatMap_congr fun l hl => (halike l hl).primitives l.inGlow
  have hdiagnostics : (Command.leavesOf (Command.everywhereIn f cs)).flatMap (·.diagnostics) =
      (Command.leavesOf cs).flatMap (·.diagnostics) := by
    rw [hleaves, List.flatMap_map]
    exact List.flatMap_congr fun l hl => (halike l hl).diagnostics l.path
  rw [compile_eq, compile_eq, hfault, hprimitives, hdiagnostics]

/-! ## Circles and regular polygons -/

namespace Command

/-- A circle as the regular polygon of so many sides, unturned. -/
def circleAsRegular (segments : UInt32) : Command → Command
  | .circle center radius color => .polygon (.regular center radius segments 0) color
  | c => c

/-- A regular polygon as the polygon through its vertices, if it has a side. -/
def regularAsPoints : Command → Command
  | .polygon (.regular center radius sides rotation) color =>
    if 1 ≤ sides then .polygon (.points (ngon center radius sides rotation)) color
    else .polygon (.regular center radius sides rotation) color
  | c => c

/-- A circle has no fault, and the polygon has none as it has sides. -/
theorem alike_circleAsRegular {settings : Settings} (hs : settings.circleSegments ≠ 0)
    {c : Command} (hc : c.isGlow = false) :
    c.Alike settings (circleAsRegular settings.circleSegments c) := by
  cases c with
  | circle center radius color => exact ⟨rfl, rfl, if_neg hs, fun _ => rfl, fun _ => rfl⟩
  | glow children => cases hc
  | line _ _ _ => exact .refl settings rfl
  | rect _ _ _ => exact .refl settings rfl
  | polygon _ _ => exact .refl settings rfl
  | ellipse _ _ _ => exact .refl settings rfl
  | unknown => exact .refl settings rfl

/-- A list of vertices is at fault if it is empty, and of a polygon with sides it is not. -/
theorem fault?_points_of_ne_nil {ps : List (Point Float32)} (h : ps ≠ []) (color : UInt32) :
    (Command.polygon (.points ps) color).fault? = none := by
  cases ps with
  | nil => exact absurd rfl h
  | cons p ps => rfl

/-- No circle is left. -/
theorem circleAsRegular_ne_circle (segments : UInt32) (c : Command) (center : Point Float32)
    (radius : Float32) (color : UInt32) :
    circleAsRegular segments c ≠ .circle center radius color := by
  cases c <;> simp [circleAsRegular]

theorem alike_regularAsPoints (settings : Settings) {c : Command} (hc : c.isGlow = false) :
    c.Alike settings (regularAsPoints c) := by
  cases c with
  | polygon form color =>
    cases form with
    | points ps => exact .refl settings rfl
    | regular center radius sides rotation =>
      rw [regularAsPoints]
      by_cases hsides : 1 ≤ sides
      · have hne : sides ≠ 0 := by
          rintro rfl
          exact absurd hsides (by decide)
        rw [if_pos hsides]
        refine ⟨rfl, rfl, ?_, fun _ => rfl, fun _ => rfl⟩
        rw [fault?_points_of_ne_nil (ngon_ne_nil center radius hne rotation)]
        exact (if_neg hne).symm
      · rw [if_neg hsides]
        exact .refl settings rfl
  | glow children => cases hc
  | line _ _ _ => exact .refl settings rfl
  | rect _ _ _ => exact .refl settings rfl
  | circle _ _ _ => exact .refl settings rfl
  | ellipse _ _ _ => exact .refl settings rfl
  | unknown => exact .refl settings rfl

/-- No circle comes out of a regular polygon. -/
theorem eq_circle_of_regularAsPoints {c : Command} {center : Point Float32} {radius : Float32}
    {color : UInt32} (h : regularAsPoints c = .circle center radius color) :
    c = .circle center radius color := by
  unfold regularAsPoints at h
  split at h
  · split at h <;> cases h
  · exact h

/-- A regular polygon is left only if it has no side. -/
theorem sides_eq_zero_of_regularAsPoints {c : Command} {center : Point Float32}
    {radius rotation : Float32} {sides color : UInt32}
    (h : regularAsPoints c = .polygon (.regular center radius sides rotation) color) :
    sides = 0 := by
  unfold regularAsPoints at h
  split at h
  · next sides' _ _ =>
    split at h
    · cases h
    · next hsides =>
      cases h
      exact UInt32.toNat_inj.1 (Nat.lt_one_iff.1 (Nat.lt_of_not_le hsides))
  · next hnot => exact absurd h (hnot _ _ _ _ _)

/-- A forest with its circles and regular polygons spelled out: first every circle as a
regular polygon, then every regular polygon as its vertices. -/
def spelledOut (segments : UInt32) (cs : List Command) : List Command :=
  everywhereIn regularAsPoints (everywhereIn (circleAsRegular segments) cs)

end Command

/-- **Round shapes may be spelled out.** A circle may be given as the regular polygon
that has a side for each of the segments of circles, and a regular polygon as its vertices,
at every depth: what the compiler returns is the same, the picture and the reports with
their paths, or the fault. Of the round shapes only the polygons without a side are left. -/
theorem Compiler.compile_spelledOut (c : Compiler) (cs : List Command) :
    c.compile (Command.spelledOut c.settings.circleSegments cs) = c.compile cs ∧
      (∀ center radius color, ¬ (Command.circle center radius color).OccursIn
        (Command.spelledOut c.settings.circleSegments cs)) ∧
      ∀ center radius sides rotation color,
        (Command.polygon (.regular center radius sides rotation) color).OccursIn
          (Command.spelledOut c.settings.circleSegments cs) → sides = 0 := by
  have hcircle : ∀ d : Command, d.isGlow = false →
      d.Alike c.settings (Command.circleAsRegular c.settings.circleSegments d) :=
    fun d => Command.alike_circleAsRegular (Settings.circleSegments_ne_zero c.valid)
  have hregular : ∀ d : Command, d.isGlow = false →
      d.Alike c.settings (Command.regularAsPoints d) :=
    fun d => Command.alike_regularAsPoints c.settings
  refine ⟨?_, fun center radius color hoccurs => ?_,
    fun center radius sides rotation color hoccurs => ?_⟩
  · rw [Command.spelledOut, c.compile_everywhereIn hregular, c.compile_everywhereIn hcircle]
  · obtain ⟨d, hglow, hd, hcircle'⟩ := Command.exists_of_occursIn_everywhereIn
      (fun d hd => (hregular d hd).isGlow_right) rfl hoccurs
    obtain ⟨e, -, -, rfl⟩ := Command.exists_of_occursIn_everywhereIn
      (fun d hd => (hcircle d hd).isGlow_right) hglow hd
    exact Command.circleAsRegular_ne_circle _ _ _ _ _
      (Command.eq_circle_of_regularAsPoints hcircle'.symm)
  · obtain ⟨d, -, -, hd⟩ := Command.exists_of_occursIn_everywhereIn
      (fun d hd => (hregular d hd).isGlow_right) rfl hoccurs
    exact Command.sides_eq_zero_of_regularAsPoints hd.symm

/-- A glowing circle, an entry that is no command and a pentagon. Spelled out, they give the
same picture, in which the circle is stroked twice, and the same report. Inside a scope, only
a polygon without a side stays as it is. -/
theorem Compiler.compile_spelledOut_glowing :
    let round : Command := .circle ⟨0, 0⟩ 1 0xff
    let flat (sides : UInt32) : Command := .polygon (.regular ⟨0, 0⟩ 1 sides 0) 0xff
    let outline (sides : UInt32) : Command := .polygon (.points (ngon ⟨0, 0⟩ 1 sides 0)) 0xff
    let glowing : Compiler :=
      ⟨{ Settings.default with circleSegments := 12, glow := ⟨[⟨6, 0.5⟩, ⟨1.5, 1⟩], true⟩ },
        by decide +kernel⟩
    (Command.spelledOut 12 [.glow [round, .unknown], flat 5] =
        [.glow [outline 12, .unknown], outline 5] ∧
      ∃ compiled, glowing.compile [.glow [outline 12, .unknown], outline 5] = .ok compiled ∧
        glowing.compile [.glow [round, .unknown], flat 5] = .ok compiled ∧
        compiled.displayList.map (fun p => (p.width, p.topology, p.vertices.length)) =
          [(6, .lineLoop, 12), (1.5, .lineLoop, 12), (1, .lineLoop, 5)] ∧
        compiled.diagnostics.map (·.path) = [[0, 1]]) ∧
    Command.spelledOut 40 [.glow [round, flat 0]] = [.glow [outline 40, flat 0]] ∧
      Compiler.default.compile [.glow [outline 40, flat 0]] =
        Compiler.default.compile [.glow [round, flat 0]] ∧
      (flat 0).OccursIn [.glow [outline 40, flat 0]] ∧
      ∀ sides, (flat sides).OccursIn [.glow [outline 40, flat 0]] → sides = 0 := by
  intro round flat outline glowing
  constructor
  · have hspelled : Command.spelledOut glowing.settings.circleSegments
        [.glow [round, .unknown], flat 5] = [.glow [outline 12, .unknown], outline 5] := rfl
    obtain ⟨hcompile, -, -⟩ := compile_spelledOut glowing [.glow [round, .unknown], flat 5]
    rw [hspelled] at hcompile
    obtain ⟨compiled, hround⟩ : ∃ compiled,
        glowing.compile [.glow [round, .unknown], flat 5] = .ok compiled := ⟨_, compile_eq _ _⟩
    refine ⟨hspelled, compiled, hcompile.trans hround, hround, ?_, ?_⟩
    · rw [(compile_eq_ok_iff.1 hround).2]
      rfl
    · rw [(compile_eq_ok_iff.1 hround).2]
      rfl
  · have hspelled : Command.spelledOut Compiler.default.settings.circleSegments
        [.glow [round, flat 0]] = [.glow [outline 40, flat 0]] := rfl
    obtain ⟨hcompile, -, hsides⟩ := compile_spelledOut .default [.glow [round, flat 0]]
    rw [hspelled] at hcompile hsides
    exact ⟨hspelled, hcompile, .inside _ (.tail _ (.head _)), fun sides => hsides _ _ sides _ _⟩

end Linework
