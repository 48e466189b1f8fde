import Linework.Proofs.Diagnostics
import Linework.Proofs.SceneText

/-!
# One bad entry

A text in which one entry is no command is still the text of a scene, and the scene
is drawn but for that entry. This module puts the two halves of that together. On
the way in, an entry may be exchanged in the text for anything that is no command,
and the scene has an unknown entry in its place (`Scene.exists_withEntry`). On the
way out, that entry takes away what the command in its place contributed, all of
which stands together, and is reported (`Compiler.exists_compile_replacedAt`).

What a command contributes depends on its place in one way only, by whether a glow
stands around it. So it is what the command compiles to alone, inside a glow if
there is one (`Compiler.exists_compile_aloneAt`).
-/

namespace Linework

open Json

/-! ## What a command contributes -/

namespace Command

/-- A command alone, inside a glow if there is one around its place. -/
def aloneAt (path : List Nat) (c : Command) : List Command :=
  if path.length = 1 then [c] else [.glow [c]]

/-- The leaves of a command at one place are those at another, with other paths. -/
theorem leaves_eq_map_moved (c : Command) (path path' : List Nat) :
    c.leaves path' = (c.leaves path).map (Leaf.moved fun p => path' ++ p.drop path.length) := by
  have hmove : ∀ more, path' ++ (path ++ more).drop path.length =
      path' ++ path.drop path.length ++ more := by
    intro more
    rw [List.drop_left, List.drop_length, List.append_nil]
  have hleaves := leaves_moved c (f := fun p => path' ++ p.drop path.length) hmove
  rwa [List.drop_length, List.append_nil] at hleaves

/-- A command draws the same at two places, if both or neither has a glow around it. -/
theorem flatMap_primitives_leaves (c : Command) (settings : Settings) {path path' : List Nat}
    (hpath : path ≠ []) (hpath' : path' ≠ []) (h : path.length = 1 ↔ path'.length = 1) :
    (c.leaves path').flatMap (·.primitives settings) =
      (c.leaves path).flatMap (·.primitives settings) := by
  have hpos := List.length_pos_iff.2 hpath
  have hpos' := List.length_pos_iff.2 hpath'
  rw [leaves_eq_map_moved c path path', List.flatMap_map]
  refine List.flatMap_congr fun l hl => ?_
  obtain ⟨more, hmore, -⟩ := (mem_leaves_iff c).1 hl
  -- the path goes on alike from either place, so it has a second index from both or neither
  have hglow : (l.moved fun p => path' ++ p.drop path.length).inGlow = l.inGlow := by
    rw [Leaf.inGlow_eq, Leaf.inGlow_eq]
    show decide (1 < (path' ++ l.path.drop path.length).length) = decide (1 < l.path.length)
    rw [hmore, List.drop_left, List.length_append, List.length_append]
    refine decide_eq_decide.2 ?_
    omega
  rw [Leaf.primitives, Leaf.primitives, hglow]
  rfl

theorem leavesOf_aloneAt (path : List Nat) (c : Command) :
    leavesOf (c.aloneAt path) = c.leaves (if path.length = 1 then [0] else [0, 0]) := by
  unfold aloneAt
  split
  · rw [leavesOf, leavesFrom, leavesFrom, List.append_nil]
    rfl
  · rw [leavesOf, leavesFrom, leavesFrom, List.append_nil, leaves, leavesFrom, leavesFrom,
      List.append_nil]
    rfl

end Command

namespace Compiler

/-- **What a command contributes** to a picture is what it compiles to alone. -/
theorem exists_compile_aloneAt {c : Compiler} {cs : List Command} {compiled : Compiled}
    {path : List Nat} {old : Command} {before after : List Leaf}
    (hat : Command.at? path cs = some old) (h : c.compile cs = .ok compiled)
    (hleaves : Command.leavesOf cs = before ++ old.leaves path ++ after) :
    ∃ alone, c.compile (old.aloneAt path) = .ok alone ∧
      alone.displayList = (old.leaves path).flatMap (·.primitives c.settings) := by
  obtain ⟨hfault, -⟩ := compile_eq_ok_iff.1 h
  rw [hleaves, firstFault?_append_eq_none_iff, firstFault?_append_eq_none_iff] at hfault
  have hleavesOf := Command.leavesOf_aloneAt path old
  refine ⟨_, compile_eq_ok_iff.2 ⟨?_, rfl⟩, ?_⟩
  · rw [hleavesOf, Command.leaves_eq_map_moved old path, firstFault?_moved]
    exact hfault.1.2
  · show (Command.leavesOf (old.aloneAt path)).flatMap _ = _
    rw [hleavesOf]
    refine old.flatMap_primitives_leaves c.settings (Command.ne_nil_of_at? hat) ?_ ?_
    · split <;> exact List.cons_ne_nil _ _
    · split <;> simp [*]

end Compiler

/-! ## Texts and pictures -/

namespace Scene

/-- **One bad entry changes nothing else.** Take a text that is read as a scene, a
path to one of its entries, and a value that is no command and is not nested too deep
for that place. With the value in the place of the entry, and the rest of the text
as it is, the text is read as the same scene with an unknown command at the path. If
the scene compiles, so does the other. Its picture lacks what the command at the path
contributed, all of which stood together, and that is what the command compiles to
alone. Instead of what was reported from inside the command, the entry is
reported; all other primitives and reports are as they were. -/
theorem fault_isolation {t w : String} {s : Scene} {path : List Nat} {old : Command} {v : Json}
    (ht : ofText t = .ok s) (hat : Command.at? path s.commands = some old)
    (hw : Json.document value w.toList = .ok v) (hv : ¬ Command.IsKnown v)
    (hdepth : 2 * path.length + v.depth ≤ deepest) :
    (∃ front entry tail : String, t = front ++ entry ++ tail ∧
      Json.document Command.decode entry.toList = .ok old ∧
      withEntry path w t = some (front ++ w ++ tail) ∧
      ofText (front ++ w ++ tail) = .ok ⟨Command.replacedAt .unknown path s.commands⟩) ∧
    ∃ before after : List Leaf,
      Command.leavesOf s.commands = before ++ old.leaves path ++ after ∧
      ∀ (c : Compiler) (compiled : Compiled), s.compiled c = .ok compiled →
        compiled.displayList = before.flatMap (·.primitives c.settings) ++
          (old.leaves path).flatMap (·.primitives c.settings) ++
          after.flatMap (·.primitives c.settings) ∧
        compiled.diagnostics = before.flatMap (·.diagnostics) ++
          (old.leaves path).flatMap (·.diagnostics) ++ after.flatMap (·.diagnostics) ∧
        (∃ alone, c.compile (old.aloneAt path) = .ok alone ∧
          alone.displayList = (old.leaves path).flatMap (·.primitives c.settings)) ∧
        (∀ d ∈ (old.leaves path).flatMap (·.diagnostics), path <+: d.path) ∧
        (∀ d ∈ before.flatMap (·.diagnostics) ++ after.flatMap (·.diagnostics),
          ¬ path <+: d.path) ∧
        Scene.compiled ⟨Command.replacedAt .unknown path s.commands⟩ c = .ok
          ⟨before.flatMap (·.primitives c.settings) ++ after.flatMap (·.primitives c.settings),
            before.flatMap (·.diagnostics) ++ [⟨path, "unknown", "unrecognized command kind"⟩] ++
              after.flatMap (·.diagnostics)⟩ := by
  refine ⟨exists_withEntry ht hat hw (.unknown hv) hdepth, ?_⟩
  obtain ⟨before, after, hleaves, hinside, houtside, hcompile⟩ :=
    Compiler.exists_compile_replacedAt hat
  refine ⟨before, after, hleaves, fun c compiled hcompiled => ?_⟩
  have hs : c.compile s.commands = .ok compiled := mapError_eq_ok_iff.1 hcompiled
  have hpicture := (Compiler.compile_eq_ok_iff.1 hs).2
  simp only [hleaves, List.flatMap_append] at hpicture
  subst hpicture
  refine ⟨rfl, rfl, Compiler.exists_compile_aloneAt hat hs hleaves, ?_, ?_, ?_⟩
  · intro d hd
    obtain ⟨l, hl, hd⟩ := List.mem_flatMap.1 hd
    rw [Leaf.path_of_mem_diagnostics hd]
    exact hinside l hl
  · intro d hd
    rw [← List.flatMap_append] at hd
    obtain ⟨l, hl, hd⟩ := List.mem_flatMap.1 hd
    rw [Leaf.path_of_mem_diagnostics hd]
    exact houtside l hl
  · exact mapError_eq_ok_iff.2 (hcompile c _ hs)

/-- A glow that is given its children twice, of which the second time counts, in an
object with another member. The line in the glow makes way for an object of no known
kind. -/
theorem fault_isolation_inside_glow :
    let front := "\x7b\"note\":[[]],\"commands\":[7," ++
      "\x7b\"kind\":\"glow\",\"children\":[1],\"children\":[ 2 ,"
    let line := "\x7b\"kind\":\"line\",\"start\":[0,0],\"end\":[1,0],\"color\":255\x7d"
    let sparkle := "\x7b\"kind\":\"sparkle\"\x7d"
    let tail := " ,3]\x7d]\x7d"
    ∃ s compiled, ofText (front ++ line ++ tail) = .ok s ∧
      withEntry [1, 1] sparkle (front ++ line ++ tail) = some (front ++ sparkle ++ tail) ∧
      ofText (front ++ sparkle ++ tail) = .ok ⟨Command.replacedAt .unknown [1, 1] s.commands⟩ ∧
      Scene.compiled ⟨Command.replacedAt .unknown [1, 1] s.commands⟩ .default = .ok compiled ∧
      ⟨[1, 1], "unknown", "unrecognized command kind"⟩ ∈ compiled.diagnostics := by
  intro front line sparkle tail
  have hscene : (read (front ++ line ++ tail).toList).toOption.any (fun s =>
      (Command.at? [1, 1] s.commands).isSome && (s.compiled .default).toOption.isSome) = true := by
    decide +kernel
  have hentry : withEntry [1, 1] sparkle (front ++ line ++ tail) =
      some (front ++ sparkle ++ tail) := by
    decide +kernel
  have hvalue : Json.document value sparkle.toList = .ok (.object [("kind", .text "sparkle")]) := by
    show Json.document value "\x7b\"kind\":\"sparkle\"\x7d".toList = _
    rfl
  have hunknown : ¬ Command.IsKnown (.object [("kind", .text "sparkle")]) := by
    rintro ⟨_, kind, hmembers, hkind, hknown⟩
    cases hmembers
    cases hkind
    exact absurd hknown (by decide)
  obtain ⟨s, hs, hboth⟩ := (Option.any_eq_true _ _).1 hscene
  obtain ⟨hat, hcompiles⟩ := (Bool.and_eq_true_iff).1 hboth
  obtain ⟨old, hold⟩ := Option.isSome_iff_exists.1 hat
  obtain ⟨compiled, hcompiled⟩ := Option.isSome_iff_exists.1 hcompiles
  have hread : ofText (front ++ line ++ tail) = .ok s :=
    mapError_eq_ok_iff.2 (toOption_eq_some_iff.1 hs)
  obtain ⟨⟨_, _, _, -, -, hwith, hnew⟩, _, _, -, hpicture⟩ :=
    fault_isolation hread hold hvalue hunknown (by decide)
  obtain ⟨-, -, -, -, -, hreplaced⟩ := hpicture .default compiled (toOption_eq_some_iff.1 hcompiled)
  rw [hentry, Option.some.injEq] at hwith
  rw [← hwith] at hnew
  exact ⟨s, _, hread, hentry, hnew, hreplaced, by simp⟩

end Scene

end Linework
