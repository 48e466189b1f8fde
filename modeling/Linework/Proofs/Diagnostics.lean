import Mathlib.Data.List.Nodup
import Linework.Proofs.Painting
import Linework.Proofs.Paths

/-!
# What is reported, and where

A compiler reports the entries it passes over, and a report says where its entry
stands. The path in it comes from a stack that grows and shrinks while the painter
walks the forest; what is shown here is that it is the right one, by following it
again (`Command.at?`). Nothing is reported twice and nothing is left out, because
the leaves of a forest have different paths and are all that is in it.

Two things follow from how leaves are listed. Compiling one list behind another
reports the same entries, counted on. And an entry that is put in the place of
another takes away one block of primitives and of reports, where the others stay
as they were: this is what one bad entry does to a picture.
-/

namespace Linework

/-! ## Reports and leaves -/

/-- A report whose path is changed. -/
def Diagnostic.moved (f : List Nat → List Nat) (d : Diagnostic) : Diagnostic :=
  { d with path := f d.path }

/-- The report of an entry that is no command. -/
def Diagnostic.unknownAt (path : List Nat) : Diagnostic :=
  ⟨path, "unknown", "unrecognized command kind"⟩

namespace Leaf

theorem mem_diagnostics_iff {l : Leaf} {d : Diagnostic} :
    d ∈ l.diagnostics ↔ l.command = .unknown ∧ d = .unknownAt l.path := by
  rw [diagnostics]
  cases l.command with
  | unknown => simp [Diagnostic.unknownAt]
  | line _ _ _ => simp
  | rect _ _ _ => simp
  | polygon _ _ => simp
  | circle _ _ _ => simp
  | ellipse _ _ _ => simp
  | glow _ => simp

theorem path_of_mem_diagnostics {l : Leaf} {d : Diagnostic} (h : d ∈ l.diagnostics) :
    d.path = l.path := by
  rw [(mem_diagnostics_iff.1 h).2]
  rfl

theorem diagnostics_moved (f : List Nat → List Nat) (l : Leaf) :
    (l.moved f).diagnostics = l.diagnostics.map (·.moved f) := by
  obtain ⟨path, command⟩ := l
  cases command <;> rfl

/-- At most one thing is reported about a leaf, and it is about its place. -/
theorem path_diagnostics_sublist (l : Leaf) : (l.diagnostics.map (·.path)).Sublist [l.path] := by
  obtain ⟨path, command⟩ := l
  cases command with
  | unknown => exact List.Sublist.refl [path]
  | line _ _ _ | rect _ _ _ | polygon _ _ | circle _ _ _ | ellipse _ _ _ | glow _ =>
    exact List.nil_sublist [path]

end Leaf

/-- The reports about some leaves are in the order of these. -/
theorem path_flatMap_diagnostics_sublist (ls : List Leaf) :
    ((ls.flatMap (·.diagnostics)).map (·.path)).Sublist (ls.map (·.path)) := by
  induction ls with
  | nil => exact List.Sublist.refl []
  | cons l ls ih =>
    rw [List.flatMap_cons, List.map_append, List.map_cons]
    exact l.path_diagnostics_sublist.append ih

/-- A fault is a matter of the commands, not of where they stand. -/
theorem firstFault?_moved (f : List Nat → List Nat) (ls : List Leaf) :
    firstFault? (ls.map (Leaf.moved f)) = firstFault? ls := by
  rw [firstFault?, List.findSome?_map]
  rfl

theorem firstFault?_append_eq_none_iff {ls ms : List Leaf} :
    firstFault? (ls ++ ms) = none ↔ firstFault? ls = none ∧ firstFault? ms = none := by
  rw [firstFault?, List.findSome?_append, Option.or_eq_none_iff]
  rfl

/-! ## The reports of a forest -/

namespace Compiler

variable {c : Compiler} {cs : List Command} {compiled : Compiled}

/-- **What is reported is what is unknown**, at the path that leads there. -/
theorem mem_diagnostics_iff (h : c.compile cs = .ok compiled) {d : Diagnostic} :
    d ∈ compiled.diagnostics ↔
      Command.at? d.path cs = some .unknown ∧ d = .unknownAt d.path := by
  obtain ⟨-, rfl⟩ := compile_eq_ok_iff.1 h
  rw [List.mem_flatMap]
  constructor
  · rintro ⟨l, hl, hd⟩
    obtain ⟨hunknown, rfl⟩ := Leaf.mem_diagnostics_iff.1 hd
    have hat := (Command.mem_leavesOf_iff.1 hl).1
    rw [hunknown] at hat
    exact ⟨hat, rfl⟩
  · rintro ⟨hat, hd⟩
    exact ⟨⟨d.path, .unknown⟩, Command.mem_leavesOf_iff.2 ⟨hat, rfl⟩,
      Leaf.mem_diagnostics_iff.2 ⟨rfl, hd⟩⟩

/-- **Reports are in the order of their paths.** -/
theorem pairwise_diagnostics (h : c.compile cs = .ok compiled) :
    (compiled.diagnostics.map (·.path)).Pairwise (List.Lex (· < ·)) := by
  obtain ⟨-, rfl⟩ := compile_eq_ok_iff.1 h
  have hleaves : ((Command.leavesOf cs).map (·.path)).Pairwise (List.Lex (· < ·)) :=
    List.pairwise_map.2 (Command.pairwise_leavesOf cs)
  exact hleaves.sublist (path_flatMap_diagnostics_sublist _)

/-- No path is reported twice. -/
theorem nodup_diagnostics (h : c.compile cs = .ok compiled) :
    (compiled.diagnostics.map (·.path)).Nodup := by
  refine (pairwise_diagnostics h).imp ?_
  rintro p _ hlex rfl
  exact Std.Asymm.asymm p p hlex hlex

/-- **One list behind another**: what is reported about the second is counted on. -/
theorem compile_append {xs ys : List Command} {a b : Compiled} (ha : c.compile xs = .ok a)
    (hb : c.compile ys = .ok b) :
    ∃ ab, c.compile (xs ++ ys) = .ok ab ∧
      ab.diagnostics =
        a.diagnostics ++ b.diagnostics.map (·.moved (·.modifyHead (xs.length + ·))) := by
  obtain ⟨hxs, rfl⟩ := compile_eq_ok_iff.1 ha
  obtain ⟨hys, rfl⟩ := compile_eq_ok_iff.1 hb
  refine ⟨_, compile_eq_ok_iff.2 ⟨?_, rfl⟩, ?_⟩
  · rw [Command.leavesOf_append, firstFault?_append_eq_none_iff, firstFault?_moved]
    exact ⟨hxs, hys⟩
  · show (Command.leavesOf (xs ++ ys)).flatMap _ = _
    rw [Command.leavesOf_append, List.flatMap_append, List.flatMap_map, List.map_flatMap]
    simp only [Leaf.diagnostics_moved]

/-- **Reports find the unknown entries.** Following the path of a report leads to an
unknown entry, of which the report gives the kind; every unknown entry, however
deep, is reported once; and reports are in the lexicographic order of their paths.
So what is reported about a list behind another is what is reported about it alone,
with the first index counted on. -/
theorem diagnostics_locate_unknowns (c : Compiler) :
    (∀ (cs : List Command) (compiled : Compiled), c.compile cs = .ok compiled →
      (∀ d ∈ compiled.diagnostics, Command.at? d.path cs = some .unknown ∧ d.kind = "unknown") ∧
      (∀ path, Command.at? path cs = some .unknown →
        (compiled.diagnostics.map (·.path)).count path = 1) ∧
      (compiled.diagnostics.map (·.path)).Pairwise (List.Lex (· < ·))) ∧
    ∀ (xs ys : List Command) (a b : Compiled), c.compile xs = .ok a → c.compile ys = .ok b →
      ∃ ab, c.compile (xs ++ ys) = .ok ab ∧
        ab.diagnostics = a.diagnostics ++
          b.diagnostics.map fun d => { d with path := d.path.modifyHead (xs.length + ·) } := by
  refine ⟨fun cs compiled h => ⟨?_, ?_, pairwise_diagnostics h⟩, fun xs ys a b => compile_append⟩
  · intro d hd
    obtain ⟨hat, hunknown⟩ := (mem_diagnostics_iff h).1 hd
    rw [hunknown]
    exact ⟨hat, rfl⟩
  · intro path hat
    have hmem : .unknownAt path ∈ compiled.diagnostics := (mem_diagnostics_iff h).2 ⟨hat, rfl⟩
    exact List.count_eq_one_of_mem (nodup_diagnostics h) (List.mem_map.2 ⟨_, hmem, rfl⟩)

/-- Two lists, each with an entry deep inside, one behind the other. -/
theorem diagnostics_of_nested_entries :
    let xs : List Command := [.line ⟨0, 0⟩ ⟨1, 0⟩ 0xff, .glow [.unknown]]
    let ys : List Command := [.unknown, .glow [.rect ⟨0, 0⟩ ⟨1, 1⟩ 0xff, .glow [.unknown]]]
    ∃ ab, Compiler.default.compile (xs ++ ys) = .ok ab ∧
      ab.diagnostics.map (·.path) = [[1, 0], [2], [3, 1, 0]] ∧
      (ab.diagnostics.map (·.path)).count [3, 1, 0] = 1 := by
  intro xs ys
  obtain ⟨a, ha⟩ : ∃ a, Compiler.default.compile xs = .ok a := ⟨_, compile_eq _ _⟩
  obtain ⟨b, hb⟩ : ∃ b, Compiler.default.compile ys = .ok b := ⟨_, compile_eq _ _⟩
  obtain ⟨ab, hab, hdiagnostics⟩ := (diagnostics_locate_unknowns .default).2 xs ys a b ha hb
  refine ⟨ab, hab, ?_, ((diagnostics_locate_unknowns .default).1 _ ab hab).2.1 _ rfl⟩
  rw [hdiagnostics, (compile_eq_ok_iff.1 ha).2, (compile_eq_ok_iff.1 hb).2]
  rfl

/-! ## An entry in the place of a command -/

/-- Where something unknown is put, nothing but it is left. -/
theorem not_prefix_of_mem_leavesOf {path : List Nat} {old : Command} {before after : List Leaf}
    (hat : Command.at? path cs = some old)
    (hsplit : Command.leavesOf (Command.replacedAt .unknown path cs) =
      before ++ [⟨path, .unknown⟩] ++ after) {l : Leaf} (hl : l ∈ before ++ after) :
    ¬ path <+: l.path := by
  rintro ⟨more, hmore⟩
  have hsorted := Command.pairwise_leavesOf (Command.replacedAt .unknown path cs)
  have hmem : l ∈ Command.leavesOf (Command.replacedAt .unknown path cs) := by
    rw [hsplit]
    rcases List.mem_append.1 hl with hl | hl
    · exact List.mem_append_left _ (List.mem_append_left _ hl)
    · exact List.mem_append_right _ hl
  have hthere := (Command.mem_leavesOf_iff.1 hmem).1
  rw [← hmore, Command.at?_append (Command.ne_nil_of_at? hat), Command.at?_replacedAt hat,
    Option.bind_some] at hthere
  -- the path of the leaf goes no further than the entry, so it is the entry's
  have hpath : l.path = path := by
    cases more with
    | nil => rw [← hmore, List.append_nil]
    | cons i more => cases hthere
  rw [hsplit, List.append_assoc, List.pairwise_append] at hsorted
  obtain ⟨-, hafter, hbefore⟩ := hsorted
  have hirrefl : ¬ List.Lex (· < ·) path path := fun h => Std.Asymm.asymm path path h h
  rcases List.mem_append.1 hl with hl | hl
  · have hlex : List.Lex _ l.path path := hbefore l hl _ List.mem_cons_self
    rw [hpath] at hlex
    exact hirrefl hlex
  · have hlex : List.Lex _ path l.path := (List.pairwise_cons.1 hafter).1 l hl
    rw [hpath] at hlex
    exact hirrefl hlex

/-- **What one bad entry does to a picture.** With an unknown entry in the place of a
command, a forest that compiles still does. The primitives that the command
contributed are gone, all of which stood together, and so are the reports from
inside it, in whose place the entry is reported; the others are as they were. -/
theorem exists_compile_replacedAt {path : List Nat} {old : Command}
    (hat : Command.at? path cs = some old) :
    ∃ before after : List Leaf,
      Command.leavesOf cs = before ++ old.leaves path ++ after ∧
      (∀ l ∈ old.leaves path, path <+: l.path) ∧ (∀ l ∈ before ++ after, ¬ path <+: l.path) ∧
      ∀ (c : Compiler) (compiled : Compiled), c.compile cs = .ok compiled →
        c.compile (Command.replacedAt .unknown path cs) = .ok
          ⟨before.flatMap (·.primitives c.settings) ++ after.flatMap (·.primitives c.settings),
            before.flatMap (·.diagnostics) ++ [.unknownAt path] ++
              after.flatMap (·.diagnostics)⟩ := by
  obtain ⟨before, after, hsplit⟩ := Command.exists_leavesOf_replacedAt hat
  have hold : Command.leavesOf cs = before ++ old.leaves path ++ after := by
    rw [← hsplit old, Command.replacedAt_self hat]
  have hnew : Command.leavesOf (Command.replacedAt .unknown path cs) =
      before ++ [⟨path, .unknown⟩] ++ after := by
    rw [hsplit .unknown, Command.leaves_of_not_isGlow rfl]
  refine ⟨before, after, hold, ?_, fun l => not_prefix_of_mem_leavesOf hat hnew,
    fun c compiled h => ?_⟩
  · intro l hl
    obtain ⟨more, hmore, -⟩ := (Command.mem_leaves_iff old).1 hl
    exact ⟨more, hmore.symm⟩
  · obtain ⟨hfault, -⟩ := compile_eq_ok_iff.1 h
    rw [hold, firstFault?_append_eq_none_iff, firstFault?_append_eq_none_iff] at hfault
    refine compile_eq_ok_iff.2 ⟨?_, ?_⟩
    · rw [hnew, firstFault?_append_eq_none_iff, firstFault?_append_eq_none_iff]
      exact ⟨⟨hfault.1.1, rfl⟩, hfault.2⟩
    · rw [hnew, List.flatMap_append, List.flatMap_append, List.flatMap_append, List.flatMap_append]
      -- the entry draws nothing, and is reported
      show _ = Compiled.mk (_ ++ [] ++ _) (_ ++ [.unknownAt path] ++ _)
      rw [List.append_nil]

end Compiler

end Linework
