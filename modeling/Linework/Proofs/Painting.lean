import Linework.Proofs.Leaves

/-!
# Painting goes through the leaves

The painter walks a forest by recursion. It counts the scopes it is in, keeps the
path to where it is, and adds to a growing drawing. None of that is visible in
the end: what comes out is what a loop over the leaves would draw, one leaf after
another up to the first that is at fault. `paintLeaves` is that loop, and
`Paint.commands_eq` is the walk and the loop being equal.

The invariant that carries the recursion is a small one. A scope is open exactly
if the path leads into one, that is, if it is not the empty path of the top level.
The count of scopes stops at its greatest value, but never goes back to zero, and
that is all the invariant needs of it.

From the loop follow what a compiler returns (`Compiler.compile_eq`) and, read off
it, both of the main statements here: which primitives a picture consists of, and
exactly when and why there is none.
-/

namespace Linework

/-! ## The loop over the leaves -/

/-- A drawing with more in it. -/
def Drawing.extended (d : Drawing) (ps : List (Primitive Float32)) (ds : List Diagnostic) :
    Drawing :=
  { d with primitives := d.primitives ++ ps, diagnostics := d.diagnostics ++ ds }

namespace Drawing

@[simp] theorem extended_path (d : Drawing) (ps : List (Primitive Float32))
    (ds : List Diagnostic) : (d.extended ps ds).path = d.path := rfl

@[simp] theorem extended_nil (d : Drawing) : d.extended [] [] = d := by
  simp [extended]

theorem extended_extended (d : Drawing) (ps qs : List (Primitive Float32))
    (ds es : List Diagnostic) :
    (d.extended ps ds).extended qs es = d.extended (ps ++ qs) (ds ++ es) := by
  rw [extended, extended, extended, mk.injEq]
  refine ⟨Array.toList_inj.1 ?_, Array.toList_inj.1 ?_, rfl⟩
  · simp
  · simp

end Drawing

/-- Draws leaves one after another, up to the first that is at fault. -/
def paintLeaves (settings : Settings) :
    List Leaf → Drawing → Except PolygonFault Unit × Drawing
  | [], d => (.ok (), d)
  | l :: ls, d =>
    match l.command.fault? with
    | some fault => (.error fault, d)
    | none => paintLeaves settings ls (d.extended (l.primitives settings) l.diagnostics)

theorem paintLeaves_singleton (settings : Settings) (l : Leaf) (d : Drawing) :
    paintLeaves settings [l] d =
      match l.command.fault? with
      | some fault => (.error fault, d)
      | none => (.ok (), d.extended (l.primitives settings) l.diagnostics) := rfl

theorem paintLeaves_append (settings : Settings) (ls ms : List Leaf) (d : Drawing) :
    paintLeaves settings (ls ++ ms) d =
      match paintLeaves settings ls d with
      | (.error fault, d') => (.error fault, d')
      | (.ok (), d') => paintLeaves settings ms d' := by
  induction ls generalizing d with
  | nil => rfl
  | cons l ls ih =>
    rw [List.cons_append, paintLeaves, paintLeaves]
    cases l.command.fault? with
    | some fault => rfl
    | none => exact ih _

/-- The path is left alone. -/
theorem paintLeaves_path (settings : Settings) (ls : List Leaf) (d : Drawing) :
    (paintLeaves settings ls d).2.path = d.path := by
  induction ls generalizing d with
  | nil => rfl
  | cons l ls ih =>
    rw [paintLeaves]
    cases l.command.fault? with
    | some fault => rfl
    | none => exact ih _

/-- The path plays no part in what is drawn. -/
theorem paintLeaves_withPath (settings : Settings) (ls : List Leaf) (d : Drawing)
    (path : List Nat) :
    paintLeaves settings ls { d with path } =
      ((paintLeaves settings ls d).1, { (paintLeaves settings ls d).2 with path }) := by
  induction ls generalizing d with
  | nil => rfl
  | cons l ls ih =>
    rw [paintLeaves, paintLeaves]
    cases l.command.fault? with
    | some fault => rfl
    | none => exact ih (d.extended (l.primitives settings) l.diagnostics)

/-- The first fault among some leaves. -/
def firstFault? (ls : List Leaf) : Option PolygonFault :=
  ls.findSome? fun l => l.command.fault?

/-- Which fault comes first depends on the faults of the leaves, not on where they
stand. -/
theorem firstFault?_congr_fault? {ls ms : List Leaf}
    (h : ls.map (·.command.fault?) = ms.map (·.command.fault?)) :
    firstFault? ls = firstFault? ms := by
  have hfaults : ∀ ls : List Leaf,
      firstFault? ls = (ls.map (·.command.fault?)).findSome? id := by
    intro ls
    rw [List.findSome?_map]
    rfl
  rw [hfaults, hfaults, h]

theorem firstFault?_congr {ls ms : List Leaf}
    (h : ls.map (·.command) = ms.map (·.command)) : firstFault? ls = firstFault? ms := by
  have hfaults := congrArg (List.map Command.fault?) h
  rw [List.map_map, List.map_map] at hfaults
  exact firstFault?_congr_fault? hfaults

/-- Without a fault every leaf is drawn. -/
theorem paintLeaves_of_none (settings : Settings) {ls : List Leaf} (h : firstFault? ls = none)
    (d : Drawing) :
    paintLeaves settings ls d =
      (.ok (), d.extended (ls.flatMap (·.primitives settings)) (ls.flatMap (·.diagnostics))) := by
  induction ls generalizing d with
  | nil => simp [paintLeaves]
  | cons l ls ih =>
    rw [firstFault?, List.findSome?_cons] at h
    cases hl : l.command.fault? with
    | some fault => rw [hl] at h; cases h
    | none =>
      rw [hl] at h
      rw [paintLeaves, hl]
      show paintLeaves settings ls _ = _
      rw [ih h, Drawing.extended_extended, List.flatMap_cons, List.flatMap_cons]

/-- The first fault is the one that is reported. -/
theorem paintLeaves_of_some (settings : Settings) {ls : List Leaf} {fault : PolygonFault}
    (h : firstFault? ls = some fault) (d : Drawing) :
    (paintLeaves settings ls d).1 = .error fault := by
  induction ls generalizing d with
  | nil => cases h
  | cons l ls ih =>
    rw [firstFault?, List.findSome?_cons] at h
    rw [paintLeaves]
    cases hl : l.command.fault? with
    | some fault' =>
      rw [hl] at h
      rw [Option.some.inj h]
    | none =>
      rw [hl] at h
      exact ih h _

/-! ## One command that is no scope -/

/-- Strokes by depth are strokes by whether a scope is open. -/
theorem Glow.strokes_eq_strokesWithin (glow : Glow) (depth : GlowDepth) (kind : PathKind)
    (color : UInt32) :
    glow.strokes depth kind (.ofPacked color) = glow.strokesWithin depth.isOpen kind color := rfl

namespace Paint

variable (settings : Settings) (depth : GlowDepth) (color : UInt32) (d : Drawing)

/-- Painting one thing and then another, up to a fault. -/
theorem bind_apply (x y : Paint Unit) :
    (x >>= fun _ => y) d =
      match x d with
      | (.error fault, d') => (.error fault, d')
      | (.ok (), d') => y d' := by
  show ExceptT.bindCont (fun _ => y) (x d).1 (x d).2 = _
  rcases x d with ⟨_ | _, d'⟩ <;> rfl

theorem path_eq (kind : PathKind) (g : Geometry) :
    path settings depth kind color g.topology g.vertices d =
      (.ok (), d.extended (g.stroked (settings.glow.strokesWithin depth.isOpen kind color)) []) := by
  rw [Drawing.extended, Geometry.stroked, ← Glow.strokes_eq_strokesWithin]
  rfl

/-- The edges of an outline are stroked in turn. -/
theorem forM_path_eq (edges : List (Point Float32 × Point Float32)) :
    (edges.forM fun (a, b) => path settings depth .outline color .segments [a, b]) d =
      (.ok (), d.extended ((edges.map fun (a, b) => Geometry.segment a b).flatMap
        (Geometry.stroked (settings.glow.strokesWithin depth.isOpen .outline color))) []) := by
  induction edges generalizing d with
  | nil => rw [List.map_nil, List.flatMap_nil, Drawing.extended_nil]; rfl
  | cons e edges ih =>
    obtain ⟨a, b⟩ := e
    have hedge := path_eq settings depth color d .outline (Geometry.segment a b)
    dsimp only [Geometry.segment] at hedge
    rw [List.forM, bind_apply]
    dsimp only
    rw [hedge]
    dsimp only
    rw [ih, Drawing.extended_extended, List.map_cons, List.flatMap_cons]
    rfl

/-- An outline has a vertex at least, and with one it can be stroked. -/
theorem polygon_eq (vertices : List (Point Float32)) :
    polygon settings depth color vertices d =
      if vertices = [] then (.error .noVertices, d)
      else (.ok (), d.extended ((Geometry.closed vertices).stroked
        (settings.glow.strokesWithin depth.isOpen .outline color)) []) := by
  match vertices with
  | [] => rfl
  | [p] => exact path_eq settings depth color d .outline (Geometry.segment p p)
  | p :: q :: rest => exact path_eq settings depth color d .outline ⟨.lineLoop, p :: q :: rest⟩

end Paint

theorem ngon_ne_nil (center : Point Float32) (radius : Float32) {sides : UInt32}
    (h : sides ≠ 0) (rotation : Float32) : ngon center radius sides rotation ≠ [] := by
  intro hnil
  have hlen := length_ngon center radius sides rotation
  rw [hnil, List.length_nil] at hlen
  exact h (UInt32.toNat_inj.1 hlen.symm)

/-- **A command that is no scope is one round of the loop.** That a circle always
has an outline takes settings that give it segments. -/
theorem Paint.command_eq_of_not_isGlow {settings : Settings} (hs : settings.circleSegments ≠ 0)
    (depth : GlowDepth) {c : Command} (hc : c.isGlow = false) (d : Drawing) :
    Paint.command settings depth c d =
      match c.fault? with
      | some fault => (.error fault, d)
      | none => (.ok (), d.extended (c.primitives settings depth.isOpen)
          (Leaf.diagnostics ⟨d.path.reverse, c⟩)) := by
  cases c with
  | glow children => simp [Command.isGlow] at hc
  | line start stop color =>
    rw [Paint.command, Command.primitives_of_single rfl rfl]
    exact path_eq settings depth color d .line (Geometry.segment start stop)
  | rect pos size color =>
    rw [Paint.command]
    exact forM_path_eq settings depth color d (boxEdges pos size)
  | circle center radius color =>
    -- a circle is drawn as a polygon, whose one fault is to have no corner
    rw [Paint.command, polygon_eq, if_neg (ngon_ne_nil center radius hs 0),
      Command.primitives_of_single rfl rfl]
    rfl
  | ellipse center radii color =>
    rw [Paint.command, Command.primitives_of_single rfl rfl]
    exact path_eq settings depth color d .outline ⟨.lineLoop, _⟩
  | unknown =>
    rw [Paint.command]
    rfl
  | polygon form color =>
    cases form with
    | points ps =>
      rw [Paint.command, PolygonForm.vertices]
      show polygon settings depth color ps d = _
      rw [polygon_eq]
      cases ps with
      | nil => rfl
      | cons p ps =>
        rw [if_neg (List.cons_ne_nil p ps), Command.primitives_of_single rfl rfl]
        rfl
    | regular center radius sides rotation =>
      rw [Paint.command, PolygonForm.vertices, Command.fault?]
      by_cases hsides : sides = 0
      · rw [if_pos hsides, if_pos hsides]
        rfl
      · rw [if_neg hsides, if_neg hsides]
        show polygon settings depth color _ d = _
        rw [polygon_eq, if_neg (ngon_ne_nil center radius hsides rotation),
          Command.primitives_of_single rfl rfl]
        rfl

/-! ## The walk is the loop -/

/-- **The path is the caller's again** after an entry, whatever became of it. -/
theorem Paint.entry_eq {settings : Settings} {step : Paint Unit} {ls : List Leaf} {d : Drawing}
    (i : Nat)
    (h : step { d with path := i :: d.path } =
      paintLeaves settings ls { d with path := i :: d.path }) :
    Paint.entry i step d = paintLeaves settings ls d := by
  have hpath := paintLeaves_path settings ls d
  rw [Paint.entry, h, paintLeaves_withPath]
  show (_, { (paintLeaves settings ls d).2 with path := d.path }) = _
  rw [← hpath]

mutual

/-- A command is painted as its leaves are, where the path leads to it. -/
theorem Paint.command_eq {settings : Settings} (hs : settings.circleSegments ≠ 0)
    (depth : GlowDepth) (d : Drawing) (hpath : 0 < d.path.length)
    (hopen : depth.isOpen = decide (1 < d.path.length)) :
    ∀ c : Command,
      Paint.command settings depth c d = paintLeaves settings (c.leaves d.path.reverse) d
  | .glow children => by
    rw [Paint.command, Command.leaves]
    have hdeeper : depth.deeper.isOpen = decide (0 < d.path.length) := by
      rw [GlowDepth.isOpen_deeper, eq_comm, decide_eq_true_iff]
      exact hpath
    exact Paint.commands_eq hs depth.deeper d hdeeper 0 children
  | .line .. | .rect .. | .polygon .. | .circle .. | .ellipse .. | .unknown => by
    rw [Command.leaves_of_not_isGlow rfl, paintLeaves_singleton, Leaf.primitives,
      Leaf.inGlow_eq, List.length_reverse, ← hopen]
    exact Paint.command_eq_of_not_isGlow hs depth rfl d

/-- Commands are painted as their leaves are, where the path leads to the scope
around them. -/
theorem Paint.commands_eq {settings : Settings} (hs : settings.circleSegments ≠ 0)
    (depth : GlowDepth) (d : Drawing) (hopen : depth.isOpen = decide (0 < d.path.length)) (i : Nat) :
    ∀ cs : List Command,
      Paint.commands settings depth i cs d =
        paintLeaves settings (Command.leavesFrom d.path.reverse i cs) d
  | [] => by
    rw [Paint.commands, Command.leavesFrom]
    rfl
  | c :: cs => by
    rw [Paint.commands, Command.leavesFrom, paintLeaves_append, Paint.bind_apply]
    have hentry : Paint.entry i (Paint.command settings depth c) d =
        paintLeaves settings (c.leaves (d.path.reverse ++ [i])) d := by
      refine Paint.entry_eq i ?_
      have hopen' : depth.isOpen = decide (1 < (i :: d.path).length) := by
        rw [hopen, List.length_cons]
        exact decide_eq_decide.2 (Nat.succ_lt_succ_iff).symm
      have hc := Paint.command_eq hs depth { d with path := i :: d.path } (Nat.succ_pos _) hopen' c
      rwa [List.reverse_cons] at hc
    -- what the first command did to the drawing matters to the rest by its path alone
    have hpath := paintLeaves_path settings (c.leaves (d.path.reverse ++ [i])) d
    rw [hentry]
    generalize paintLeaves settings (c.leaves (d.path.reverse ++ [i])) d = painted at hpath ⊢
    rcases painted with ⟨_ | _, d'⟩
    · rfl
    · dsimp only at hpath ⊢
      rw [Paint.commands_eq hs depth d' (by rw [hpath]; exact hopen) (i + 1) cs, hpath]

end

/-! ## What a compiler returns -/

theorem Settings.circleSegments_ne_zero {settings : Settings} (h : settings.fault? = none) :
    settings.circleSegments ≠ 0 := by
  intro hzero
  rw [Settings.fault?, if_pos hzero] at h
  cases h

namespace Compiler

/-- **A compiler draws the leaves**, or reports the first fault among them. -/
theorem compile_eq (c : Compiler) (cs : List Command) :
    c.compile cs =
      match firstFault? (Command.leavesOf cs) with
      | some fault => .error fault
      | none => .ok ⟨(Command.leavesOf cs).flatMap (·.primitives c.settings),
          (Command.leavesOf cs).flatMap (·.diagnostics)⟩ := by
  have hwalk : (Paint.commands c.settings .none 0 cs).run Drawing.blank =
      paintLeaves c.settings (Command.leavesOf cs) Drawing.blank :=
    Paint.commands_eq (Settings.circleSegments_ne_zero c.valid) .none Drawing.blank rfl 0 cs
  rw [compile, hwalk]
  cases hfault : firstFault? (Command.leavesOf cs) with
  | none =>
    rw [paintLeaves_of_none c.settings hfault]
    simp [Drawing.extended, Drawing.blank]
  | some fault =>
    have hresult := paintLeaves_of_some c.settings hfault Drawing.blank
    generalize paintLeaves c.settings (Command.leavesOf cs) Drawing.blank = painted at hresult ⊢
    obtain ⟨result, d⟩ := painted
    dsimp only at hresult
    rw [hresult]

theorem compile_eq_ok_iff {c : Compiler} {cs : List Command} {compiled : Compiled} :
    c.compile cs = .ok compiled ↔
      firstFault? (Command.leavesOf cs) = none ∧
        compiled = ⟨(Command.leavesOf cs).flatMap (·.primitives c.settings),
          (Command.leavesOf cs).flatMap (·.diagnostics)⟩ := by
  rw [compile_eq]
  cases firstFault? (Command.leavesOf cs) with
  | some fault => simp
  | none => simp [eq_comm]

/-- The settings play no part in what is reported. -/
theorem map_diagnostics_compile (c : Compiler) (cs : List Command) :
    (c.compile cs).map (·.diagnostics) =
      match firstFault? (Command.leavesOf cs) with
      | some fault => .error fault
      | none => .ok ((Command.leavesOf cs).flatMap (·.diagnostics)) := by
  rw [compile_eq]
  cases firstFault? (Command.leavesOf cs) <;> rfl

end Compiler

/-! ## What is in a picture -/

/-- The bits of one byte of a word, taken out and put back in its place. -/
theorem testBit_byte (n k i : Nat) :
    ((n >>> k % 256) <<< k % 4294967296).testBit i =
      (decide (k ≤ i ∧ i < k + 8 ∧ i < 32) && n.testBit i) := by
  rw [show (256 : Nat) = 2 ^ 8 from rfl, show (4294967296 : Nat) = 2 ^ 32 from rfl,
    Nat.testBit_mod_two_pow, Nat.testBit_shiftLeft, Nat.testBit_mod_two_pow,
    Nat.testBit_shiftRight]
  by_cases hk : k ≤ i
  · rw [Nat.add_sub_cancel' hk]
    grind
  · simp [hk]

/-- Nothing of a packed word is lost in its colour. -/
theorem Color.packed_ofPacked (w : UInt32) : (Color.ofPacked w).packed = w := by
  refine UInt32.toNat_inj.1 (Nat.eq_of_testBit_eq fun i => ?_)
  have hlow : (w.toNat % 256).testBit i = (decide (i < 8) && w.toNat.testBit i) :=
    Nat.testBit_mod_two_pow w.toNat 8 i
  have hbits : (Color.ofPacked w).packed.toNat.testBit i =
      (((w.toNat >>> 24 % 256) <<< 24 % 4294967296).testBit i ||
        ((w.toNat >>> 16 % 256) <<< 16 % 4294967296).testBit i ||
        ((w.toNat >>> 8 % 256) <<< 8 % 4294967296).testBit i || (w.toNat % 256).testBit i) := by
    simp [Color.packed, Color.ofPacked, Nat.testBit_or]
  rw [hbits, testBit_byte, testBit_byte, testBit_byte, hlow]
  by_cases hi : i < 32
  · grind
  · have hhigh : w.toNat.testBit i = false :=
      Nat.testBit_lt_two_pow (Nat.lt_of_lt_of_le w.toNat_lt
        (Nat.pow_le_pow_right (by decide) (Nat.le_of_not_lt hi)))
    simp [hhigh]

/-- What does not glow is stroked once, a unit wide and in its own colour. -/
theorem Glow.strokesWithin_of_not {glow : Glow} {inGlow : Bool} {kind : PathKind}
    (h : inGlow = false ∨ kind = .outline ∧ glow.everyShape = false) (color : UInt32) :
    glow.strokesWithin inGlow kind color = [⟨1.0, .ofPacked color⟩] := by
  rw [Glow.strokesWithin, if_neg]
  rcases h with rfl | ⟨rfl, hshape⟩
  · simp
  · simp [hshape]

/-- A command that does not glow keeps its colour. -/
theorem Command.packed_of_mem_primitives {settings : Settings} {inGlow : Bool} {c : Command}
    (h : inGlow = false ∨ c.pathKind = .outline ∧ settings.glow.everyShape = false)
    {p : Primitive Float32} (hp : p ∈ c.primitives settings inGlow) :
    p.width = 1.0 ∧ some p.color.packed = c.color? := by
  rw [Command.primitives] at hp
  cases hcolor : c.color? with
  | none => rw [hcolor] at hp; cases hp
  | some color =>
    rw [hcolor] at hp
    obtain ⟨g, -, hg⟩ := List.mem_flatMap.1 hp
    rw [Glow.strokesWithin_of_not h] at hg
    obtain ⟨s, hs, rfl⟩ := List.mem_map.1 hg
    rw [List.mem_singleton.1 hs]
    exact ⟨rfl, congrArg some (Color.packed_ofPacked color)⟩

/-- **A picture is its leaves, one after another.** Each leaf adds what
`Command.primitives` says, and of all that surrounds it this depends on one thing
only, namely whether there is a glow around it: neither on how many there are, nor
on other commands. A leaf that does not glow is stroked a unit wide, in the colour
that packs to the command's own. -/
theorem Compiler.displayList_eq_flatMap_leaves (c : Compiler) (cs : List Command)
    {compiled : Compiled} (h : c.compile cs = .ok compiled) :
    compiled.displayList =
        (Command.leavesOf cs).flatMap (fun l => l.command.primitives c.settings l.inGlow) ∧
      ∀ l ∈ Command.leavesOf cs,
        l.inGlow = false ∨
            l.command.pathKind = .outline ∧ c.settings.glow.everyShape = false →
          ∀ p ∈ l.command.primitives c.settings l.inGlow,
            p.width = 1.0 ∧ some p.color.packed = l.command.color? := by
  refine ⟨?_, fun l _ hl p hp => Command.packed_of_mem_primitives hl hp⟩
  rw [Compiler.compile_eq] at h
  cases hfault : firstFault? (Command.leavesOf cs) with
  | some fault => rw [hfault] at h; cases h
  | none =>
    rw [hfault] at h
    rw [← Except.ok.inj h]
    rfl

/-- A line two scopes deep is stroked three times and not nine, and the line after
the scopes once. -/
theorem Compiler.displayList_nested_glow :
    ∃ compiled,
      Compiler.default.compile [.glow [.glow [.line ⟨0, 0⟩ ⟨1, 0⟩ 0xff0000ff], .unknown],
          .line ⟨0, 0⟩ ⟨0, 1⟩ 0x00ff00ff] = .ok compiled ∧
        compiled.displayList.map (·.width) = [3.0, 2.0, 0.5, 1.0] := by
  obtain ⟨compiled, h⟩ : ∃ compiled,
      Compiler.default.compile [.glow [.glow [.line ⟨0, 0⟩ ⟨1, 0⟩ 0xff0000ff], .unknown],
        .line ⟨0, 0⟩ ⟨0, 1⟩ 0x00ff00ff] = .ok compiled := ⟨_, Compiler.compile_eq _ _⟩
  refine ⟨compiled, h, ?_⟩
  rw [(Compiler.displayList_eq_flatMap_leaves .default _ h).1]
  rfl

/-! ## Why there is no picture -/

/-- The first fault among some leaves splits them where it is. -/
theorem firstFault?_eq_some {ls : List Leaf} {fault : PolygonFault}
    (h : firstFault? ls = some fault) :
    ∃ before l after, ls = before ++ l :: after ∧
      (∀ m ∈ before, m.command.fault? = none) ∧ l.command.fault? = some fault := by
  obtain ⟨before, l, after, hls, hl, hbefore⟩ := List.findSome?_eq_some_iff.1 h
  exact ⟨before, l, after, hls, hbefore, hl⟩

/-- There is a fault exactly if some command in the forest has nothing to draw. -/
theorem firstFault?_leavesOf_isSome (cs : List Command) :
    (∃ fault, firstFault? (Command.leavesOf cs) = some fault) ↔
      ∃ (p : Command) (reason : String), p.OccursIn cs ∧ p.IsVoidFor reason := by
  constructor
  · rintro ⟨fault, h⟩
    obtain ⟨before, l, after, hls, -, hl⟩ := firstFault?_eq_some h
    have hmem : l ∈ Command.leavesOf cs := by
      rw [hls]
      exact List.mem_append_right _ List.mem_cons_self
    exact ⟨l.command, fault.reason, Command.occursIn_of_mem_leavesFrom cs hmem,
      Command.isVoidFor_of_fault? hl⟩
  · rintro ⟨p, reason, hp, hvoid⟩
    obtain ⟨l, hl, hlp⟩ := (Command.exists_mem_leavesOf_iff hvoid.isGlow_eq cs).2 hp
    obtain ⟨fault, hfault⟩ := Command.exists_fault?_of_isVoidFor hvoid
    have hsome : (firstFault? (Command.leavesOf cs)).isSome :=
      List.findSome?_isSome_iff.2 ⟨l, hl, by rw [hlp, hfault]; rfl⟩
    exact Option.isSome_iff_exists.1 hsome

/-- **Only a polygon without a vertex stops a compiler**, wherever it stands, and
the first one is reported. Nothing about the settings matters as long as they are
without fault: two compilers fail on the same forests with the same words, and
pass over the same commands in the others. -/
theorem Compiler.compile_error_iff_isVoidFor (c : Compiler) (cs : List Command) :
    ((∃ fault, c.compile cs = .error fault) ↔
        ∃ (p : Command) (reason : String), p.OccursIn cs ∧ p.IsVoidFor reason) ∧
      (∀ fault, c.compile cs = .error fault →
        fault.kind = "polygon" ∧
          ∃ before l after, Command.leavesOf cs = before ++ l :: after ∧
            (∀ m ∈ before, ∀ reason, ¬ m.command.IsVoidFor reason) ∧
            l.command.IsVoidFor fault.reason) ∧
      ∀ c' : Compiler,
        (c.compile cs).map (·.diagnostics) = (c'.compile cs).map (·.diagnostics) := by
  have herror : ∀ fault,
      c.compile cs = .error fault ↔ firstFault? (Command.leavesOf cs) = some fault := by
    intro fault
    rw [Compiler.compile_eq]
    cases firstFault? (Command.leavesOf cs) <;> simp
  refine ⟨?_, ?_, ?_⟩
  · rw [← firstFault?_leavesOf_isSome]
    exact exists_congr herror
  · intro fault h
    obtain ⟨before, l, after, hls, hbefore, hl⟩ := firstFault?_eq_some ((herror fault).1 h)
    exact ⟨rfl, before, l, after, hls, fun m hm => Command.fault?_eq_none_iff.1 (hbefore m hm),
      Command.isVoidFor_of_fault? hl⟩
  · intro c'
    rw [Compiler.map_diagnostics_compile, Compiler.map_diagnostics_compile]

/-- Of two polygons without a vertex the one inside the scope comes first. -/
theorem Compiler.compile_error_inside_glow :
    ∃ fault,
      Compiler.default.compile [.unknown, .glow [.unknown, .polygon (.points []) 0xff],
          .polygon (.regular ⟨0, 0⟩ 1 0 0) 0xff] = .error fault ∧
        fault.kind = "polygon" ∧ fault.reason = "a polygon needs at least one vertex" := by
  have hoccurs : ∃ (p : Command) (reason : String),
      p.OccursIn [.unknown, .glow [.unknown, .polygon (.points []) 0xff],
        .polygon (.regular ⟨0, 0⟩ 1 0 0) 0xff] ∧ p.IsVoidFor reason :=
    ⟨_, _, .tail _ (.inside _ (.tail _ (.head _))), .noVertices 0xff⟩
  obtain ⟨fault, h⟩ := (Compiler.compile_error_iff_isVoidFor .default _).1.2 hoccurs
  have hfault : PolygonFault.noVertices = fault :=
    Except.error.inj ((Compiler.compile_eq .default _).symm.trans h)
  exact ⟨fault, h, ((Compiler.compile_error_iff_isVoidFor .default _).2.1 fault h).1,
    by rw [← hfault]; rfl⟩

end Linework
