import Linework.Proofs.Painting
import Linework.Proofs.Paths

/-!
# Scopes that make a difference

Of the scopes around a command one is as good as many, so a scope inside another
might as well not be there. Neither might one that holds nothing, nor, where glow is
for lines only, one that holds no line. Taking all of these out gives a forest its
normal form (`Command.normalForm`): the scopes left are at the top level, and each
makes a difference to something in it.

It is a rewriting of the commands, and what it keeps is the picture, to the last
bit, as well as the fault if there is one. What is passed over is passed over as
before, but may stand elsewhere. The proof goes by two views of a forest: its
commands without any scope (`Command.bare`), which decide whether there is a fault,
and its picture (`Command.picture`). Both are put together from those of the top-level
commands, so each rule is looked at alone, for one scope at the top level.
-/

namespace Linework

/-! ## Two views of a forest -/

/-- Counting on the index at the top level takes a leaf into no scope. -/
theorem Leaf.primitives_moved_modifyHead (settings : Settings) (f : Nat → Nat) (l : Leaf) :
    (l.moved (·.modifyHead f)).primitives settings = l.primitives settings := by
  rw [Leaf.primitives, Leaf.primitives, Leaf.inGlow_eq, Leaf.inGlow_eq]
  show l.command.primitives settings (decide (1 < (l.path.modifyHead f).length)) = _
  rw [List.length_modifyHead]

namespace Command

/-- **The commands of a forest without its scopes**, in the order they are drawn. -/
def bare (cs : List Command) : List Command := (leavesOf cs).map (·.command)

/-- **The picture of a forest**, whatever may be at fault in it. -/
def picture (settings : Settings) (cs : List Command) : List (Primitive Float32) :=
  (leavesOf cs).flatMap (·.primitives settings)

variable (settings : Settings)

theorem bare_append (xs ys : List Command) : bare (xs ++ ys) = bare xs ++ bare ys := by
  rw [bare, leavesOf_append, List.map_append, List.map_map]
  rfl

theorem picture_append (xs ys : List Command) :
    picture settings (xs ++ ys) = picture settings xs ++ picture settings ys := by
  rw [picture, leavesOf_append, List.flatMap_append, List.flatMap_map]
  refine congrArg (_ ++ ·) (List.flatMap_congr fun l _ => ?_)
  exact l.primitives_moved_modifyHead settings _

theorem leavesOf_singleton (c : Command) : leavesOf [c] = c.leaves [0] := by
  rw [leavesOf, leavesFrom, leavesFrom, List.append_nil]
  rfl

theorem bare_singleton {c : Command} (h : c.isGlow = false) : bare [c] = [c] := by
  rw [bare, leavesOf_singleton, leaves_of_not_isGlow h]
  rfl

theorem picture_singleton {c : Command} (h : c.isGlow = false) :
    picture settings [c] = c.primitives settings false := by
  rw [picture, leavesOf_singleton, leaves_of_not_isGlow h, List.flatMap_singleton]
  rfl

/-- The leaves inside a scope at the top level. -/
theorem leavesOf_glow (children : List Command) :
    leavesOf [.glow children] = (leavesOf children).map (Leaf.moved ([0] ++ ·)) := by
  rw [leavesOf_singleton, leaves]
  exact leavesFrom_moved children (f := ([0] ++ ·)) (fun _ => rfl) 0

@[simp] theorem bare_glow (children : List Command) : bare [.glow children] = bare children := by
  rw [bare, leavesOf_glow, List.map_map]
  rfl

/-- Inside a scope everything is drawn as inside a scope, also what is in a further
one. -/
theorem picture_glow (children : List Command) :
    picture settings [.glow children] = (bare children).flatMap (primitives settings true) := by
  rw [picture, leavesOf_glow, List.flatMap_map, bare, List.flatMap_map]
  refine List.flatMap_congr fun l hl => ?_
  have hpath : l.path ≠ [] := ne_nil_of_at? (mem_leavesOf_iff.1 hl).1
  have hglow : (l.moved ([0] ++ ·)).inGlow = true := by
    rw [Leaf.inGlow_eq, decide_eq_true_iff]
    show 1 < l.path.length + 1
    exact Nat.succ_lt_succ (List.length_pos_iff.2 hpath)
  rw [Leaf.primitives, hglow]
  rfl

theorem isGlow_of_mem_bare {cs : List Command} {c : Command} (hc : c ∈ bare cs) :
    c.isGlow = false := by
  obtain ⟨l, hl, rfl⟩ := List.mem_map.1 hc
  exact (mem_leavesOf_iff.1 hl).2

/-- Where there is no scope there is none to be left out. -/
theorem bare_of_not_isGlow {cs : List Command} (hcs : ∀ c ∈ cs, c.isGlow = false) :
    bare cs = cs := by
  induction cs with
  | nil => rfl
  | cons c cs ih =>
    obtain ⟨hc, hcs⟩ := List.forall_mem_cons.1 hcs
    rw [← List.singleton_append, bare_append, bare_singleton hc, ih hcs]

theorem picture_of_not_isGlow {cs : List Command} (hcs : ∀ c ∈ cs, c.isGlow = false) :
    picture settings cs = cs.flatMap (primitives settings false) := by
  induction cs with
  | nil => rfl
  | cons c cs ih =>
    obtain ⟨hc, hcs⟩ := List.forall_mem_cons.1 hcs
    rw [← List.singleton_append, picture_append, picture_singleton settings hc, ih hcs,
      List.flatMap_append, List.flatMap_singleton]

theorem bare_bare (cs : List Command) : bare (bare cs) = bare cs :=
  bare_of_not_isGlow fun _ => isGlow_of_mem_bare

end Command

/-- What is reported about a leaf: something or nothing, whatever its place. -/
theorem Leaf.length_diagnostics (l : Leaf) :
    l.diagnostics.length = (Leaf.diagnostics ⟨[], l.command⟩).length := by
  obtain ⟨path, command⟩ := l
  cases command <;> rfl

/-- **The two views are all there is** to compiling, but for the places that are
reported: forests with the same views fail with the same fault, or give the same
picture and report as much. -/
theorem Compiler.compile_congr {c : Compiler} {xs ys : List Command}
    (hbare : Command.bare xs = Command.bare ys)
    (hpicture : Command.picture c.settings xs = Command.picture c.settings ys) :
    ((c.compile xs).map fun r => (r.displayList, r.diagnostics.length)) =
      (c.compile ys).map fun r => (r.displayList, r.diagnostics.length) := by
  have hlength : ∀ ls : List Leaf, (ls.flatMap (·.diagnostics)).length =
      ((ls.map (·.command)).map fun c => (Leaf.diagnostics ⟨[], c⟩).length).sum := by
    intro ls
    rw [List.length_flatMap, List.map_map]
    exact congrArg List.sum (List.map_congr_left fun l _ => l.length_diagnostics)
  rw [compile_eq, compile_eq, firstFault?_congr hbare]
  cases firstFault? (Command.leavesOf ys) with
  | some fault => rfl
  | none =>
    show Except.ok (Command.picture c.settings xs, _) = .ok (Command.picture c.settings ys, _)
    have hreports := congrArg (fun cs : List Command =>
      (cs.map fun c => (Leaf.diagnostics ⟨[], c⟩).length).sum) hbare
    rw [hpicture, hlength, hlength]
    exact congrArg (fun n => Except.ok (Command.picture c.settings ys, n)) hreports

/-! ## The normal form -/

namespace Command

/-- Nothing stands in a forest but scopes. -/
def isHollow (cs : List Command) : Bool := (bare cs).isEmpty

/-- A line stands somewhere in a forest. -/
def hasLine (cs : List Command) : Bool := (bare cs).any fun c => c.pathKind == .line

mutual

/-- What a command becomes in the normal form, given whether glow is for every shape
and whether a scope stands around the command. -/
def normalized (everyShape inGlow : Bool) : Command → List Command
  | .glow children =>
    -- a scope inside another is no scope of its own
    if inGlow then normalizedAll everyShape true children
    else if isHollow children then []
    else if !everyShape && !hasLine children then normalizedAll everyShape true children
    else [.glow (normalizedAll everyShape true children)]
  | .line start stop color => [.line start stop color]
  | .rect pos size color => [.rect pos size color]
  | .polygon form color => [.polygon form color]
  | .circle center radius color => [.circle center radius color]
  | .ellipse center radii color => [.ellipse center radii color]
  | .unknown => [.unknown]

/-- What several commands become, one after another. -/
def normalizedAll (everyShape inGlow : Bool) : List Command → List Command
  | [] => []
  | c :: cs => normalized everyShape inGlow c ++ normalizedAll everyShape inGlow cs

end

/-- **The normal form of a forest.** A scope that stands in another is replaced by what
it holds; one that holds nothing but scopes is left out; and unless glow is for every
shape, one that holds no line is replaced by what it holds. -/
def normalForm (everyShape : Bool) (cs : List Command) : List Command :=
  normalizedAll everyShape false cs

mutual

/-- How many scopes of a command stand inside one another at most. -/
def glowNesting : Command → Nat
  | .glow children => glowNestingAll children + 1
  | _ => 0

/-- The most that any of several commands has. -/
def glowNestingAll : List Command → Nat
  | [] => 0
  | c :: cs => max (glowNesting c) (glowNestingAll cs)

end

/-- A forest without its scopes has what occurs in it, the scopes apart. -/
theorem mem_bare_iff {cs : List Command} {c : Command} :
    c ∈ bare cs ↔ c.OccursIn cs ∧ c.isGlow = false := by
  constructor
  · intro hc
    have hglow := isGlow_of_mem_bare hc
    exact ⟨(exists_mem_leavesOf_iff hglow cs).1 (List.mem_map.1 hc), hglow⟩
  · rintro ⟨hc, hglow⟩
    exact List.mem_map.2 ((exists_mem_leavesOf_iff hglow cs).2 hc)

theorem isHollow_eq_false_iff {cs : List Command} :
    isHollow cs = false ↔ ∃ c : Command, c.OccursIn cs ∧ c.isGlow = false := by
  rw [isHollow, List.isEmpty_eq_false_iff_exists_mem]
  exact exists_congr fun c => mem_bare_iff

theorem pathKind_eq_line_iff {c : Command} :
    c.pathKind = .line ↔ ∃ start stop color, c = .line start stop color := by
  cases c with
  | line start stop color => exact iff_of_true rfl ⟨start, stop, color, rfl⟩
  | rect _ _ _ | polygon _ _ | circle _ _ _ | ellipse _ _ _ | glow _ | unknown =>
    exact iff_of_false PathKind.noConfusion (by rintro ⟨_, _, _, h⟩; cases h)

theorem hasLine_iff {cs : List Command} :
    hasLine cs = true ↔ ∃ start stop color, (Command.line start stop color).OccursIn cs := by
  rw [hasLine, List.any_eq_true]
  constructor
  · rintro ⟨c, hc, hline⟩
    obtain ⟨start, stop, color, rfl⟩ := pathKind_eq_line_iff.1 (eq_of_beq hline)
    exact ⟨start, stop, color, (mem_bare_iff.1 hc).1⟩
  · rintro ⟨start, stop, color, hc⟩
    exact ⟨_, mem_bare_iff.2 ⟨hc, rfl⟩, rfl⟩

theorem normalized_of_not_isGlow (everyShape inGlow : Bool) {c : Command}
    (h : c.isGlow = false) : normalized everyShape inGlow c = [c] := by
  cases c with
  | glow children => cases h
  | line _ _ _ | rect _ _ _ | polygon _ _ | circle _ _ _ | ellipse _ _ _ | unknown =>
    rw [normalized]

mutual

theorem normalized_true (everyShape : Bool) :
    ∀ c : Command, normalized everyShape true c = bare [c]
  | .glow children => by
    rw [normalized, if_pos rfl, bare_glow]
    exact normalizedAll_true everyShape children
  | .line .. | .rect .. | .polygon .. | .circle .. | .ellipse .. | .unknown => by
    rw [normalized_of_not_isGlow everyShape true rfl, bare_singleton rfl]

/-- Inside a scope no scope is left. -/
theorem normalizedAll_true (everyShape : Bool) :
    ∀ cs : List Command, normalizedAll everyShape true cs = bare cs
  | [] => by
    rw [normalizedAll]
    rfl
  | c :: cs => by
    rw [normalizedAll, normalized_true everyShape c, normalizedAll_true everyShape cs,
      ← bare_append]
    rfl

end

/-- **What becomes of a scope at the top level**: it is left out with all it holds,
which is nothing, or it alone is left out, or everything inside it is. -/
theorem normalized_glow (everyShape : Bool) (children : List Command) :
    normalized everyShape false (.glow children) =
      if isHollow children then []
      else if !everyShape && !hasLine children then bare children
      else [.glow (bare children)] := by
  rw [normalized, if_neg Bool.false_ne_true, normalizedAll_true]

/-! ## What the normal form keeps -/

/-- The commands other than scopes stay, in their order. -/
theorem bare_normalized (everyShape : Bool) (c : Command) :
    bare (normalized everyShape false c) = bare [c] := by
  cases c with
  | glow children =>
    rw [normalized_glow, bare_glow]
    split
    · next hhollow => exact (List.isEmpty_iff.1 hhollow).symm
    · split
      · exact bare_bare children
      · rw [bare_glow, bare_bare]
  | line _ _ _ | rect _ _ _ | polygon _ _ | circle _ _ _ | ellipse _ _ _ | unknown =>
    rw [normalized_of_not_isGlow everyShape false rfl]

/-- An outline is drawn alike inside a scope and outside, unless glow is for every
shape. -/
theorem primitives_of_outline {settings : Settings} (hshape : settings.glow.everyShape = false)
    {c : Command} (hc : c.pathKind = .outline) (inGlow : Bool) :
    c.primitives settings inGlow = c.primitives settings false := by
  rw [primitives, primitives]
  cases c.color? with
  | none => rfl
  | some color =>
    dsimp only
    rw [Glow.strokesWithin_of_not (.inr ⟨hc, hshape⟩), Glow.strokesWithin_of_not (.inl rfl)]

/-- What each scope at the top level contributes to the picture stays. -/
theorem picture_normalized (settings : Settings) (c : Command) :
    picture settings (normalized settings.glow.everyShape false c) = picture settings [c] := by
  cases c with
  | glow children =>
    rw [normalized_glow, picture_glow]
    split
    · next hhollow => rw [List.isEmpty_iff.1 hhollow]; rfl
    · split
      · next hline =>
        -- no line, and only lines glow: so the scope has nothing to light up
        rw [Bool.and_eq_true, Bool.not_eq_true', Bool.not_eq_true'] at hline
        rw [picture_of_not_isGlow settings fun _ => isGlow_of_mem_bare]
        refine List.flatMap_congr fun d hd => ?_
        have houtline : d.pathKind = .outline := by
          cases hkind : d.pathKind with
          | outline => rfl
          | line => exact absurd (beq_iff_eq.2 hkind) (List.any_eq_false.1 hline.2 d hd)
        exact (primitives_of_outline hline.1 houtline true).symm
      · rw [picture_glow, bare_bare]
  | line _ _ _ | rect _ _ _ | polygon _ _ | circle _ _ _ | ellipse _ _ _ | unknown =>
    rw [normalized_of_not_isGlow _ false rfl]

theorem bare_normalForm (everyShape : Bool) (cs : List Command) :
    bare (normalForm everyShape cs) = bare cs := by
  induction cs with
  | nil => rw [normalForm, normalizedAll]
  | cons c cs ih =>
    rw [normalForm, normalizedAll, bare_append, bare_normalized]
    show bare [c] ++ bare (normalForm everyShape cs) = bare ([c] ++ cs)
    rw [ih, bare_append]

theorem picture_normalForm (settings : Settings) (cs : List Command) :
    picture settings (normalForm settings.glow.everyShape cs) = picture settings cs := by
  induction cs with
  | nil => rw [normalForm, normalizedAll]
  | cons c cs ih =>
    rw [normalForm, normalizedAll, picture_append, picture_normalized]
    show picture settings [c] ++ picture settings (normalForm _ cs) = picture settings ([c] ++ cs)
    rw [ih, picture_append]

/-! ## What is left of the scopes -/

/-- **The scopes of a normal form** hold no scope, something at least, and a line unless
glow is for every shape. -/
theorem of_glow_mem_normalForm {everyShape : Bool} {cs children : List Command}
    (h : .glow children ∈ normalForm everyShape cs) :
    (∀ c ∈ children, c.isGlow = false) ∧ isHollow children = false ∧
      (everyShape = false → hasLine children = true) := by
  induction cs with
  | nil => rw [normalForm, normalizedAll] at h; cases h
  | cons c cs ih =>
    rw [normalForm, normalizedAll, List.mem_append] at h
    rcases h with h | h
    · cases c with
      | glow inner =>
        rw [normalized_glow] at h
        split at h
        · cases h
        · next hhollow =>
          split at h
          · cases isGlow_of_mem_bare h
          · next hline =>
            cases List.mem_singleton.1 h
            refine ⟨fun _ => isGlow_of_mem_bare, ?_, fun hshape => ?_⟩
            · rw [isHollow, bare_bare]
              exact Bool.eq_false_iff.2 hhollow
            · rw [hasLine, bare_bare]
              show hasLine inner = true
              simpa [hshape] using hline
      | line _ _ _ | rect _ _ _ | polygon _ _ | circle _ _ _ | ellipse _ _ _ | unknown =>
        rw [normalized_of_not_isGlow everyShape false rfl] at h
        cases List.mem_singleton.1 h
    · exact ih h

/-- A scope that occurs among commands none of whose scopes holds another is one of
them. -/
theorem glow_mem_of_occursIn {cs children : List Command}
    (hflat : ∀ inner, .glow inner ∈ cs → ∀ c ∈ inner, c.isGlow = false)
    (h : (Command.glow children).OccursIn cs) : .glow children ∈ cs := by
  generalize hglow : Command.glow children = g at h
  induction h with
  | head cs => exact List.mem_cons_self
  | inside cs hinside ih =>
    -- it would be one of the commands of the first scope, and these are no scopes
    have hinner := hflat _ List.mem_cons_self
    have hmem := ih fun inner hmem => nomatch hinner _ hmem
    rw [← hglow] at hmem
    cases hinner _ hmem
  | tail c' _ ih =>
    exact List.mem_cons_of_mem _ (ih fun inner hmem => hflat inner (List.mem_cons_of_mem _ hmem))

theorem glowNestingAll_le_iff {cs : List Command} {n : Nat} :
    glowNestingAll cs ≤ n ↔ ∀ c ∈ cs, glowNesting c ≤ n := by
  induction cs with
  | nil => simp [glowNestingAll]
  | cons c cs ih => rw [glowNestingAll, Nat.max_le, ih, List.forall_mem_cons]

theorem glowNesting_of_not_isGlow {c : Command} (h : c.isGlow = false) : glowNesting c = 0 := by
  cases c with
  | glow children => cases h
  | line _ _ _ | rect _ _ _ | polygon _ _ | circle _ _ _ | ellipse _ _ _ | unknown => rfl

/-- **No scope of a normal form stands in another.** -/
theorem glowNestingAll_normalForm_le (everyShape : Bool) (cs : List Command) :
    glowNestingAll (normalForm everyShape cs) ≤ 1 := by
  refine glowNestingAll_le_iff.2 fun c hc => ?_
  cases c with
  | glow children =>
    have hinner : glowNestingAll children ≤ 0 := glowNestingAll_le_iff.2 fun d hd =>
      (glowNesting_of_not_isGlow ((of_glow_mem_normalForm hc).1 d hd)).le
    rw [glowNesting]
    exact Nat.succ_le_succ hinner
  | line _ _ _ | rect _ _ _ | polygon _ _ | circle _ _ _ | ellipse _ _ _ | unknown =>
    exact Nat.zero_le 1

end Command

/-- **The normal form has the same picture.** With the settings of the compiler, the
normal form of a forest fails if the forest does, with the same fault; otherwise it
gives the same primitives, to the last bit, and as many reports. None of its scopes
stands in another, and each of those left holds a command, and a line unless glow is
for every shape: no rule applies any more. -/
theorem Compiler.compile_normalForm (c : Compiler) (cs : List Command) :
    ((c.compile (Command.normalForm c.settings.glow.everyShape cs)).map fun r =>
        (r.displayList, r.diagnostics.length)) =
      ((c.compile cs).map fun r => (r.displayList, r.diagnostics.length)) ∧
    Command.glowNestingAll (Command.normalForm c.settings.glow.everyShape cs) ≤ 1 ∧
    ∀ children, (Command.glow children).OccursIn
        (Command.normalForm c.settings.glow.everyShape cs) →
      (∃ d : Command, d.OccursIn children ∧ d.isGlow = false) ∧
      (c.settings.glow.everyShape = false →
        ∃ start stop color, (Command.line start stop color).OccursIn children) := by
  refine ⟨compile_congr (Command.bare_normalForm _ cs) (Command.picture_normalForm _ cs),
    Command.glowNestingAll_normalForm_le _ cs, fun children hoccurs => ?_⟩
  have hmem := Command.glow_mem_of_occursIn
    (fun inner hinner => (Command.of_glow_mem_normalForm hinner).1) hoccurs
  obtain ⟨-, hhollow, hline⟩ := Command.of_glow_mem_normalForm hmem
  exact ⟨Command.isHollow_eq_false_iff.1 hhollow,
    fun hshape => Command.hasLine_iff.1 (hline hshape)⟩

/-- A line two scopes deep beside an empty scope, a rectangle and an entry that is no
command two scopes deep, and scopes around nothing: one scope is left, around the line. The
line is stroked three times and each edge of the rectangle once, in either form. What is
reported is the same entry, but it stands elsewhere. -/
theorem Compiler.compile_normalForm_nested :
    let line : Command := .line ⟨0, 0⟩ ⟨1, 0⟩ 0xff
    let rect : Command := .rect ⟨0, 0⟩ ⟨1, 1⟩ 0xff
    let cs : List Command :=
      [.glow [.glow [line], .glow []], .glow [.glow [rect, .unknown]], .glow [.glow []]]
    let form : List Command := [.glow [line], rect, .unknown]
    Command.normalForm false cs = form ∧
      ((Compiler.default.compile form).map fun r => (r.displayList, r.diagnostics.length)) =
        ((Compiler.default.compile cs).map fun r => (r.displayList, r.diagnostics.length)) ∧
      (∃ a b, Compiler.default.compile form = .ok a ∧ Compiler.default.compile cs = .ok b ∧
        a.displayList = b.displayList ∧
        b.displayList.map (·.width) = [3.0, 2.0, 0.5, 1.0, 1.0, 1.0, 1.0] ∧
        a.diagnostics.map (·.path) = [[2]] ∧ b.diagnostics.map (·.path) = [[1, 0, 1]]) ∧
      ∃ start stop color, (Command.line start stop color).OccursIn [line] := by
  intro line rect cs form
  have hform : Command.normalForm Compiler.default.settings.glow.everyShape cs = form := rfl
  obtain ⟨hcompile, -, hscopes⟩ := compile_normalForm .default cs
  rw [hform] at hcompile hscopes
  refine ⟨hform, hcompile, ?_, (hscopes [line] (.head _)).2 rfl⟩
  obtain ⟨a, ha⟩ : ∃ a, Compiler.default.compile form = .ok a := ⟨_, compile_eq _ _⟩
  obtain ⟨b, hb⟩ : ∃ b, Compiler.default.compile cs = .ok b := ⟨_, compile_eq _ _⟩
  rw [ha, hb] at hcompile
  refine ⟨a, b, ha, hb, congrArg Prod.fst (Except.ok.inj hcompile), ?_, ?_, ?_⟩
  · rw [(compile_eq_ok_iff.1 hb).2]
    rfl
  · rw [(compile_eq_ok_iff.1 ha).2]
    rfl
  · rw [(compile_eq_ok_iff.1 hb).2]
    rfl

end Linework
