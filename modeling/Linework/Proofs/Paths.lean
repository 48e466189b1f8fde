import Mathlib.Data.List.Lex
import Linework.Proofs.Leaves

/-!
# Where a path leads

A path says where in a forest a command stands: its index at the top level, then
its index in each glow on the way. `Command.at?` follows a path, and it knows
nothing of leaves. That the leaves of a forest carry the paths that lead to them,
and that they are all that stands anywhere but for the scopes, is
`Command.mem_leavesOf_iff`. They come in the lexicographic order of their paths
(`Command.pairwise_leavesOf`), so no path comes twice.

A path also says where to put something. Replacing the command that a path leads
to changes one block of leaves, those of the command itself, and what comes before
and after that block does not depend on what is put there
(`Command.exists_leavesOf_replacedAt`).
-/

namespace Linework

namespace Command

/-! ## Following a path -/

/-- The command that a path leads to, from inside a command on: the path has an
index for each scope on the way, beginning with that of the command itself. -/
def below? : List Nat → Command → Option Command
  | [], c => some c
  | i :: path, .glow children => children[i]?.bind (below? path)
  | _ :: _, _ => none

/-- **The command that a path leads to** in a forest. -/
def at? : List Nat → List Command → Option Command
  | [], _ => none
  | i :: path, cs => cs[i]?.bind (below? path)

@[simp] theorem below?_nil (c : Command) : c.below? [] = some c := by
  rw [below?]

theorem below?_cons_of_not_isGlow {c : Command} (h : c.isGlow = false) (i : Nat)
    (path : List Nat) : c.below? (i :: path) = none := by
  cases c with
  | glow children => cases h
  | line _ _ _ => rfl
  | rect _ _ _ => rfl
  | polygon _ _ => rfl
  | circle _ _ _ => rfl
  | ellipse _ _ _ => rfl
  | unknown => rfl

/-- A path goes further into a scope and into nothing else. -/
theorem exists_of_below?_cons {c c' : Command} {i : Nat} {path : List Nat}
    (h : c.below? (i :: path) = some c') :
    ∃ children child, c = .glow children ∧ children[i]? = some child ∧
      child.below? path = some c' := by
  cases c with
  | glow children =>
    rw [below?] at h
    obtain ⟨child, hchild, h⟩ := Option.bind_eq_some_iff.1 h
    exact ⟨children, child, rfl, hchild, h⟩
  | line _ _ _ | rect _ _ _ | polygon _ _ | circle _ _ _ | ellipse _ _ _ | unknown => cases h

/-- A path that goes on is followed step by step. -/
theorem below?_append (c : Command) (path more : List Nat) :
    c.below? (path ++ more) = (c.below? path).bind (below? more) := by
  induction path generalizing c with
  | nil => rw [List.nil_append, below?_nil, Option.bind_some]
  | cons i path ih =>
    cases hglow : c.isGlow with
    | false =>
      rw [List.cons_append, below?_cons_of_not_isGlow hglow, below?_cons_of_not_isGlow hglow]
      rfl
    | true =>
      cases c with
      | glow children =>
        rw [List.cons_append, below?, below?, Option.bind_assoc]
        exact congrArg _ (funext ih)
      | line _ _ _ | rect _ _ _ | polygon _ _ | circle _ _ _ | ellipse _ _ _ | unknown =>
        cases hglow

theorem at?_append {path : List Nat} (h : path ≠ []) (more : List Nat) (cs : List Command) :
    at? (path ++ more) cs = (at? path cs).bind (below? more) := by
  cases path with
  | nil => exact absurd rfl h
  | cons i path =>
    rw [List.cons_append, at?, at?, Option.bind_assoc]
    exact congrArg _ (funext fun c => c.below?_append path more)

theorem ne_nil_of_at? {path : List Nat} {cs : List Command} {c : Command}
    (h : at? path cs = some c) : path ≠ [] := by
  rintro rfl
  cases h

/-! ## Leaves and their paths -/

mutual

theorem mem_leaves_iff {l : Leaf} : ∀ (c : Command) {path : List Nat},
    l ∈ c.leaves path ↔
      ∃ more, l.path = path ++ more ∧ c.below? more = some l.command ∧ l.command.isGlow = false
  | .glow children, path => by
    rw [leaves, mem_leavesFrom_iff children]
    constructor
    · rintro ⟨i, more, hpath, hat, hleaf⟩
      rw [Nat.zero_add] at hpath
      exact ⟨i :: more, hpath, by rw [below?]; exact hat, hleaf⟩
    · rintro ⟨more, hpath, hbelow, hleaf⟩
      cases more with
      | nil =>
        rw [below?_nil, Option.some.injEq] at hbelow
        rw [← hbelow] at hleaf
        cases hleaf
      | cons i more =>
        rw [below?] at hbelow
        exact ⟨i, more, by rw [Nat.zero_add]; exact hpath, hbelow, hleaf⟩
  | .line .., path | .rect .., path | .polygon .., path | .circle .., path | .ellipse .., path
  | .unknown, path => by
    rw [leaves_of_not_isGlow rfl, List.mem_singleton]
    constructor
    · rintro rfl
      exact ⟨[], (List.append_nil path).symm, below?_nil _, rfl⟩
    · rintro ⟨more, hpath, hbelow, -⟩
      cases more with
      | nil =>
        rw [below?_nil, Option.some.injEq] at hbelow
        rw [hbelow, ← List.append_nil path, ← hpath]
      | cons i more => cases hbelow

theorem mem_leavesFrom_iff {l : Leaf} : ∀ (cs : List Command) {path : List Nat} {i : Nat},
    l ∈ leavesFrom path i cs ↔
      ∃ j more, l.path = path ++ (i + j) :: more ∧ cs[j]?.bind (below? more) = some l.command ∧
        l.command.isGlow = false
  | [], path, i => by
    rw [leavesFrom]
    constructor
    · intro h
      cases h
    · rintro ⟨j, more, -, hat, -⟩
      cases hat
  | c :: cs, path, i => by
    rw [leavesFrom, List.mem_append, mem_leaves_iff c, mem_leavesFrom_iff cs]
    constructor
    · rintro (⟨more, hpath, hbelow, hleaf⟩ | ⟨j, more, hpath, hat, hleaf⟩)
      · exact ⟨0, more, by rw [hpath, List.append_assoc]; rfl, hbelow, hleaf⟩
      · exact ⟨j + 1, more, by rw [hpath, Nat.add_assoc, Nat.add_comm 1 j], hat, hleaf⟩
    · rintro ⟨j, more, hpath, hat, hleaf⟩
      cases j with
      | zero => exact .inl ⟨more, by rw [hpath, List.append_assoc]; rfl, hat, hleaf⟩
      | succ j =>
        exact .inr ⟨j, more, by rw [hpath, Nat.add_assoc, Nat.add_comm 1 j], hat, hleaf⟩

end

/-- **The leaves are what paths lead to**, the scopes apart, and each has the path
that leads to it. -/
theorem mem_leavesOf_iff {l : Leaf} {cs : List Command} :
    l ∈ leavesOf cs ↔ at? l.path cs = some l.command ∧ l.command.isGlow = false := by
  rw [leavesOf, mem_leavesFrom_iff]
  constructor
  · rintro ⟨j, more, hpath, hat, hleaf⟩
    rw [hpath, List.nil_append, Nat.zero_add, at?]
    exact ⟨hat, hleaf⟩
  · rintro ⟨hat, hleaf⟩
    cases hpath : l.path with
    | nil =>
      rw [hpath] at hat
      cases hat
    | cons j more =>
      rw [hpath, at?] at hat
      exact ⟨j, more, by rw [List.nil_append, Nat.zero_add], hat, hleaf⟩

end Command

/-- A leaf stands before another one, by their paths. -/
def Leaf.Before (l m : Leaf) : Prop := List.Lex (· < ·) l.path m.path

namespace Command

mutual

theorem pairwise_leaves (path : List Nat) : ∀ c : Command, (c.leaves path).Pairwise Leaf.Before
  | .glow children => by
    rw [leaves]
    exact pairwise_leavesFrom path 0 children
  | .line .. | .rect .. | .polygon .. | .circle .. | .ellipse .. | .unknown => by
    rw [leaves_of_not_isGlow rfl]
    exact List.pairwise_singleton _ _

theorem pairwise_leavesFrom (path : List Nat) (i : Nat) :
    ∀ cs : List Command, (leavesFrom path i cs).Pairwise Leaf.Before
  | [] => by
    rw [leavesFrom]
    exact .nil
  | c :: cs => by
    rw [leavesFrom, List.pairwise_append]
    refine ⟨pairwise_leaves (path ++ [i]) c, pairwise_leavesFrom path (i + 1) cs, ?_⟩
    -- two leaves of different commands first differ where these commands are counted
    intro l hl m hm
    obtain ⟨more, hl, -⟩ := (mem_leaves_iff c).1 hl
    obtain ⟨j, more', hm, -⟩ := (mem_leavesFrom_iff cs).1 hm
    rw [Leaf.Before, hl, hm, List.append_assoc]
    exact .append_left _ (.rel (by omega)) path

end

/-- **Leaves come in the order of their paths.** -/
theorem pairwise_leavesOf (cs : List Command) : (leavesOf cs).Pairwise Leaf.Before :=
  pairwise_leavesFrom [] 0 cs

end Command

/-! ## Moving a forest -/

/-- A leaf whose path is changed. -/
def Leaf.moved (f : List Nat → List Nat) (l : Leaf) : Leaf := { l with path := f l.path }

namespace Command

mutual

/-- Where a command stands plays no part in what is in it: a change to its path that
leaves alone how the path goes on is a change to the paths of its leaves. -/
theorem leaves_moved {f : List Nat → List Nat} : ∀ (c : Command) {path : List Nat},
    (∀ more, f (path ++ more) = f path ++ more) →
      c.leaves (f path) = (c.leaves path).map (Leaf.moved f)
  | .glow children, path, hf => by
    rw [leaves, leaves]
    exact leavesFrom_moved children hf 0
  | .line .., path, _ | .rect .., path, _ | .polygon .., path, _ | .circle .., path, _
  | .ellipse .., path, _ | .unknown, path, _ => by
    rw [leaves_of_not_isGlow rfl, leaves_of_not_isGlow rfl]
    rfl

theorem leavesFrom_moved {f : List Nat → List Nat} : ∀ (cs : List Command) {path : List Nat},
    (∀ more, f (path ++ more) = f path ++ more) → ∀ i : Nat,
      leavesFrom (f path) i cs = (leavesFrom path i cs).map (Leaf.moved f)
  | [], path, _, i => by
    rw [leavesFrom, leavesFrom]
    rfl
  | c :: cs, path, hf, i => by
    have hf' : ∀ more, f (path ++ [i] ++ more) = f (path ++ [i]) ++ more := by
      intro more
      rw [List.append_assoc, hf, hf, List.append_assoc]
    rw [leavesFrom, leavesFrom, List.map_append, ← hf, leaves_moved c hf',
      leavesFrom_moved cs hf (i + 1)]

end

/-- Commands behind `n` others at the top level. -/
theorem leavesFrom_add (n i : Nat) (cs : List Command) :
    leavesFrom [] (n + i) cs = (leavesFrom [] i cs).map (Leaf.moved (·.modifyHead (n + ·))) := by
  induction cs generalizing i with
  | nil =>
    rw [leavesFrom, leavesFrom]
    rfl
  | cons c cs ih =>
    have hhead : ∀ more, ([i] ++ more).modifyHead (n + ·) = [i].modifyHead (n + ·) ++ more :=
      fun more => rfl
    have hc := leaves_moved c (f := (·.modifyHead (n + ·))) hhead
    rw [leavesFrom, leavesFrom, List.map_append, Nat.add_assoc, ih]
    exact congrArg (· ++ _) hc

theorem leavesFrom_append (path : List Nat) (i : Nat) (xs ys : List Command) :
    leavesFrom path i (xs ++ ys) = leavesFrom path i xs ++ leavesFrom path (i + xs.length) ys := by
  induction xs generalizing i with
  | nil => rw [leavesFrom]; rfl
  | cons x xs ih =>
    rw [List.cons_append, leavesFrom, leavesFrom, ih, List.append_assoc, List.length_cons,
      Nat.add_assoc, Nat.add_comm 1]

/-- **One forest behind another**: its leaves are the same, with the top-level index
counted on. -/
theorem leavesOf_append (xs ys : List Command) :
    leavesOf (xs ++ ys) =
      leavesOf xs ++ (leavesOf ys).map (Leaf.moved (·.modifyHead (xs.length + ·))) := by
  rw [leavesOf, leavesFrom_append, Nat.zero_add, ← Nat.add_zero xs.length, leavesFrom_add]
  rfl

/-! ## Replacing a command -/

/-- A command with something else where a path leads to, from inside the command on. -/
def replacedBelow (new : Command) : List Nat → Command → Command
  | [], _ => new
  | i :: path, .glow children => .glow (children.modify i (replacedBelow new path))
  | _ :: _, c => c

/-- **A forest with another command** where a path leads to. -/
def replacedAt (new : Command) : List Nat → List Command → List Command
  | [], cs => cs
  | i :: path, cs => cs.modify i (replacedBelow new path)

/-- The leaves of a list with one element changed. -/
theorem leavesFrom_modify {cs : List Command} {j : Nat} {c : Command} (h : cs[j]? = some c)
    (f : Command → Command) (path : List Nat) (i : Nat) :
    leavesFrom path i (cs.modify j f) =
      leavesFrom path i (cs.take j) ++ (f c).leaves (path ++ [i + j]) ++
        leavesFrom path (i + j + 1) (cs.drop (j + 1)) := by
  obtain ⟨hj, rfl⟩ := List.getElem?_eq_some_iff.1 h
  rw [List.modify_eq_take_cons_drop hj, leavesFrom_append, List.length_take_of_le hj.le, leavesFrom,
    List.append_assoc]

/-- What comes before a command and what comes after it does not depend on it. -/
theorem exists_leaves_replacedBelow {c old : Command} {path : List Nat}
    (h : c.below? path = some old) (outer : List Nat) :
    ∃ before after, ∀ new : Command, (replacedBelow new path c).leaves outer =
      before ++ new.leaves (outer ++ path) ++ after := by
  induction path generalizing c outer with
  | nil =>
    refine ⟨[], [], fun new => ?_⟩
    rw [replacedBelow, List.append_nil, List.append_nil, List.nil_append]
  | cons i path ih =>
    obtain ⟨children, child, rfl, hchild, hbelow⟩ := exists_of_below?_cons h
    obtain ⟨before, after, hsplit⟩ := ih hbelow (outer ++ [i])
    refine ⟨leavesFrom outer 0 (children.take i) ++ before,
      after ++ leavesFrom outer (i + 1) (children.drop (i + 1)), fun new => ?_⟩
    rw [replacedBelow, leaves, leavesFrom_modify hchild, Nat.zero_add, hsplit]
    simp only [List.append_assoc, List.singleton_append]

/-- **One block of leaves is replaced** with a command, and the leaves around it stay. -/
theorem exists_leavesOf_replacedAt {cs : List Command} {old : Command} {path : List Nat}
    (h : at? path cs = some old) :
    ∃ before after, ∀ new : Command,
      leavesOf (replacedAt new path cs) = before ++ new.leaves path ++ after := by
  cases path with
  | nil => cases h
  | cons i path =>
    rw [at?] at h
    obtain ⟨c, hc, hbelow⟩ := Option.bind_eq_some_iff.1 h
    obtain ⟨before, after, hsplit⟩ := exists_leaves_replacedBelow hbelow [i]
    refine ⟨leavesFrom [] 0 (cs.take i) ++ before,
      after ++ leavesFrom [] (i + 1) (cs.drop (i + 1)), fun new => ?_⟩
    rw [replacedAt, leavesOf, leavesFrom_modify hc, Nat.zero_add, List.nil_append, hsplit]
    simp only [List.append_assoc, List.singleton_append]

/-- To change an element is to put the changed one in its place. -/
theorem modify_eq_set_of_getElem? {α : Type} {f : α → α} {xs : List α} {i : Nat} {x : α}
    (hx : xs[i]? = some x) : xs.modify i f = xs.set i (f x) := by
  obtain ⟨hi, rfl⟩ := List.getElem?_eq_some_iff.1 hx
  rw [List.modify_eq_take_cons_drop hi, List.set_eq_take_append_cons_drop, if_pos hi]

/-- Changing an element for itself changes nothing. -/
theorem modify_eq_of_getElem? {α : Type} {f : α → α} {xs : List α} {i : Nat} {x : α}
    (hx : xs[i]? = some x) (hf : f x = x) : xs.modify i f = xs := by
  obtain ⟨hi, rfl⟩ := List.getElem?_eq_some_iff.1 hx
  rw [modify_eq_set_of_getElem? hx, hf, List.set_getElem_self]

theorem replacedBelow_self {c old : Command} {path : List Nat} (h : c.below? path = some old) :
    replacedBelow old path c = c := by
  induction path generalizing c with
  | nil =>
    rw [below?_nil, Option.some.injEq] at h
    rw [replacedBelow, h]
  | cons i path ih =>
    obtain ⟨children, child, rfl, hchild, hbelow⟩ := exists_of_below?_cons h
    rw [replacedBelow, modify_eq_of_getElem? hchild (ih hbelow)]

/-- A command in its own place. -/
theorem replacedAt_self {cs : List Command} {old : Command} {path : List Nat}
    (h : at? path cs = some old) : replacedAt old path cs = cs := by
  cases path with
  | nil => cases h
  | cons i path =>
    rw [at?] at h
    obtain ⟨c, hc, hbelow⟩ := Option.bind_eq_some_iff.1 h
    rw [replacedAt, modify_eq_of_getElem? hc (replacedBelow_self hbelow)]

theorem below?_replacedBelow {c old : Command} {path : List Nat} (h : c.below? path = some old)
    (new : Command) : (replacedBelow new path c).below? path = some new := by
  induction path generalizing c with
  | nil => rw [replacedBelow, below?_nil]
  | cons i path ih =>
    obtain ⟨children, child, rfl, hchild, hbelow⟩ := exists_of_below?_cons h
    rw [replacedBelow, below?, List.getElem?_modify, hchild]
    show (some (if i = i then replacedBelow new path child else child)).bind _ = _
    rw [if_pos rfl, Option.bind_some, ih hbelow]

/-- What was put in a place is there. -/
theorem at?_replacedAt {cs : List Command} {old : Command} {path : List Nat}
    (h : at? path cs = some old) (new : Command) :
    at? path (replacedAt new path cs) = some new := by
  cases path with
  | nil => cases h
  | cons i path =>
    rw [at?] at h
    obtain ⟨c, hc, hbelow⟩ := Option.bind_eq_some_iff.1 h
    rw [replacedAt, at?, List.getElem?_modify, hc]
    show (some (if i = i then replacedBelow new path c else c)).bind _ = _
    rw [if_pos rfl, Option.bind_some, below?_replacedBelow hbelow]

end Command

end Linework
