import Mathlib.Data.List.Basic
import Mathlib.Data.Nat.Count
import Linework.Proofs.Painting

/-!
# The order of the passes

A shape that glows is stroked once per pass, wide and dim at first and narrow and bright
in the end. For a picture to look like that, all of an earlier pass has to be drawn before
any of a later one. `PassByPass` says so of a list of primitives: they can be given the
numbers of the passes they belong to, each of them looks like a stroke of its pass, and
where the number is smaller the primitive comes first.

Shapes that are drawn in one piece are stroked pass by pass. A rectangle is drawn as four
edges, and each edge goes through all its passes before the next one begins. So the wide
strokes of the second edge come after the narrow strokes of the first, and cover them
where the edges meet. It is pass by pass only if there is nothing to see of the passes,
which is when their strokes are all the same (`Geometry.passByPass_flatMap_iff`).

That needs a count. Going through the passes again is going through their differences
again, and numbers that never go back cannot meet more differences than there are.
-/

namespace Linework

/-! ## Differences along a sequence -/

section Changes

variable {α : Type} [DecidableEq α] {s t : ℕ → α}

/-- How often a sequence changes before a place. -/
def changesBefore (s : ℕ → α) (n : ℕ) : ℕ := Nat.count (fun k => s k ≠ s (k + 1)) n

theorem changesBefore_succ (s : ℕ → α) (n : ℕ) :
    changesBefore s (n + 1) = changesBefore s n + if s n ≠ s (n + 1) then 1 else 0 :=
  Nat.count_succ _ n

theorem changesBefore_mono {m n : ℕ} (h : m ≤ n) : changesBefore s m ≤ changesBefore s n :=
  Nat.count_monotone _ h

/-- Between two places without a change the sequence is the same. -/
theorem eq_of_changesBefore_eq {m n : ℕ} (h : m ≤ n)
    (heq : changesBefore s m = changesBefore s n) : s m = s n := by
  induction n, h using Nat.le_induction with
  | base => rfl
  | succ n hmn ih =>
    have hle : changesBefore s m ≤ changesBefore s n := changesBefore_mono hmn
    rw [changesBefore_succ] at heq
    split at heq
    · omega
    · next hsame => exact (ih heq).trans (not_not.1 hsame)

/-- **A sequence that is read off another one, never going back, does not change more
often.** -/
theorem changesBefore_le_of_label {label : ℕ → ℕ} {n : ℕ} (hs : ∀ k < n, s (label k) = t k)
    (hmono : ∀ k, k + 1 < n → label k ≤ label (k + 1)) :
    ∀ k < n, changesBefore t k ≤ changesBefore s (label k) := by
  intro k
  induction k with
  | zero => exact fun _ => Nat.zero_le _
  | succ k ih =>
    intro hk
    have hle := hmono k hk
    have hbefore := ih (k.lt_succ_self.trans hk)
    have hlater : changesBefore s (label k) ≤ changesBefore s (label (k + 1)) :=
      changesBefore_mono hle
    rw [changesBefore_succ]
    split
    · next hchange =>
      have hne : changesBefore s (label k) ≠ changesBefore s (label (k + 1)) := by
        intro heq
        have hsame := eq_of_changesBefore_eq hle heq
        rw [hs k (k.lt_succ_self.trans hk), hs (k + 1) hk] at hsame
        exact hchange hsame
      omega
    · omega

theorem changesBefore_add (s : ℕ → α) (m n : ℕ) :
    changesBefore s (m + n) = changesBefore s m + changesBefore (fun k => s (m + k)) n :=
  Nat.count_add _ m n

theorem changesBefore_congr {n : ℕ} (h : ∀ k ≤ n, s k = t k) :
    changesBefore s n = changesBefore t n := by
  induction n with
  | zero => rfl
  | succ n ih =>
    rw [changesBefore_succ, changesBefore_succ, ih fun k hk => h k (Nat.le_succ_of_le hk),
      h n n.le_succ, h (n + 1) le_rfl]

/-- **Nothing changes in a sequence that can be gone through twice** by reading it off
once: the second round would have to meet its changes again. -/
theorem eq_of_label_twice {label : ℕ → ℕ} {n : ℕ} (hlabel : ∀ k < n + n, label k < n)
    (hs : ∀ k < n + n, s (label k) = t k)
    (hmono : ∀ k, k + 1 < n + n → label k ≤ label (k + 1))
    (hfirst : ∀ k < n, t k = s k) (hsecond : ∀ k < n, t (n + k) = s k) :
    ∀ k < n, s 0 = s k := by
  intro k hk
  obtain ⟨m, rfl⟩ : ∃ m, n = m + 1 := ⟨n - 1, by omega⟩
  have hround : changesBefore t m = changesBefore s m :=
    changesBefore_congr fun k hk => hfirst k (Nat.lt_succ_of_le hk)
  have hagain : changesBefore (fun k => t (m + 1 + k)) m = changesBefore s m :=
    changesBefore_congr fun k hk => hsecond k (Nat.lt_succ_of_le hk)
  have htwice : changesBefore s m + changesBefore s m ≤ changesBefore t (m + 1 + m) := by
    rw [changesBefore_add, hagain, ← hround]
    exact Nat.add_le_add_right (changesBefore_mono m.le_succ) _
  have honce : changesBefore t (m + 1 + m) ≤ changesBefore s m :=
    (changesBefore_le_of_label hs hmono _ (by omega)).trans
      (changesBefore_mono (Nat.le_of_lt_succ (hlabel _ (by omega))))
  refine eq_of_changesBefore_eq k.zero_le ?_
  have hk' : changesBefore s k ≤ changesBefore s m := changesBefore_mono (Nat.le_of_lt_succ hk)
  have hzero : changesBefore s 0 = 0 := Nat.count_zero _
  omega

end Changes

/-! ## Primitives in the order of the passes -/

/-- The stroke a primitive is drawn with. -/
def Primitive.stroke (p : Primitive Float32) : Stroke := ⟨p.width, p.color⟩

/-- **Primitives drawn pass by pass.** Each has the stroke of the pass it belongs to, and
what belongs to an earlier pass comes before what belongs to a later one. -/
def PassByPass (strokes : List Stroke) (ps : List (Primitive Float32)) : Prop :=
  ∃ pass : Fin ps.length → Fin strokes.length,
    (∀ k, strokes.get (pass k) = (ps.get k).stroke) ∧ ∀ k l, pass k < pass l → k < l

namespace PassByPass

variable {strokes : List Stroke} {ps : List (Primitive Float32)}

/-- One primitive for each stroke, in order. -/
theorem of_map_eq (h : ps.map (·.stroke) = strokes) : PassByPass strokes ps := by
  subst h
  refine ⟨Fin.cast (List.length_map _).symm, fun k => ?_, fun _ _ hlt => hlt⟩
  exact List.getElem_map _

/-- The strokes cannot be told apart, so neither can the passes. -/
theorem of_forall_eq (h : ∀ s ∈ strokes, ∀ t ∈ strokes, s = t)
    (hps : ∀ p ∈ ps, p.stroke ∈ strokes) : PassByPass strokes ps := by
  have hmem : ∀ k, (ps.get k).stroke ∈ strokes := fun k => hps _ (ps.get_mem k)
  refine ⟨fun k => ⟨0, List.length_pos_of_mem (hmem k)⟩, fun k => ?_, fun _ _ hlt => ?_⟩
  · exact h _ (strokes.get_mem _) _ (hmem k)
  · exact absurd hlt (lt_irrefl _)

/-- **What goes through its strokes a second time is pass by pass only if they are all
the same.** -/
theorem eq_of_twice (h : PassByPass strokes ps) (rest : List Stroke)
    (hps : ps.map (·.stroke) = strokes ++ (strokes ++ rest)) :
    ∀ s ∈ strokes, ∀ t ∈ strokes, s = t := by
  obtain ⟨pass, hpass, horder⟩ := h
  have hlength : strokes.length + strokes.length ≤ ps.length := by
    rw [← ps.length_map, hps, List.length_append, List.length_append]
    omega
  -- the pass at a place, for the two rounds that are counted
  let label : ℕ → ℕ := fun k => if hk : k < ps.length then pass ⟨k, hk⟩ else 0
  have hlabel : ∀ k (hk : k < ps.length), label k = pass ⟨k, hk⟩ := fun k hk => dif_pos hk
  have hlt : ∀ k < strokes.length + strokes.length, label k < strokes.length := by
    intro k hk
    rw [hlabel k (hk.trans_le hlength)]
    exact (pass _).isLt
  have hget : ∀ k < strokes.length + strokes.length,
      strokes[label k]? = (ps.map (·.stroke))[k]? := by
    intro k hk
    rw [hlabel k (hk.trans_le hlength), List.getElem?_map,
      List.getElem?_eq_getElem (hk.trans_le hlength), Option.map_some,
      List.getElem?_eq_getElem (pass _).isLt]
    exact congrArg some (hpass ⟨k, hk.trans_le hlength⟩)
  have hmono : ∀ k, k + 1 < strokes.length + strokes.length → label k ≤ label (k + 1) := by
    intro k hk
    have hk' := hk.trans_le hlength
    rw [hlabel _ hk', hlabel k (k.lt_succ_self.trans hk')]
    exact not_lt.1 fun hback => absurd (horder _ _ hback) (not_lt.2 k.le_succ)
  have hfirst : ∀ k < strokes.length, (ps.map (·.stroke))[k]? = strokes[k]? := by
    intro k hk
    rw [hps, List.getElem?_append_left hk]
  have hsecond : ∀ k < strokes.length,
      (ps.map (·.stroke))[strokes.length + k]? = strokes[k]? := by
    intro k hk
    rw [hps, List.getElem?_append_right (Nat.le_add_right _ _), Nat.add_sub_cancel_left,
      List.getElem?_append_left hk]
  have hconst : ∀ k < strokes.length, strokes[0]? = strokes[k]? :=
    eq_of_label_twice (s := (strokes[·]?)) (t := ((ps.map (·.stroke))[·]?)) hlt hget hmono hfirst
      hsecond
  intro s hs t ht
  obtain ⟨i, hi, rfl⟩ := List.getElem_of_mem hs
  obtain ⟨j, hj, rfl⟩ := List.getElem_of_mem ht
  have hij : strokes[i]? = strokes[j]? := (hconst i hi).symm.trans (hconst j hj)
  rw [List.getElem?_eq_getElem hi, List.getElem?_eq_getElem hj] at hij
  exact Option.some.inj hij

end PassByPass

namespace Geometry

theorem map_stroke_stroked (strokes : List Stroke) (g : Geometry) :
    (g.stroked strokes).map (·.stroke) = strokes := by
  rw [stroked, List.map_map]
  exact List.map_id _

/-- **Several geometries, one after another, are not**, unless their strokes are all the
same: each of them goes through the passes anew. -/
theorem passByPass_flatMap_iff (strokes : List Stroke) {gs : List Geometry}
    (h : 2 ≤ gs.length) :
    PassByPass strokes (gs.flatMap (stroked strokes)) ↔ ∀ s ∈ strokes, ∀ t ∈ strokes, s = t := by
  constructor
  · intro hpass
    match gs, h with
    | g :: g' :: gs, _ =>
      refine hpass.eq_of_twice ((gs.flatMap (stroked strokes)).map (·.stroke)) ?_
      rw [List.flatMap_cons, List.flatMap_cons, List.map_append, List.map_append,
        map_stroke_stroked, map_stroke_stroked]
  · intro heq
    refine .of_forall_eq heq fun p hp => ?_
    obtain ⟨g, -, hp⟩ := List.mem_flatMap.1 hp
    rw [← map_stroke_stroked strokes g]
    exact List.mem_map_of_mem hp

end Geometry

/-! ## Shapes that glow -/

/-- The strokes of the passes of a glow, on a path of a colour. -/
def Glow.passStrokes (glow : Glow) (color : UInt32) : List Stroke :=
  glow.passes.map fun pass => ⟨pass.width, (Color.ofPacked color).brighten pass.brightness⟩

theorem Glow.strokesWithin_of_glows {glow : Glow} {kind : PathKind}
    (h : kind = .line ∨ glow.everyShape = true) (color : UInt32) :
    glow.strokesWithin true kind color = glow.passStrokes color := by
  rw [strokesWithin, if_pos]
  · rfl
  · rcases h with rfl | h
    · rfl
    · rw [h, Bool.or_true, Bool.true_and]

namespace Command

variable {settings : Settings} {c : Command} {color : UInt32}

/-- What a shape that glows draws: its geometries one after another, and each of them
once per pass. -/
theorem primitives_of_glows (hcolor : c.color? = some color)
    (hglows : c.pathKind = .line ∨ settings.glow.everyShape = true) :
    c.primitives settings true =
      (c.geometries settings).flatMap (Geometry.stroked (settings.glow.passStrokes color)) := by
  rw [primitives, hcolor, ← Glow.strokesWithin_of_glows hglows]

/-- Every shape but a rectangle is drawn in one piece. -/
theorem exists_geometries_eq_singleton (settings : Settings) (hcolor : c.color? = some color)
    (hkind : c.kind ≠ "rect") : ∃ g, c.geometries settings = [g] := by
  cases c with
  | line start stop color => exact ⟨_, rfl⟩
  | rect pos size color => exact absurd rfl hkind
  | polygon form color => cases form <;> exact ⟨_, rfl⟩
  | circle center radius color => exact ⟨_, rfl⟩
  | ellipse center radii color => exact ⟨_, rfl⟩
  | glow children => cases hcolor
  | unknown => cases hcolor

/-- A rectangle is drawn in four. -/
theorem length_geometries_of_rect (settings : Settings) (hkind : c.kind = "rect") :
    (c.geometries settings).length = 4 := by
  cases c with
  | rect pos size color => rfl
  | line _ _ _ | polygon _ _ | circle _ _ _ | ellipse _ _ _ | glow _ | unknown =>
    simp [kind] at hkind

/-- **Which shapes glow pass by pass**: all but rectangles, and rectangles if the passes
do not differ in anything that is drawn. -/
theorem passByPass_primitives_iff (hcolor : c.color? = some color)
    (hglows : c.pathKind = .line ∨ settings.glow.everyShape = true) :
    PassByPass (settings.glow.passStrokes color) (c.primitives settings true) ↔
      c.kind ≠ "rect" ∨
        ∀ s ∈ settings.glow.passStrokes color, ∀ t ∈ settings.glow.passStrokes color, s = t := by
  rw [primitives_of_glows hcolor hglows]
  by_cases hkind : c.kind = "rect"
  · rw [Geometry.passByPass_flatMap_iff _ (by rw [length_geometries_of_rect _ hkind]; decide)]
    exact (or_iff_right (not_not.2 hkind)).symm
  · obtain ⟨g, hg⟩ := exists_geometries_eq_singleton settings hcolor hkind
    rw [hg, List.flatMap_singleton]
    exact iff_of_true (.of_map_eq (g.map_stroke_stroked _)) (.inl hkind)

end Command

/-- **Only rectangles glow out of order.** A picture is what its leaves draw, one after
another. Take a leaf that glows, at any depth: a line, or any shape if the glow is for
every shape. Its geometries are drawn one after another, each of them once per pass and
in order. So the leaf is drawn pass by pass unless it is a rectangle, whose second edge
begins with the first pass again; then it is only if the strokes of all passes are the
same. -/
theorem Compiler.glows_in_order_iff (c : Compiler) (cs : List Command) {compiled : Compiled}
    (h : c.compile cs = .ok compiled) :
    compiled.displayList = (Command.leavesOf cs).flatMap (·.primitives c.settings) ∧
      ∀ l ∈ Command.leavesOf cs, l.inGlow = true → ∀ color, l.command.color? = some color →
        l.command.pathKind = .line ∨ c.settings.glow.everyShape = true →
          let strokes := c.settings.glow.passes.map fun pass =>
            (⟨pass.width, (Color.ofPacked color).brighten pass.brightness⟩ : Stroke)
          l.primitives c.settings =
            (l.command.geometries c.settings).flatMap (Geometry.stroked strokes) ∧
          (PassByPass strokes (l.primitives c.settings) ↔
            l.command.kind ≠ "rect" ∨ ∀ s ∈ strokes, ∀ t ∈ strokes, s = t) := by
  obtain ⟨-, rfl⟩ := compile_eq_ok_iff.1 h
  refine ⟨rfl, ?_⟩
  intro l _ hglow color hcolor hglows
  have hl : l.primitives c.settings = l.command.primitives c.settings true := by
    rw [Leaf.primitives, hglow]
  rw [hl]
  exact ⟨Command.primitives_of_glows hcolor hglows,
    Command.passByPass_primitives_iff hcolor hglows⟩

/-- A triangle two scopes deep, with a glow of two passes for every shape. -/
theorem Compiler.triangle_glows_in_order :
    let glowing : Compiler :=
      ⟨{ Settings.default with glow := ⟨[⟨8, 0.5⟩, ⟨1, 1⟩], true⟩ }, by decide +kernel⟩
    let triangle : Command := .polygon (.points [⟨0, 0⟩, ⟨1, 0⟩, ⟨0, 1⟩]) 0x00ff00ff
    ∃ compiled, glowing.compile [.glow [.glow [triangle]]] = .ok compiled ∧
      compiled.displayList.map (·.width) = [8, 1] ∧
      PassByPass [⟨8, (Color.ofPacked 0x00ff00ff).brighten (0.5 : Float32)⟩,
        ⟨1, (Color.ofPacked 0x00ff00ff).brighten (1 : Float32)⟩] compiled.displayList := by
  intro glowing triangle
  obtain ⟨compiled, h⟩ : ∃ compiled, glowing.compile [.glow [.glow [triangle]]] = .ok compiled :=
    ⟨_, compile_eq _ _⟩
  obtain ⟨hlist, hleaf⟩ := glows_in_order_iff glowing _ h
  have horder := (hleaf ⟨[0, 0, 0], triangle⟩ List.mem_cons_self rfl 0x00ff00ff rfl (.inr rfl)).2
  have hsingle : compiled.displayList = Leaf.primitives glowing.settings ⟨[0, 0, 0], triangle⟩ :=
    hlist.trans (List.flatMap_singleton _ _)
  refine ⟨compiled, h, ?_, ?_⟩
  · rw [hsingle]
    rfl
  · rw [hsingle]
    exact horder.2 (.inl (by decide))

/-- **A rectangle that glows for all to see is out of order**: the wide strokes of its
second edge come after the narrow ones of its first. -/
theorem Compiler.rect_glows_out_of_order :
    let glowing : Compiler :=
      ⟨{ Settings.default with glow := { Glow.default with everyShape := true } },
        by decide +kernel⟩
    let strokes := glowing.settings.glow.passes.map fun pass =>
      (⟨pass.width, (Color.ofPacked 0xe020c0ff).brighten pass.brightness⟩ : Stroke)
    ∃ compiled, glowing.compile [.glow [.rect ⟨0, 0⟩ ⟨10, 5⟩ 0xe020c0ff]] = .ok compiled ∧
      compiled.displayList.map (·.width) =
        [3.0, 2.0, 0.5, 3.0, 2.0, 0.5, 3.0, 2.0, 0.5, 3.0, 2.0, 0.5] ∧
      ¬ PassByPass strokes compiled.displayList := by
  intro glowing strokes
  let rect : Command := .rect ⟨0, 0⟩ ⟨10, 5⟩ 0xe020c0ff
  obtain ⟨compiled, h⟩ : ∃ compiled, glowing.compile [.glow [rect]] = .ok compiled :=
    ⟨_, compile_eq _ _⟩
  have hsingle : compiled.displayList = rect.primitives glowing.settings true := by
    rw [(compile_eq_ok_iff.1 h).2]
    exact List.flatMap_singleton _ _
  refine ⟨compiled, h, by rw [hsingle]; rfl, fun horder => ?_⟩
  rw [hsingle] at horder
  rcases (Command.passByPass_primitives_iff rfl (.inr rfl)).1 horder with hkind | hsame
  · exact hkind rfl
  · -- the first pass and the second differ in width
    have hwidth : (3.0 : Float32) = 2.0 := congrArg Stroke.width
      (hsame _ List.mem_cons_self _ (List.mem_cons_of_mem _ List.mem_cons_self))
    exact absurd hwidth (by decide +kernel)

end Linework
