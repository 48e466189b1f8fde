import Mathlib.Data.List.Rotate
import Linework.Proofs.Primitives

/-!
# The edges of any vertices

A primitive need not come from a scene. Whoever reads one from a text gets whatever
vertices stand there: none, one, or an odd number of them for segments that take two each.
It has edges all the same, and this module says which.

The edges can be found by position, edge `i` of a loop going from vertex `i` to vertex
`i + 1` modulo their number and edge `i` of a list of segments from vertex `2 i` to the one
behind it. There, positions may lie outside and a remainder may be taken by zero. That
neither happens is `Primitive.edgesByPosition?_eq`, in which every access is checked.

The rest is about lists. A loop is its vertices side by side with the same vertices turned
by one (`cycle_eq_zip_rotate`), so it closes, and turning the vertices turns the loop.
-/

namespace Linework

variable {α : Type}

/-! ## Loops -/

/-- **A loop is a list beside itself, turned by one.** -/
theorem cycle_eq_zip_rotate (xs : List α) : cycle xs = xs.zip (xs.rotate 1) := by
  cases xs with
  | nil => rfl
  | cons x xs =>
    rw [cycle, List.rotate_eq_drop_append_take (by rw [List.length_cons]; omega)]

/-- In a loop the edges end where the vertices begin that are turned by one. -/
theorem map_snd_cycle (xs : List α) : (cycle xs).map Prod.snd = xs.rotate 1 := by
  rw [cycle_eq_zip_rotate]
  exact List.map_snd_zip (Nat.le_of_eq (List.length_rotate xs 1))

/-- **Turning the vertices turns the loop.** -/
theorem cycle_rotate (xs : List α) (k : Nat) : cycle (xs.rotate k) = (cycle xs).rotate k := by
  have hlength : xs.length = (xs.rotate 1).length := (List.length_rotate xs 1).symm
  rw [cycle_eq_zip_rotate, cycle_eq_zip_rotate, List.zip_eq_zipWith, List.zip_eq_zipWith,
    List.zipWith_rotate_distrib _ _ _ _ hlength, List.rotate_rotate, List.rotate_rotate,
    Nat.add_comm]

/-- An edge of a loop, by position. -/
theorem getElem?_cycle {xs : List α} {i : Nat} (h : i < xs.length) :
    (cycle xs)[i]? = do return (← xs[i]?, ← xs[(i + 1) % xs.length]?) := by
  have hnext : (i + 1) % xs.length < xs.length := Nat.mod_lt _ (Nat.zero_lt_of_lt h)
  rw [cycle_eq_zip_rotate, List.getElem?_eq_getElem h, List.getElem?_eq_getElem hnext]
  refine List.getElem?_zip_eq_some.2 ⟨List.getElem?_eq_getElem h, ?_⟩
  rw [List.getElem?_rotate h, List.getElem?_eq_getElem hnext]

/-- **A loop closes**: each of its edges ends where the next one begins, and the last one
where the first one does. -/
theorem exists_next_of_cycle {xs : List α} {i : Nat} {e : α × α} (h : (cycle xs)[i]? = some e) :
    ∃ e', (cycle xs)[(i + 1) % (cycle xs).length]? = some e' ∧ e'.1 = e.2 := by
  obtain ⟨hi, -⟩ := List.getElem?_eq_some_iff.1 h
  rw [length_cycle] at hi ⊢
  have hnext : (i + 1) % xs.length < xs.length := Nat.mod_lt _ (Nat.zero_lt_of_lt hi)
  have hnext' : (i + 1) % xs.length < (cycle xs).length := by rwa [length_cycle]
  refine ⟨_, List.getElem?_eq_getElem hnext', ?_⟩
  -- both are the vertex at the next position, once as an end and once as a beginning
  have hend : ((cycle xs).map Prod.snd)[i]? = some e.2 := by rw [List.getElem?_map, h]; rfl
  have hbegin : ((cycle xs).map Prod.fst)[(i + 1) % xs.length]? =
      some ((cycle xs)[(i + 1) % xs.length]).1 := by
    rw [List.getElem?_map, List.getElem?_eq_getElem hnext']
    rfl
  rw [map_snd_cycle, List.getElem?_rotate hi] at hend
  rw [map_fst_cycle, hend] at hbegin
  exact (Option.some.inj hbegin).symm

/-! ## Segments -/

/-- A segment, by position. -/
theorem getElem?_pairs (xs : List α) (i : Nat) :
    (pairs xs)[i]? = do return (← xs[2 * i]?, ← xs[2 * i + 1]?) := by
  fun_induction pairs xs generalizing i with
  | case1 a b rest ih =>
    cases i with
    | zero => rfl
    | succ i =>
      rw [List.getElem?_cons_succ, ih]
      rfl
  | case2 xs hxs =>
    -- at most one vertex, so the second one of any segment is missing
    have hlength : xs.length ≤ 1 := by
      match xs, hxs with
      | [], _ => exact Nat.zero_le _
      | [_], _ => exact Nat.le_refl _
      | a :: b :: rest, hxs => exact absurd rfl (hxs a b rest)
    have hnone : xs[2 * i + 1]? = none := List.getElem?_eq_none (by omega)
    rw [hnone]
    cases xs[2 * i]? <;> rfl

/-- **No vertex is lost but an odd last one.** -/
theorem flatMap_pairs (xs : List α) :
    (pairs xs).flatMap (fun e => [e.1, e.2]) =
      if xs.length % 2 = 0 then xs else xs.dropLast := by
  fun_induction pairs xs with
  | case1 a b rest ih =>
    rw [List.flatMap_cons, ih, List.length_cons, List.length_cons, Nat.add_assoc,
      Nat.add_mod_right]
    split
    · rfl
    · next hodd =>
      have hne : rest ≠ [] := by
        rintro rfl
        exact hodd rfl
      rw [List.dropLast_cons_of_ne_nil (List.cons_ne_nil b rest),
        List.dropLast_cons_of_ne_nil hne]
      rfl
  | case2 xs hxs =>
    match xs, hxs with
    | [], _ => rfl
    | [_], _ => rfl
    | a :: b :: rest, hxs => exact absurd rfl (hxs a b rest)

/-! ## Edges by position -/

/-- A remainder, unless it is by zero. -/
def remainder? (a n : Nat) : Option Nat := if n = 0 then none else some (a % n)

/-- The edges of a primitive, found by position. There are none if a position lies outside
the vertices or a remainder is by zero. -/
def Primitive.edgesByPosition? (p : Primitive α) : Option (List (Point α × Point α)) :=
  match p.topology with
  | .segments =>
    (List.range (p.vertices.length / 2)).mapM fun i => do
      return (← p.vertices[2 * i]?, ← p.vertices[2 * i + 1]?)
  | .lineLoop =>
    (List.range p.vertices.length).mapM fun i => do
      return (← p.vertices[i]?, ← p.vertices[← remainder? (i + 1) p.vertices.length]?)

theorem mapM_eq_some {β : Type} {f : α → Option β} {xs : List α} {ys : List β}
    (h : xs.map f = ys.map some) : xs.mapM f = some ys := by
  induction xs generalizing ys with
  | nil =>
    rw [List.map_nil, eq_comm, List.map_eq_nil_iff] at h
    rw [h]
    rfl
  | cons x xs ih =>
    cases ys with
    | nil => cases h
    | cons y ys =>
      obtain ⟨hx, hxs⟩ := List.cons.inj h
      rw [List.mapM_cons, hx, ih hxs]
      rfl

/-- A list is found position by position. -/
theorem mapM_range_eq_some {ys : List α} {f : Nat → Option α} {n : Nat} (hn : ys.length = n)
    (h : ∀ i < n, ys[i]? = f i) : (List.range n).mapM f = some ys := by
  refine mapM_eq_some (List.ext_getElem? fun i => ?_)
  rw [List.getElem?_map, List.getElem?_map]
  by_cases hi : i < n
  · rw [List.getElem?_range hi, Option.map_some, ← h i hi,
      List.getElem?_eq_getElem (by rwa [hn])]
    rfl
  · rw [List.getElem?_eq_none (by rw [List.length_range]; omega),
      List.getElem?_eq_none (by rw [hn]; omega)]
    rfl

/-- **Every position is one of a vertex**, whatever vertices there are. -/
theorem Primitive.edgesByPosition?_eq (p : Primitive α) : p.edgesByPosition? = some p.edges := by
  rw [edgesByPosition?, edges]
  cases p.topology with
  | segments => exact mapM_range_eq_some (length_pairs _) fun i _ => getElem?_pairs _ i
  | lineLoop =>
    refine mapM_range_eq_some (length_cycle _) fun i hi => ?_
    rw [getElem?_cycle hi, remainder?, if_neg (Nat.ne_zero_of_lt hi)]
    rfl

/-- **The edges of a primitive, whatever its vertices.** Finding them by position never goes
outside and never divides by zero. In a loop they begin at the vertices in order and end at
the vertices turned by one, each ends where the next one begins, all the way around, and
turning the vertices turns the edges. As segments they are the vertices two by two, without
the last one if their number is odd. -/
theorem Primitive.edges_of_vertices (p : Primitive α) :
    p.edgesByPosition? = some p.edges ∧
      (p.topology = .lineLoop →
        p.edges.map Prod.fst = p.vertices ∧
        p.edges.map Prod.snd = p.vertices.rotate 1 ∧
        (∀ (i : Nat) (e : Point α × Point α), p.edges[i]? = some e →
          ∃ e', p.edges[(i + 1) % p.edges.length]? = some e' ∧ e'.1 = e.2) ∧
        ∀ k : Nat, { p with vertices := p.vertices.rotate k }.edges = p.edges.rotate k) ∧
      (p.topology = .segments →
        p.edges.flatMap (fun e => [e.1, e.2]) =
          if p.vertices.length % 2 = 0 then p.vertices else p.vertices.dropLast) := by
  obtain ⟨width, color, topology, vertices⟩ := p
  refine ⟨edgesByPosition?_eq _, ?_, ?_⟩
  · rintro rfl
    exact ⟨map_fst_cycle vertices, map_snd_cycle vertices, fun _ _ h => exists_next_of_cycle h,
      fun k => cycle_rotate vertices k⟩
  · rintro rfl
    exact flatMap_pairs vertices

/-- The last edge of a triangle ends where the first one begins, a loop of one vertex goes from
it to itself, and of three vertices that are segments the last one is dropped. -/
theorem Primitive.edges_of_few_vertices :
    let through (t : Topology) (vs : List (Point Float32)) : Primitive Float32 :=
      ⟨1, ⟨0, 0, 0, 255⟩, t, vs⟩
    let triangle := through .lineLoop [⟨0, 0⟩, ⟨4, 0⟩, ⟨0, 3⟩]
    (∃ e, triangle.edges[(2 + 1) % triangle.edges.length]? = some e ∧ e.1 = ⟨0, 0⟩) ∧
      (through .lineLoop [⟨7, 8⟩]).edges.map Prod.snd = [⟨7, 8⟩] ∧
      (through .segments [⟨1, 2⟩, ⟨3, 4⟩, ⟨5, 6⟩]).edges.flatMap (fun e => [e.1, e.2]) =
        [⟨1, 2⟩, ⟨3, 4⟩] := by
  intro through triangle
  obtain ⟨-, -, hnext, -⟩ := (edges_of_vertices triangle).2.1 rfl
  obtain ⟨-, hends, -, -⟩ := (edges_of_vertices (through .lineLoop [⟨7, 8⟩])).2.1 rfl
  refine ⟨hnext 2 (⟨0, 3⟩, ⟨0, 0⟩) rfl, hends.trans (List.rotate_singleton _ _), ?_⟩
  exact ((edges_of_vertices (through .segments _)).2.2 rfl).trans (if_neg (by decide))

end Linework
