import Linework.Primitive.Json
import Linework.Proofs.Json.Typed
import Linework.Proofs.SceneRoundTrip

/-!
# Display lists read back

A display list is written without blanks and read straight from that text, primitive by
primitive and number by number. What reading makes of it is therefore said number by number
as well: `DisplayList.reread` is the list that has every width and every coordinate
replaced by what its own text is read as, and the first fault among them if there is one.
Colours and topologies are read as themselves.

Two things follow. If all numbers come back from their texts, so does the list. And if some
number is not finite, the list is refused, because the text has the absent value in that
place. It does not matter what becomes of the other numbers, as a finite one is read as some
number at least: nothing but a number that is not finite can be what a display list is
refused for, `Judges`.
-/

namespace Linework

open Json

/-! ## What becomes of the parts -/

namespace Point

/-- A point with its coordinates read from their own texts. -/
def reread (p : Point Float32) : Except Fault (Point Float32) := do
  return ⟨← Json.reread p.x, ← Json.reread p.y⟩

theorem makes_decode (p : Point Float32) : Makes decode p.document p.reread := by
  intro spacing level depth s rest hdepth hrest hs
  let given : List (Given (Point Float32)) :=
    [.of "x" true (makes_single p.x) fun x p => { p with x },
      .of "y" true (makes_single p.y) fun y p => { p with y }]
  obtain ⟨t, ht⟩ : ∃ t, p.document.textBefore spacing level rest = '[' :: t :=
    ⟨_, by rw [document, Document.textBefore]⟩
  have hread : opening depth (fun d => positional .pair d coordinates 0 (.splat 0)) t =
      (applyAll (given.map (·.change)) (.splat 0)).map (·, rest) :=
    opening_positional given hdepth ht
  rw [decode, hs, ht]
  refine hread.trans ?_
  show Except.map _ (applyAll [(Json.reread p.x).map _, (Json.reread p.y).map _] _) = _
  rw [reread]
  cases Json.reread p.x with
  | error fault => rfl
  | ok x => cases Json.reread p.y <;> rfl

end Point

theorem Color.makes_decode (c : Color) : Makes record.decode c.document (.ok c) :=
  makes_record (r := record)
    [.of "r" true (makes_byte c.r) fun r c => { c with r },
      .of "g" true (makes_byte c.g) fun g c => { c with g },
      .of "b" true (makes_byte c.b) fun b c => { c with b },
      .of "a" true (makes_byte c.a) fun a c => { c with a }] rfl (by decide)

theorem Topology.makes_decode (t : Topology) : Makes decode t.document (.ok t) := by
  intro spacing level depth s rest hdepth hrest hs
  rw [document, Document.textBefore, string_append] at hs
  rw [decode, hs]
  show named _ = _
  rw [named, stringText_escaped]
  cases t <;> rfl

namespace Primitive

/-- A primitive with its width and its coordinates read from their own texts. -/
def reread (p : Primitive Float32) : Except Fault (Primitive Float32) := do
  let width ← Json.reread p.width
  let vertices ← p.vertices.mapM Point.reread
  return { p with width, vertices }

theorem makes_decode (p : Primitive Float32) : Makes record.decode p.document p.reread := by
  have hmakes := makes_record (r := record)
    [.of "width" true (makes_single p.width) fun width p => { p with width },
      .of "color" true p.color.makes_decode fun color p => { p with color },
      .of "topology" true p.topology.makes_decode fun topology p => { p with topology },
      .of "vertices" true (makes_array p.vertices fun v _ => v.makes_decode)
        fun vertices p => { p with vertices }] rfl (by decide)
  have hresult : p.reread = applyAll
      [(Json.reread p.width).map fun width p => { p with width },
        .ok fun q => { q with color := p.color }, .ok fun q => { q with topology := p.topology },
        (p.vertices.mapM Point.reread).map fun vertices p => { p with vertices }]
      record.template := by
    rw [reread]
    cases Json.reread p.width with
    | error fault => rfl
    | ok width => cases p.vertices.mapM Point.reread <;> rfl
  rw [hresult]
  exact hmakes

end Primitive

namespace DisplayList

/-- A display list with its numbers read from their own texts. -/
def reread (ps : DisplayList) : Except Fault DisplayList := ps.mapM Primitive.reread

/-- A list, the object of a primitive in it, the list of its vertices, and a point: there
are no deeper ones. -/
theorem nesting_document_le (ps : DisplayList) : (document ps).nesting ≤ 4 := by
  have hvertices : ∀ p : Primitive Float32,
      Document.nestingOf (p.vertices.map Point.document) ≤ 1 := by
    intro p
    refine nestingOf_le fun d hd => ?_
    obtain ⟨v, -, rfl⟩ := List.mem_map.1 hd
    exact Nat.le_refl 1
  rw [document, Document.nesting]
  refine Nat.succ_le_succ (nestingOf_le fun d hd => ?_)
  obtain ⟨p, -, rfl⟩ := List.mem_map.1 hd
  have hp : p.document.nesting =
      max 0 (max 1 (max 0 (max (Document.nestingOf (p.vertices.map Point.document) + 1) 0))) + 1 :=
    rfl
  have := hvertices p
  omega

/-- **Reading is rereading**, number by number. -/
theorem read_write_eq_reread (ps : DisplayList) : read (write ps) = reread ps :=
  (makes_array ps fun p _ => p.makes_decode).document_eq
    (Nat.le_trans (nesting_document_le ps) (by decide))

end DisplayList

/-! ## What a display list is refused for -/

/-- **Nothing but a number that is not finite is refused.** Reading something with these
numbers in it gives a result if all of them are finite, and one fault if any of them is
not. -/
def Judges {α : Type} (xs : List Float32) (result : Except Fault α) : Prop :=
  (AllFinite xs → ∃ a, result = .ok a) ∧ (¬ AllFinite xs → result = .error absentSingle)

theorem judges_ok {α : Type} (a : α) : Judges [] (.ok a) :=
  ⟨fun _ => ⟨a, rfl⟩, fun h => absurd allFinite_nil h⟩

theorem judges_reread (x : Float32) : Judges [x] (Json.reread x) := by
  have hiff : AllFinite [x] ↔ x.isFinite = true := List.forall_mem_singleton
  refine ⟨fun h => exists_reread (hiff.1 h), fun h => ?_⟩
  exact reread_of_not_isFinite (Bool.eq_false_iff.2 fun hx => h (hiff.2 hx))

/-- What is read second is read only if the first was. -/
theorem Judges.bind {α β : Type} {xs ys : List Float32} {result : Except Fault α}
    {next : α → Except Fault β} (h : Judges xs result) (hnext : ∀ a, Judges ys (next a)) :
    Judges (xs ++ ys) (result >>= next) := by
  by_cases hxs : AllFinite xs
  · obtain ⟨a, rfl⟩ := h.1 hxs
    refine ⟨fun hall => (hnext a).1 (allFinite_append.1 hall).2, fun hall => ?_⟩
    exact (hnext a).2 fun hys => hall (allFinite_append.2 ⟨hxs, hys⟩)
  · rw [h.2 hxs]
    exact ⟨fun hall => absurd (allFinite_append.1 hall).1 hxs, fun _ => rfl⟩

theorem Judges.map {α β : Type} {xs : List Float32} {result : Except Fault α}
    (h : Judges xs result) (f : α → β) : Judges xs (do return f (← result)) := by
  rw [← List.append_nil xs]
  exact h.bind fun a => judges_ok (f a)

theorem Judges.mapM {α β : Type} {singles : α → List Float32} {read : α → Except Fault β}
    (h : ∀ x, Judges (singles x) (read x)) (xs : List α) :
    Judges (xs.flatMap singles) (xs.mapM read) := by
  induction xs with
  | nil => exact judges_ok []
  | cons x xs ih =>
    rw [List.mapM_cons, List.flatMap_cons]
    exact (h x).bind fun y => ih.map (y :: ·)

theorem Point.judges_reread (p : Point Float32) : Judges p.singles p.reread :=
  (Linework.judges_reread p.x).bind fun x => (Linework.judges_reread p.y).map (Point.mk x)

/-- The numbers of a primitive. -/
def Primitive.singles (p : Primitive Float32) : List Float32 :=
  p.width :: p.vertices.flatMap Point.singles

theorem Primitive.judges_reread (p : Primitive Float32) : Judges p.singles p.reread :=
  (Linework.judges_reread p.width).bind fun width =>
    (Judges.mapM Point.judges_reread p.vertices).map (Primitive.mk width p.color p.topology)

/-! ## What comes back -/

theorem mapM_eq_ok_self {α : Type} {read : α → Except Fault α} {xs : List α}
    (h : ∀ x ∈ xs, read x = .ok x) : xs.mapM read = .ok xs := by
  induction xs with
  | nil => rfl
  | cons x xs ih =>
    rw [List.mapM_cons, h x List.mem_cons_self,
      ih fun y hy => h y (List.mem_cons_of_mem x hy)]
    rfl

theorem Point.reread_eq_ok {p : Point Float32}
    (h : ∀ x ∈ p.singles, x.isFinite = true ∧ TextStable x) : p.reread = .ok p := by
  have hx := h p.x List.mem_cons_self
  have hy := h p.y (List.mem_cons_of_mem _ List.mem_cons_self)
  rw [reread, reread_of_textStable hx.1 hx.2, reread_of_textStable hy.1 hy.2]
  rfl

theorem Primitive.reread_eq_ok {p : Primitive Float32}
    (h : ∀ x ∈ p.singles, x.isFinite = true ∧ TextStable x) : p.reread = .ok p := by
  have hwidth := h p.width List.mem_cons_self
  have hvertices : p.vertices.mapM Point.reread = .ok p.vertices := mapM_eq_ok_self fun v hv =>
    Point.reread_eq_ok fun x hx =>
      h x (List.mem_cons_of_mem _ (List.mem_flatMap.2 ⟨v, hv, hx⟩))
  rw [reread, reread_of_textStable hwidth.1 hwidth.2, hvertices]
  rfl

namespace DisplayList

/-- The numbers of a display list: all widths and all coordinates. -/
def singles (ps : DisplayList) : List Float32 := ps.flatMap Primitive.singles

/-- **A display list comes back from its text** if its numbers do, primitive by primitive
with their colours, topologies and vertices. If any of its numbers is not finite, the text
holds the absent value where a number belongs, and that is what is reported, whatever the
other numbers are: no other list is ever read. -/
theorem read_write (ps : DisplayList) :
    ((∀ x ∈ singles ps, x.isFinite = true ∧ TextStable x) → read (write ps) = .ok ps) ∧
      ((∃ x ∈ singles ps, x.isFinite = false) →
        read (write ps) = .error (.mismatch (.wrongType .null .single))) := by
  rw [read_write_eq_reread]
  refine ⟨fun h => ?_, ?_⟩
  · exact mapM_eq_ok_self fun p hp =>
      Primitive.reread_eq_ok fun x hx => h x (List.mem_flatMap.2 ⟨p, hp, hx⟩)
  · rintro ⟨x, hx, hfinite⟩
    refine (Judges.mapM Primitive.judges_reread ps).2 fun hall => ?_
    rw [hall x hx] at hfinite
    cases hfinite

/-- A loop of three vertices comes back, also behind a primitive without vertices. It does
not if a coordinate is infinite. -/
theorem read_write_loop :
    let loop (x : Float32) : DisplayList :=
      [⟨1, ⟨0, 0, 0, 255⟩, .segments, []⟩,
        ⟨2.5, ⟨255, 128, 0, 255⟩, .lineLoop, [⟨0, 0⟩, ⟨x, -0⟩, ⟨1e-9, -0.1⟩]⟩]
    (∀ x ∈ singles (loop 3), x.isFinite = true ∧ TextStable x) ∧
      read (write (loop 3)) = .ok (loop 3) ∧
      read (write (loop (1 / 0))) = .error (.mismatch (.wrongType .null .single)) := by
  intro loop
  have hstable : ∀ x ∈ singles (loop 3), x.isFinite = true ∧ TextStable x := by
    have hread : ∀ x ∈ singles (loop 3), x.isFinite = true ∧
        (Json.document single (singleLayout.single x)).toOption = some x ∧ (x == x) = true := by
      decide +kernel
    intro x hx
    obtain ⟨hfinite, hsome, hequal⟩ := hread x hx
    exact ⟨hfinite, x, toOption_eq_some_iff.1 hsome, hequal⟩
  have hinfinite : ∃ x ∈ singles (loop (1 / 0)), x.isFinite = false := by decide +kernel
  exact ⟨hstable, (read_write (loop 3)).1 hstable, (read_write (loop (1 / 0))).2 hinfinite⟩

end DisplayList

end Linework
