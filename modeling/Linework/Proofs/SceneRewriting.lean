import Linework.Proofs.SceneRoundTrip
import Linework.Proofs.SceneText

/-!
# Rewriting what was read

A scene that was read from a text can be written again, and the text it is written
as may be nested deeper than the one it was read from: an entry that is no command,
say a bare number, is written as an object that says so. What is written can be read
all the same, because of where entries stand. The commands of a scene are a list in
a container, and the children of a glow are a list in an object in such a list, so
at every entry there is an odd number of containers left to open. An entry that
uses up less than that number leaves one over, and one is all that is ever added.

`Command.nesting_document_le` is that argument, by induction on how the commands
were read. `Scene.ofText_rewritten` draws the conclusion for whole texts.
-/

namespace Linework

open Json

/-! ## Fields -/

theorem depth_le_of_last? {name : String} {v : Json} {members : List (String × Json)}
    (h : last? name members = some v) : v.depth ≤ depthOfMembers members :=
  depthOfMembers_le_iff.1 (Nat.le_refl _) _ (Command.mem_of_last? h)

theorem nesting_point_le {v : Json} {p : Point Float32} (h : v.IsPoint p) :
    p.document.nesting ≤ v.depth := by
  obtain ⟨x, y, rfl, -, -⟩ := h
  show 1 ≤ depthOf [x, y] + 1
  exact Nat.le_add_left ..

theorem nesting_points_le {v : Json} {ps : List (Point Float32)} (h : v.IsPoints ps) :
    (Document.list (ps.map Point.document)).nesting ≤ v.depth := by
  obtain ⟨items, rfl, hall⟩ := h
  rw [depth, Document.nesting, Nat.add_le_add_iff_right]
  induction hall with
  | nil => exact Nat.le_refl _
  | cons hp _ ih =>
    have hle := nesting_point_le hp
    rw [List.map_cons, Document.nestingOf, depthOf]
    omega

/-- A point that is given by name is written no deeper than it was read. -/
theorem nesting_point_le_of_hasField {members : List (String × Json)} {name : String}
    {p : Point Float32} (h : HasField members name IsPoint p) :
    p.document.nesting ≤ depthOfMembers members := by
  obtain ⟨v, hv, hp⟩ := h
  exact (nesting_point_le hp).trans (depth_le_of_last? hv)

/-- Two points and a colour are written no deeper than the points were read. -/
theorem nesting_two_points_le {members : List (String × Json)} {n n' : String}
    {p q : Point Float32} (hp : HasField members n IsPoint p) (hq : HasField members n' IsPoint q)
    (kind m m' : String) (color : Nat) :
    (Document.object [("kind", .text kind), (m, p.document), (m', q.document),
      ("color", .count color)]).nesting ≤ depthOfMembers members + 1 := by
  have hple := nesting_point_le_of_hasField hp
  have hqle := nesting_point_le_of_hasField hq
  simp only [Document.nesting, Document.nestingOfMembers]
  omega

theorem nestingOfMembers_append (xs ys : List (String × Document)) :
    Document.nestingOfMembers (xs ++ ys) =
      max (Document.nestingOfMembers xs) (Document.nestingOfMembers ys) := by
  induction xs with
  | nil => exact (Nat.zero_max _).symm
  | cons x xs ih =>
    rw [List.cons_append, Document.nestingOfMembers, Document.nestingOfMembers, ih,
      Nat.max_assoc]

theorem PolygonForm.nestingOfMembers_le {members : List (String × Json)} {form : PolygonForm}
    (h : form.Reads members) : Document.nestingOfMembers form.members ≤ depthOfMembers members := by
  cases h with
  | points hpoints =>
    obtain ⟨v, hv, hps⟩ := hpoints
    exact Nat.max_le.2 ⟨(nesting_points_le hps).trans (depth_le_of_last? hv), Nat.zero_le _⟩
  | regular _ hcenter _ _ _ =>
    exact Nat.max_le.2 ⟨nesting_point_le_of_hasField hcenter, Nat.zero_le _⟩

/-! ## Commands -/

namespace Command

mutual

/-- **What is written is nested no deeper than a reader admits**, if what was read
had an odd number of containers to open. A shape is written no deeper than it was
read, an unknown entry is one container, and a glow passes on an odd number, two
less than its own. -/
theorem nesting_document_le : ∀ {v : Json} {c : Command} {k : Nat}, Reads v c →
    v.depth ≤ 2 * k + 1 → c.document.nesting ≤ 2 * k + 1
  | _, _, k, .unknown _, _ => by
    show 1 ≤ 2 * k + 1
    exact Nat.le_add_left ..
  | _, _, _, .line _ hstart hstop _, hd => (nesting_two_points_le hstart hstop ..).trans hd
  | _, _, _, .rect _ hpos hsize _, hd => (nesting_two_points_le hpos hsize ..).trans hd
  | _, _, _, .polygon _ _ hform, hd => by
    refine Nat.le_trans (Nat.succ_le_succ (Nat.max_le.2 ⟨Nat.zero_le _, ?_⟩)) hd
    show Document.nestingOfMembers (_ ++ _) ≤ _
    rw [nestingOfMembers_append]
    exact Nat.max_le.2 ⟨PolygonForm.nestingOfMembers_le hform, Nat.zero_le _⟩
  | _, _, _, .circle _ hcenter _ _, hd => by
    refine Nat.le_trans (Nat.succ_le_succ (Nat.max_le.2 ⟨Nat.zero_le _, ?_⟩)) hd
    exact Nat.max_le.2 ⟨nesting_point_le_of_hasField hcenter, Nat.zero_le _⟩
  | _, _, _, .ellipse _ hcenter hradii _, hd => (nesting_two_points_le hcenter hradii ..).trans hd
  | _, .glow children, k, @Reads.glow members items _ _ hchildren hall, hd => by
    have hlist : depthOf items + 1 ≤ depthOfMembers members := depth_le_of_last? hchildren
    have hobject : depthOfMembers members + 1 ≤ 2 * k + 1 := hd
    -- the object and the list take two containers, so an odd number is left for each child
    obtain ⟨k, rfl⟩ : ∃ k', k = k' + 1 := ⟨k - 1, by omega⟩
    have hitems := nestingOf_documents_le (k := k) hall (by omega)
    show max 0 (max (Document.nestingOf (documents children) + 1) 0) + 1 ≤ 2 * (k + 1) + 1
    omega

theorem nestingOf_documents_le : ∀ {items : List Json} {cs : List Command} {k : Nat},
    ReadsAll items cs → depthOf items ≤ 2 * k + 1 →
      Document.nestingOf (documents cs) ≤ 2 * k + 1
  | _, _, _, .nil, _ => Nat.zero_le _
  | _, _, _, .cons hv hvs, hd => by
    rw [depthOf, Nat.max_le] at hd
    rw [documents, Document.nestingOf, Nat.max_le]
    exact ⟨nesting_document_le hv hd.1, nestingOf_documents_le hvs hd.2⟩

end

end Command

/-! ## Scenes -/

namespace Scene

/-- A scene that was read is written within what the reader admits. -/
theorem nesting_document_le_deepest {t : List Char} {s : Scene} (h : read t = .ok s) :
    s.document.nesting ≤ deepest := by
  obtain ⟨rest, hread, -⟩ := document_eq_ok_iff.1 h
  obtain ⟨d, e, tail, hd, -, hcommands, -⟩ := exists_commands hread
  obtain ⟨items, hitems, hall⟩ := Command.array_decode_iff.1 hcommands
  have hdepth : depthOf items + 1 ≤ d := depth_le_of_value hitems
  have hdeepest : deepest = 2 * 62 + 3 := rfl
  have hnesting := Command.nestingOf_documents_le (k := 62) hall (by omega)
  show max (Document.nestingOf (Command.documents s.commands) + 1) 0 + 1 ≤ deepest
  omega

/-- **Rewriting a text that was read.** Whatever the text was, the scene it gives is
written within the 127 containers that a reader admits; and if its numbers are finite
and come back from their own texts, it is read again as it was. -/
theorem ofText_rewritten (t : String) (s : Scene) (h : ofText t = .ok s) :
    Json.nesting s.toText.toList ≤ 127 ∧
      ((∀ x ∈ s.singles, x.isFinite = true) → (∀ x ∈ s.singles, TextStable x) →
        ofText s.toText = .ok s) := by
  have hdeep := nesting_document_le_deepest (mapError_eq_ok_iff.1 h)
  rw [toText, ofText, String.toList_ofList]
  constructor
  · rw [write, Document.nesting_pretty]
    exact hdeep
  · intro hfinite hstable
    refine mapError_eq_ok_iff.2 ((read_write_iff ?_).2 ⟨rfl, hfinite, hdeep⟩)
    exact fun x hx _ => hstable x hx

/-- The text of a scene with a circle, and with a bare number inside `n` glows. -/
def numberInGlows (n : Nat) : List Char :=
  "\x7b\"commands\":[\x7b\"kind\":\"circle\",\"center\":[0.1,-0.0],\"radius\":1e-9,".toList ++
    "\"color\":16711935\x7d,".toList ++
    (List.replicate n "\x7b\"kind\":\"glow\",\"children\":[".toList).flatten ++ "42".toList ++
    (List.replicate n "]\x7d".toList).flatten ++ "]\x7d".toList

/-- As many glows as can be read around a number. The text has one container less
than is admitted, and what is written has them all. -/
theorem ofText_number_in_glows :
    ∃ s, ofText (String.ofList (numberInGlows 62)) = .ok s ∧
      Json.nesting (numberInGlows 62) = 126 ∧ Json.nesting s.toText.toList = 127 ∧
      ofText s.toText = .ok s := by
  have hsome : (read (numberInGlows 62)).toOption.isSome = true := by decide +kernel
  have hscene : ∀ s ∈ (read (numberInGlows 62)).toOption,
      s.document.nesting = 127 ∧ ∀ x ∈ s.singles, x.isFinite = true ∧
        (Json.document single (singleLayout.single x)).toOption = some x ∧ (x == x) = true := by
    decide +kernel
  obtain ⟨s, hs⟩ := Option.isSome_iff_exists.1 hsome
  obtain ⟨hnesting, hsingles⟩ := hscene s hs
  have hread : ofText (String.ofList (numberInGlows 62)) = .ok s := by
    rw [ofText, String.toList_ofList]
    exact mapError_eq_ok_iff.2 (toOption_eq_some_iff.1 hs)
  refine ⟨s, hread, by decide +kernel, ?_, (ofText_rewritten _ s hread).2 ?_ ?_⟩
  · rw [toText, String.toList_ofList, write, Document.nesting_pretty]
    exact hnesting
  · intro x hx
    exact (hsingles x hx).1
  · intro x hx
    obtain ⟨-, htext, hequal⟩ := hsingles x hx
    exact ⟨x, toOption_eq_some_iff.1 htext, hequal⟩

end Scene

end Linework
