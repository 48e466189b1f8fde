import Linework.Proofs.Json.Readable
import Linework.Proofs.Json.Record
import Linework.Proofs.Json.Written

/-!
# Values of a type, read back

A decoder takes its value straight from the text, without a document in between. What it
makes of the text of a document is the same wherever that text stands: after any blanks,
in front of anything that does not continue a numeral, spaced in either way, and as deep
inside as containers are admitted. `Makes` says so of a decoder, a document and a result,
and the result may be a fault: a decoder stops at the first one it meets.

There is one lemma for each way to build a decoder. For lists the results are collected,
`makes_array`. For records they are applied one after another, `applyAll`, to the record
that is overridden, whether its fields are named, `makes_record`, or only in order,
`positional_items`. Singles are at the bottom: what becomes of one is what becomes of its
own text, `reread`, and that is never any other fault than one.
-/

namespace Linework.Json

open Document

/-- **What a decoder makes of a document**, wherever its text stands. -/
def Makes {α : Type} (decode : Decoder α) (d : Document) (result : Except Fault α) : Prop :=
  ∀ ⦃spacing : Spacing⦄ ⦃level depth : Nat⦄ ⦃s rest : List Char⦄, d.nesting ≤ depth → Ends rest →
    skipBlanks s = d.textBefore spacing level rest → decode depth s = result.map (·, rest)

/-- A whole text is read as what stands in it. -/
theorem Makes.document_eq {α : Type} {decode : Decoder α} {d : Document} {result : Except Fault α}
    (h : Makes decode d result) (hnesting : d.nesting ≤ deepest) :
    document decode d.compact = result := by
  rw [document, Document.compact, h hnesting ends_nil (skipBlanks_textBefore .compact 0 d [])]
  cases result with
  | error fault => rfl
  | ok x => rfl

/-! ## Numbers -/

/-- A number is acceptable at its place or not, wherever it stands. -/
theorem numeric_of_scalar {α : Type} {expected : Expected} {accept : Number → Except Mismatch α}
    {depth : Nat} {s t rest : List Char} {n : Number} (hs : skipBlanks s = t)
    (h : scalar t = .ok (.number n, rest)) :
    numeric expected accept depth s = ((accept n).mapError .mismatch).map (·, rest) := by
  unfold scalar at h
  split at h
  · obtain ⟨_, -, h⟩ := bind_eq_ok_iff.1 h
    cases h
  · obtain ⟨_, -, h⟩ := bind_eq_ok_iff.1 h
    cases h
  · obtain ⟨_, -, h⟩ := bind_eq_ok_iff.1 h
    cases h
  · obtain ⟨⟨_, _⟩, -, h⟩ := bind_eq_ok_iff.1 h
    cases h
  · obtain ⟨⟨n', rest'⟩, hn, h⟩ := bind_eq_ok_iff.1 h
    cases h
    rw [numeric, hs]
    show (numberText true _ >>= _) = _
    rw [hn, ok_bind]
    dsimp only
    cases accept n <;> rfl
  · next c t' _ _ _ _ hminus =>
    split at h
    · next hc =>
      obtain ⟨⟨n', rest'⟩, hn, h⟩ := bind_eq_ok_iff.1 h
      cases h
      unfold numeric
      split
      · next hs' => rw [hs] at hs'; cases hs'
      · next hs' => rw [hs] at hs'; cases hs'; exact absurd rfl hminus
      · next hs' =>
        rw [hs] at hs'
        cases hs'
        rw [if_pos hc, hn, ok_bind]
        dsimp only
        cases accept n <;> rfl
    · cases h
  · cases h

/-- A count is read back where it is acceptable. -/
theorem makes_count {α : Type} {expected : Expected} {accept : Number → Except Mismatch α} {n : Nat}
    {x : α} (hcount : n ≤ greatestCount) (haccept : accept (.whole n) = .ok x) :
    Makes (numeric expected accept) (.count n) (.ok x) := by
  intro spacing level depth s rest hdepth hrest hs
  rw [textBefore] at hs
  rw [numeric_of_scalar hs (scalar_toDigits hcount hrest), haccept]
  rfl

/-- A count within eight bits is read back. -/
theorem makes_byte (b : UInt8) : Makes byte (.count b.toNat) (.ok b) := by
  have hlt : b.toNat < 256 := b.toNat_lt
  refine makes_count ?_ ?_
  · show b.toNat ≤ 0xffffffffffffffff
    omega
  · rw [Number.toByte, Number.toCount, if_pos (by omega)]
    show Except.ok (UInt8.ofNat b.toNat) = _
    rw [UInt8.ofNat_toNat]

/-- A count within 32 bits is read back. -/
theorem makes_word32 (n : UInt32) : Makes word32 (.count n.toNat) (.ok n) := by
  have hlt : n.toNat < 4294967296 := n.toNat_lt
  refine makes_count ?_ ?_
  · show n.toNat ≤ 0xffffffffffffffff
    omega
  · rw [Number.toWord, Number.toCount, if_pos (by omega)]
    show Except.ok (UInt32.ofNat n.toNat) = _
    rw [UInt32.ofNat_toNat]

/-! ## Truth values -/

/-- A truth value is read back. -/
theorem makes_boolean (b : Bool) : Makes boolean (.bool b) (.ok b) := by
  intro spacing level depth s rest hdepth hrest hs
  rw [textBefore] at hs
  rw [boolean, hs]
  cases b <;> rfl

/-! ## Singles -/

/-- **A single, read from its own text.** -/
def reread (x : Float32) : Except Fault Float32 := document single (singleLayout.single x)

/-- The one fault that a single may be. -/
def absentSingle : Fault := .mismatch (.wrongType .null .single)

theorem reread_eq_of_makes {x : Float32} {result : Except Fault Float32}
    (h : Makes single (.single x) result) : reread x = result := by
  have hcompact : singleLayout.single x = (Document.single x).compact := by
    rw [Document.compact, textBefore, List.append_nil]
  rw [reread, hcompact, h.document_eq (Nat.zero_le _)]

theorem exists_makes_single {x : Float32} (hx : x.isFinite = true) :
    ∃ y, Makes single (.single x) (.ok y) := by
  obtain ⟨n, hread⟩ := exists_scalar_isFinite hx
  refine ⟨n.toSingle, ?_⟩
  intro spacing level depth s rest hdepth hrest hs
  rw [textBefore] at hs
  rw [single, numeric_of_scalar hs (hread rest hrest)]
  rfl

theorem makes_single_of_not_isFinite {x : Float32} (hx : x.isFinite = false) :
    Makes single (.single x) (.error absentSingle) := by
  intro spacing level depth s rest hdepth hrest hs
  rw [textBefore, single_of_not_isFinite hx] at hs
  rw [single, numeric, hs]
  rfl

/-- **What becomes of a single** is what becomes of its own text. -/
theorem makes_single (x : Float32) : Makes single (.single x) (reread x) := by
  cases hx : x.isFinite with
  | true =>
    obtain ⟨y, hy⟩ := exists_makes_single hx
    rw [reread_eq_of_makes hy]
    exact hy
  | false =>
    rw [reread_eq_of_makes (makes_single_of_not_isFinite hx)]
    exact makes_single_of_not_isFinite hx

/-- A finite single is read as some single. -/
theorem exists_reread {x : Float32} (hx : x.isFinite = true) : ∃ y, reread x = .ok y := by
  obtain ⟨y, hy⟩ := exists_makes_single hx
  exact ⟨y, reread_eq_of_makes hy⟩

theorem reread_of_not_isFinite {x : Float32} (hx : x.isFinite = false) :
    reread x = .error absentSingle :=
  reread_eq_of_makes (makes_single_of_not_isFinite hx)

/-- A finite single that comes back from its text is read as itself. -/
theorem reread_of_textStable {x : Float32} (hx : x.isFinite = true) (h : TextStable x) :
    reread x = .ok x :=
  document_single hx h

theorem makes_single_of_textStable {x : Float32} (hx : x.isFinite = true) (h : TextStable x) :
    Makes single (.single x) (.ok x) := by
  rw [← reread_of_textStable hx h]
  exact makes_single x

/-! ## Lists -/

/-- Documents of a depth, all of them in one list. -/
theorem nestingOf_le {n : Nat} {ds : List Document} (h : ∀ d ∈ ds, d.nesting ≤ n) :
    nestingOf ds ≤ n := by
  induction ds with
  | nil => rw [nestingOf]; exact Nat.zero_le n
  | cons d ds ih =>
    rw [nestingOf, Nat.max_le]
    exact ⟨h d List.mem_cons_self, ih fun d' hd' => h d' (List.mem_cons_of_mem d hd')⟩

/-- An element and those after it, if there are rounds enough. A fault of the element comes
before any of theirs. -/
theorem elements_cons {α : Type} {item : Decoder α} {x : Document} {y : Except Fault α}
    {ys : Except Fault (List α)} {spacing : Spacing} {level depth n : Nat} {first : Bool}
    {fuel s tail rest : List Char} (hx : Makes item x y) (hdepth : x.nesting ≤ depth)
    (hnext : nextElement first s = .ok (.entry (textBefore spacing level x tail)))
    (hends : Ends tail)
    (htail : ∀ fuel : List Char, n < fuel.length →
      elements (item depth) fuel false tail = ys.map (·, rest))
    (hfuel : n + 1 < fuel.length) :
    elements (item depth) fuel first s =
      (do return (← y) :: (← ys) : Except Fault (List α)).map (·, rest) := by
  cases fuel with
  | nil => exact absurd hfuel (Nat.not_lt_zero _)
  | cons c fuel =>
    rw [elements, hnext, ok_bind]
    dsimp only
    rw [hx hdepth hends (skipBlanks_textBefore ..)]
    cases y with
    | error fault => rfl
    | ok y =>
      show (elements (item depth) fuel false tail >>= _) = _
      rw [htail fuel (Nat.lt_of_succ_lt_succ hfuel)]
      cases ys <;> rfl

section Array

variable {α β : Type} {item : Decoder β} {doc : α → Document} {result : α → Except Fault β}

theorem elements_items {spacing : Spacing} {level outer depth : Nat} {rest : List Char} :
    ∀ {xs : List α}, (∀ x ∈ xs, Makes item (doc x) (result x)) →
      nestingOf (xs.map doc) ≤ depth → ∀ fuel : List Char, xs.length < fuel.length →
      elements (item depth) fuel false
          (itemsBefore spacing level (xs.map doc) (spacing.line outer ++ ']' :: rest)) =
        (xs.mapM result).map (·, rest)
  | [], hitems, hdepth, c :: fuel, hfuel => by
    have hclose : skipBlanks (spacing.line outer ++ ']' :: rest) = ']' :: rest :=
      skipBlanks_append (spacing.isBlank_line outer) _
    rw [List.map_nil, itemsBefore, elements, nextElement_of_closes hclose]
    rfl
  | x :: xs, hitems, hdepth, fuel, hfuel => by
    rw [List.map_cons, nestingOf, Nat.max_le] at hdepth
    rw [List.map_cons, itemsBefore, List.mapM_cons]
    exact elements_cons (hitems x List.mem_cons_self) hdepth.1 (nextElement_false_textBefore ..)
      (ends_itemsBefore _ _ _ _ _)
      (elements_items (fun y hy => hitems y (List.mem_cons_of_mem x hy)) hdepth.2) hfuel

/-- **A list** is read element by element. -/
theorem makes_array (xs : List α) (h : ∀ x ∈ xs, Makes item (doc x) (result x)) :
    Makes (array item) (.list (xs.map doc)) (xs.mapM result) := by
  intro spacing level depth s rest hdepth hrest hs
  rw [Document.nesting] at hdepth
  cases depth with
  | zero => exact absurd hdepth (Nat.not_succ_le_zero _)
  | succ depth =>
    have hdepth := Nat.le_of_succ_le_succ hdepth
    cases xs with
    | nil =>
      rw [List.map_nil, textBefore] at hs
      rw [array, hs]
      rfl
    | cons x xs =>
      rw [List.map_cons, nestingOf, Nat.max_le] at hdepth
      rw [List.map_cons, textBefore] at hs
      rw [array, hs, List.mapM_cons]
      refine elements_cons (h x List.mem_cons_self) hdepth.1 (nextElement_true_textBefore ..)
        (ends_itemsBefore _ _ _ _ _)
        (elements_items (fun y hy => h y (List.mem_cons_of_mem x hy)) hdepth.2) ?_
      -- the text itself counts the rounds, and it has more characters than elements
      have hlength := length_lt_textBefore spacing (level + 1) (doc x)
        (itemsBefore spacing (level + 1) (xs.map doc) (spacing.line level ++ ']' :: rest))
      have hlength' := length_le_itemsBefore spacing (level + 1) (xs.map doc)
        (spacing.line level ++ ']' :: rest)
      simp only [List.length_cons, List.length_append, List.length_map] at hlength hlength' ⊢
      omega

end Array

/-! ## Records -/

/-- Changes to a record, one after another, up to the first that is a fault. -/
def applyAll {α : Type} : List (Except Fault (α → α)) → α → Except Fault α
  | [], x => .ok x
  | change :: more, x => do applyAll more ((← change) x)

/-- A field of a record as it is written: the document it is given by, and the change that
is made of it. -/
structure Given (α : Type) where
  /-- The field. -/
  field : RecordField α
  /-- The document. -/
  doc : Document
  /-- The change, or the fault in its place. -/
  change : Except Fault (α → α)
  makes : Makes field.decode doc change

/-- The field that a value is stored in. -/
def Given.of {α β : Type} (name : String) (required : Bool) {decode : Decoder β} {doc : Document}
    {result : Except Fault β} (h : Makes decode doc result) (store : β → α → α) : Given α where
  field := .of name required decode store
  doc
  change := result.map store
  makes := by
    intro spacing level depth s rest hdepth hrest hs
    show (decode depth s >>= _) = _
    rw [h hdepth hrest hs]
    cases result <;> rfl

section Fields

variable {α : Type} {r : Record α}

/-- A member that gives a field, and those after it. -/
theorem members_cons {g : Given α} {ys : α → Except Fault ((α × List String) × List Char)}
    {spacing : Spacing} {level depth n : Nat} {first : Bool} {fuel s tail : List Char}
    {x : α} {given : List String}
    (hfield : r.fields.find? (·.name == g.field.name) = some g.field)
    (hnew : g.field.name ∉ given) (hdepth : g.doc.nesting ≤ depth) (hends : Ends tail)
    (hnext : nextMember first s = .ok (.entry (g.field.name.toList.flatMap escaped ++ '"' :: ':' ::
      (spacing.gap ++ textBefore spacing level g.doc tail))))
    (htail : ∀ (y : α) (fuel : List Char), n < fuel.length →
      members stringText (r.member depth) fuel false (y, g.field.name :: given) tail = ys y)
    (hfuel : n + 1 < fuel.length) :
    members stringText (r.member depth) fuel first (x, given) s =
      (do ys ((← g.change) x)) := by
  have hmember : r.member depth g.field.name (x, given)
      (':' :: (spacing.gap ++ textBefore spacing level g.doc tail)) =
        g.change.map fun change => ((change x, g.field.name :: given), tail) := by
    have hblanks : skipBlanks (spacing.gap ++ textBefore spacing level g.doc tail) =
        textBefore spacing level g.doc tail := by
      rw [skipBlanks_append spacing.isBlank_gap, skipBlanks_textBefore]
    rw [Record.member, hfield]
    dsimp only
    rw [if_neg fun h => hnew (List.contains_iff_mem.1 h)]
    show (g.field.decode depth (spacing.gap ++ _) >>= _) = _
    rw [g.makes hdepth hends hblanks]
    cases g.change <;> rfl
  cases fuel with
  | nil => exact absurd hfuel (Nat.not_lt_zero _)
  | cons c fuel =>
    rw [members, hnext, ok_bind]
    dsimp only
    rw [stringText_escaped, ok_bind]
    dsimp only
    rw [hmember]
    cases g.change with
    | error fault => rfl
    | ok change => exact htail (change x) fuel (Nat.lt_of_succ_lt_succ hfuel)

/-- The members of a record as it is written. -/
def namedDocs (gs : List (Given α)) : List (String × Document) :=
  gs.map fun g => (g.field.name, g.doc)

theorem namedDocs_cons (g : Given α) (gs : List (Given α)) :
    namedDocs (g :: gs) = (g.field.name, g.doc) :: namedDocs gs := rfl

/-- Further members are read one after another, up to the first fault. -/
theorem members_fields {spacing : Spacing} {level outer depth : Nat} {rest : List Char} :
    ∀ {gs : List (Given α)} {x : α} {given : List String},
      (∀ g ∈ gs, r.fields.find? (·.name == g.field.name) = some g.field) →
      ((gs.map (·.field.name)).reverse ++ given).Nodup →
      nestingOfMembers (namedDocs gs) ≤ depth → ∀ fuel : List Char, gs.length < fuel.length →
      members stringText (r.member depth) fuel false (x, given)
          (membersBefore spacing level (namedDocs gs) (spacing.line outer ++ '}' :: rest)) =
        (applyAll (gs.map (·.change)) x).map
          fun y => ((y, (gs.map (·.field.name)).reverse ++ given), rest)
  | [], x, given, hfields, hnames, hdepth, c :: fuel, hfuel => by
    have hclose : skipBlanks (spacing.line outer ++ '}' :: rest) = '}' :: rest :=
      skipBlanks_append (spacing.isBlank_line outer) _
    rw [namedDocs, List.map_nil, membersBefore, members, nextMember_of_closes hclose]
    rfl
  | g :: gs, x, given, hfields, hnames, hdepth, fuel, hfuel => by
    have hnames' : ((gs.map (·.field.name)).reverse ++ g.field.name :: given).Nodup := by
      rw [List.map_cons, List.reverse_cons, List.append_assoc] at hnames
      exact hnames
    have hnew : g.field.name ∉ given :=
      (List.nodup_cons.1 (List.nodup_append.1 hnames').2.1).1
    rw [namedDocs_cons, nestingOfMembers, Nat.max_le] at hdepth
    rw [namedDocs_cons, membersBefore, List.map_cons, List.map_cons, List.reverse_cons,
      List.append_assoc]
    refine (members_cons (hfields g List.mem_cons_self) hnew hdepth.1
      (ends_membersBefore _ _ _ _ _)
      (nextMember_false_of_entry (skipBlanks_cons rfl _) (skipBlanks_nameBefore ..))
      (fun y => members_fields (fun g' hg' => hfields g' (List.mem_cons_of_mem g hg')) hnames'
        hdepth.2) hfuel).trans ?_
    cases g.change <;> rfl

/-- Names that differ find their fields. -/
theorem find?_name_of_mem {fs : List (RecordField α)} (hnames : (fs.map (·.name)).Nodup)
    {f : RecordField α} (hf : f ∈ fs) : fs.find? (·.name == f.name) = some f := by
  induction fs with
  | nil => cases hf
  | cons f' fs ih =>
    rw [List.map_cons, List.nodup_cons] at hnames
    rcases List.mem_cons.1 hf with rfl | hf
    · exact List.find?_cons_of_pos (beq_self_eq_true _)
    · have hne : (f'.name == f.name) = false := by
        refine beq_eq_false_iff_ne.2 fun h => hnames.1 ?_
        rw [h]
        exact List.mem_map_of_mem hf
      rw [List.find?_cons, hne]
      exact ih hnames.2 hf

/-- No field is missing where all have been given. -/
theorem keyed_of_members {depth : Nat} {s rest : List Char} {result : Except Fault α}
    {given : List String} (hgiven : ∀ f ∈ r.fields, f.name ∈ given)
    (h : objectOf stringText (r.member depth) (r.template, []) s =
      result.map fun y => ((y, given), rest)) :
    r.keyed depth s = result.map (·, rest) := by
  rw [Record.keyed, h]
  cases result with
  | error fault => rfl
  | ok y =>
    rw [Except.map, ok_bind]
    dsimp only
    rw [Record.find?_required_eq_none_iff.2 fun f hf _ => hgiven f hf]
    rfl

/-- **A record with its fields named** is the record that is overridden, with their changes
applied to it in order. -/
theorem makes_record (gs : List (Given α)) (hfields : gs.map (·.field) = r.fields)
    (hnames : (r.fields.map (·.name)).Nodup) :
    Makes r.decode (.object (namedDocs gs)) (applyAll (gs.map (·.change)) r.template) := by
  intro spacing level depth s rest hdepth hrest hs
  have hmem : ∀ g ∈ gs, r.fields.find? (·.name == g.field.name) = some g.field := by
    intro g hg
    refine find?_name_of_mem hnames ?_
    rw [← hfields]
    exact List.mem_map_of_mem hg
  have hgs : (gs.map (·.field.name)) = r.fields.map (·.name) := by
    rw [← hfields, List.map_map]
    rfl
  have hgiven : ∀ f ∈ r.fields, f.name ∈ (gs.map (·.field.name)).reverse := by
    intro f hf
    rw [hgs, List.mem_reverse]
    exact List.mem_map_of_mem hf
  have hdistinct : (gs.map (·.field.name)).reverse.Nodup := by
    rw [hgs]
    exact List.pairwise_reverse.2 (hnames.imp Ne.symm)
  rw [Document.nesting] at hdepth
  cases depth with
  | zero => exact absurd hdepth (Nat.not_succ_le_zero _)
  | succ depth =>
    have hdepth := Nat.le_of_succ_le_succ hdepth
    cases gs with
    | nil =>
      rw [namedDocs, List.map_nil, textBefore] at hs
      rw [Record.decode, hs]
      exact keyed_of_members hgiven rfl
    | cons g gs =>
      rw [namedDocs_cons, nestingOfMembers, Nat.max_le] at hdepth
      rw [namedDocs_cons, textBefore] at hs
      rw [List.map_cons, List.reverse_cons] at hdistinct hgiven
      rw [Record.decode, hs, List.map_cons]
      refine keyed_of_members hgiven ?_
      refine (members_cons (hmem g List.mem_cons_self) List.not_mem_nil hdepth.1
        (ends_membersBefore _ _ _ _ _) (nextMember_true_of_entry (skipBlanks_nameBefore ..))
        (fun y => members_fields (fun g' hg' => hmem g' (List.mem_cons_of_mem g hg')) hdistinct
          hdepth.2) ?_).trans ?_
      · -- the text itself counts the rounds, and it has more characters than members
        have hlength := length_lt_textBefore spacing (level + 1) g.doc
          (membersBefore spacing (level + 1) (namedDocs gs) (spacing.line level ++ '}' :: rest))
        have hlength' := length_le_membersBefore spacing (level + 1) (namedDocs gs)
          (spacing.line level ++ '}' :: rest)
        simp only [namedDocs, nameBefore, List.length_cons, List.length_append, List.length_map]
          at hlength hlength' ⊢
        omega
      · cases g.change <;> rfl

/-! ## Fields in order -/

/-- The elements of a record as it is written without names. -/
def bareDocs (gs : List (Given α)) : List Document := gs.map (·.doc)

theorem bareDocs_cons (g : Given α) (gs : List (Given α)) :
    bareDocs (g :: gs) = g.doc :: bareDocs gs := rfl

/-- An element that gives a field, and those after it. -/
theorem positional_cons {expected : Expected} {g : Given α} {fields : List (RecordField α)}
    {spacing : Spacing} {level depth : Nat} {x : α} {s tail : List Char} (i : Nat)
    (hdepth : g.doc.nesting ≤ depth) (hends : Ends tail)
    (hnext : nextElement (i == 0) s = .ok (.entry (textBefore spacing level g.doc tail))) :
    positional expected depth (g.field :: fields) i x s =
      (do positional expected depth fields (i + 1) ((← g.change) x) tail) := by
  rw [positional, hnext, ok_bind]
  dsimp only
  rw [g.makes hdepth hends (skipBlanks_textBefore ..)]
  cases g.change <;> rfl

/-- Further elements are read one after another, up to the first fault. -/
theorem positional_items {expected : Expected} {spacing : Spacing} {level outer depth : Nat}
    {rest : List Char} :
    ∀ {gs : List (Given α)} {x : α} {i : Nat}, nestingOf (bareDocs gs) ≤ depth →
      positional expected depth (gs.map (·.field)) (i + 1) x
          (itemsBefore spacing level (bareDocs gs) (spacing.line outer ++ ']' :: rest)) =
        (applyAll (gs.map (·.change)) x).map (·, rest)
  | [], x, i, hdepth => by
    have hclose : skipBlanks (spacing.line outer ++ ']' :: rest) = ']' :: rest :=
      skipBlanks_append (spacing.isBlank_line outer) _
    show positional expected depth [] (i + 1) x (itemsBefore spacing level [] _) = _
    rw [itemsBefore, positional, closeList, hclose]
    rfl
  | g :: gs, x, i, hdepth => by
    rw [bareDocs_cons, nestingOf, Nat.max_le] at hdepth
    rw [bareDocs_cons, itemsBefore, List.map_cons, List.map_cons]
    refine (positional_cons (i + 1) hdepth.1 (ends_itemsBefore _ _ _ _ _)
      (nextElement_false_textBefore ..)).trans ?_
    cases g.change with
    | error fault => rfl
    | ok change => exact positional_items hdepth.2

/-- **A record with its fields in order** is made as one with its fields named. -/
theorem opening_positional {expected : Expected} (gs : List (Given α)) {x : α} {spacing : Spacing}
    {level depth : Nat} {rest t : List Char}
    (hdepth : (Document.list (bareDocs gs)).nesting ≤ depth)
    (ht : textBefore spacing level (.list (bareDocs gs)) rest = '[' :: t) :
    opening depth (fun d => positional expected d (gs.map (·.field)) 0 x) t =
      (applyAll (gs.map (·.change)) x).map (·, rest) := by
  rw [Document.nesting] at hdepth
  cases depth with
  | zero => exact absurd hdepth (Nat.not_succ_le_zero _)
  | succ depth =>
    have hdepth := Nat.le_of_succ_le_succ hdepth
    cases gs with
    | nil =>
      rw [bareDocs, List.map_nil, textBefore] at ht
      rw [← (List.cons.inj ht).2]
      rfl
    | cons g gs =>
      rw [bareDocs_cons, nestingOf, Nat.max_le] at hdepth
      rw [bareDocs_cons, textBefore] at ht
      rw [← (List.cons.inj ht).2, opening, List.map_cons, List.map_cons]
      refine (positional_cons 0 hdepth.1 (ends_itemsBefore _ _ _ _ _)
        (nextElement_true_textBefore ..)).trans ?_
      cases g.change with
      | error fault => rfl
      | ok change => exact positional_items hdepth.2

end Fields

end Linework.Json
