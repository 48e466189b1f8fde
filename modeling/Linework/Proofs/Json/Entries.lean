import Linework.Proofs.Json.Numeral
import Linework.Proofs.Json.Skim

/-!
# The entries of a container, as a text

`elements` and `members` are loops, and their rounds are bounded by the text they
started with. What they accept can be said without rounds: entries one after
another, each behind blanks and, from the second one on, a comma, and then the
closing bracket. `Elements` and `Members` say it, and a loop whose items are read
from their fronts (`Local`) accepts that and nothing else (`listOf_eq_ok_iff`,
`objectOf_eq_ok_iff`).

The gain is that these descriptions are about pieces of text put together, so one
piece can be exchanged for another. Nothing that follows about containers has to
count rounds again.
-/

namespace Linework.Json

/-! ## Blanks and commas -/

/-- A text of blanks. -/
def Blanks (s : List Char) : Prop := ∀ c ∈ s, isBlank c = true

theorem blanks_nil : Blanks [] := by
  intro c hc
  cases hc

theorem Blanks.append {s t : List Char} (hs : Blanks s) (ht : Blanks t) : Blanks (s ++ t) := by
  intro c hc
  rcases List.mem_append.1 hc with hc | hc
  · exact hs c hc
  · exact ht c hc

/-- Every text is some blanks and what is left without them. -/
theorem exists_blanks_append (s : List Char) : ∃ bs, Blanks bs ∧ s = bs ++ skipBlanks s :=
  ⟨s.takeWhile isBlank, fun _ => List.mem_takeWhile_imp, List.takeWhile_append_dropWhile.symm⟩

theorem skipBlanks_eq_cons_iff {s t : List Char} {c : Char} (hc : isBlank c = false) :
    skipBlanks s = c :: t ↔ ∃ bs, Blanks bs ∧ s = bs ++ c :: t := by
  constructor
  · intro h
    obtain ⟨bs, hbs, hs⟩ := exists_blanks_append s
    exact ⟨bs, hbs, by rw [← h]; exact hs⟩
  · rintro ⟨bs, hbs, rfl⟩
    rw [skipBlanks_append hbs, skipBlanks_cons hc]

theorem skipBlanks_blanks_append {bs : List Char} (hbs : Blanks bs) {c : Char}
    (hc : isBlank c = false) (t : List Char) : skipBlanks (bs ++ c :: t) = c :: t :=
  (skipBlanks_eq_cons_iff hc).2 ⟨bs, hbs, rfl⟩

theorem skipBlanks_eq_nil_iff {s : List Char} : skipBlanks s = [] ↔ Blanks s :=
  List.dropWhile_eq_nil_iff

/-- What stands before an entry: blanks, and a comma among them unless the entry is
the first. -/
def Lead : Bool → List Char → Prop
  | true, lead => Blanks lead
  | false, lead => ∃ bs bs', Blanks bs ∧ Blanks bs' ∧ lead = bs ++ ',' :: bs'

theorem Lead.append {first : Bool} {lead bs : List Char} (h : Lead first lead) (hbs : Blanks bs) :
    Lead first (lead ++ bs) := by
  cases first with
  | true => exact Blanks.append h hbs
  | false =>
    obtain ⟨bs₁, bs₂, h₁, h₂, rfl⟩ := h
    exact ⟨bs₁, bs₂ ++ bs, h₁, h₂.append hbs, List.append_assoc ..⟩

theorem Lead.blanks_append {lead bs : List Char} (h : Lead false lead) (hbs : Blanks bs) :
    Lead false (bs ++ lead) := by
  obtain ⟨bs₁, bs₂, h₁, h₂, rfl⟩ := h
  exact ⟨bs ++ bs₁, bs₂, hbs.append h₁, h₂, (List.append_assoc ..).symm⟩

theorem Lead.ends {lead : List Char} (h : Lead false lead) (s : List Char) : Ends (lead ++ s) := by
  obtain ⟨bs, bs', hbs, -, rfl⟩ := h
  rw [List.append_assoc]
  exact Ends.blanks hbs (ends_cons rfl _)

/-- A text that an element may begin with. -/
def Opens (s : List Char) : Prop := ∃ c t, s = c :: t ∧ isBlank c = false ∧ c ≠ ']'

theorem nextElement_eq_entry_iff {first : Bool} {s t : List Char} :
    nextElement first s = .ok (.entry t) ↔
      ∃ lead, Lead first lead ∧ Opens t ∧ s = lead ++ t := by
  cases first with
  | true =>
    constructor
    · intro h
      obtain ⟨hs, c, rest, rfl, hc⟩ := nextElement_true_eq_entry h
      have hblank := isBlank_of_skipBlanks hs
      obtain ⟨bs, hbs, rfl⟩ := (skipBlanks_eq_cons_iff hblank).1 hs
      exact ⟨bs, hbs, ⟨c, rest, rfl, hblank, hc⟩, rfl⟩
    · rintro ⟨bs, hbs, ⟨c, rest, rfl, hblank, hc⟩, rfl⟩
      exact nextElement_true_of_entry (skipBlanks_blanks_append hbs hblank rest) hc
  | false =>
    constructor
    · intro h
      obtain ⟨s', hs, ht, c, rest, rfl, hc⟩ := nextElement_false_eq_entry h
      have hblank := isBlank_of_skipBlanks ht
      obtain ⟨bs, hbs, rfl⟩ := (skipBlanks_eq_cons_iff rfl).1 hs
      obtain ⟨bs', hbs', rfl⟩ := (skipBlanks_eq_cons_iff hblank).1 ht
      exact ⟨bs ++ ',' :: bs', ⟨bs, bs', hbs, hbs', rfl⟩, ⟨c, rest, rfl, hblank, hc⟩, by simp⟩
    · rintro ⟨lead, ⟨bs, bs', hbs, hbs', rfl⟩, ⟨c, rest, rfl, hblank, hc⟩, rfl⟩
      rw [List.append_assoc]
      exact nextElement_false_of_entry (skipBlanks_blanks_append hbs rfl _)
        (skipBlanks_blanks_append hbs' hblank rest) hc

theorem nextMember_eq_entry_iff {first : Bool} {s t : List Char} :
    nextMember first s = .ok (.entry t) ↔ ∃ lead, Lead first lead ∧ s = lead ++ '"' :: t := by
  cases first with
  | true =>
    constructor
    · intro h
      exact (skipBlanks_eq_cons_iff rfl).1 (nextMember_true_eq_entry h)
    · intro h
      exact nextMember_true_of_entry ((skipBlanks_eq_cons_iff rfl).2 h)
  | false =>
    constructor
    · intro h
      obtain ⟨s', hs, ht⟩ := nextMember_false_eq_entry h
      obtain ⟨bs, hbs, rfl⟩ := (skipBlanks_eq_cons_iff rfl).1 hs
      obtain ⟨bs', hbs', rfl⟩ := (skipBlanks_eq_cons_iff rfl).1 ht
      exact ⟨bs ++ ',' :: bs', ⟨bs, bs', hbs, hbs', rfl⟩, by simp⟩
    · rintro ⟨lead, ⟨bs, bs', hbs, hbs', rfl⟩, rfl⟩
      rw [List.append_assoc]
      exact nextMember_false_of_entry (skipBlanks_blanks_append hbs rfl _)
        (skipBlanks_blanks_append hbs' rfl t)

theorem colon_eq_ok_iff {s t : List Char} :
    colon s = .ok t ↔ ∃ bs, Blanks bs ∧ s = bs ++ ':' :: t := by
  rw [← skipBlanks_eq_cons_iff rfl]
  constructor
  · exact colon_eq_ok
  · intro h
    rw [colon, h]
    rfl

/-! ## Readers of items -/

/-- **A reader that reads from the front**: what it takes does not depend on what
comes next, and it takes something. -/
structure Local {α : Type} (item : Reader α) : Prop where
  /-- What it takes is read alike wherever it stands. -/
  front {s rest : List Char} {x : α} : item s = .ok (x, rest) → ReadsFront item s x rest
  /-- There is nothing to be taken from an empty text. -/
  nil (x : α) (rest : List Char) : item [] ≠ .ok (x, rest)

/-- The front that a local reader takes, which is not empty. -/
theorem Local.exists_front {α : Type} {item : Reader α} (h : Local item) {s rest : List Char}
    {x : α} (hs : item s = .ok (x, rest)) :
    ∃ c front, s = c :: (front ++ rest) ∧
      ∀ more, Ends more → item (c :: (front ++ more)) = .ok (x, more) := by
  obtain ⟨front, rfl, hmore⟩ := h.front hs
  cases front with
  | nil => exact absurd (hmore [] ends_nil) (h.nil x [])
  | cons c front => exact ⟨c, front, rfl, hmore⟩

theorem Local.length_lt {α : Type} {item : Reader α} (h : Local item) {s rest : List Char}
    {x : α} (hs : item s = .ok (x, rest)) : rest.length < s.length := by
  obtain ⟨c, front, rfl, -⟩ := h.exists_front hs
  rw [List.length_cons, List.length_append]
  omega

/-- A whole text is read exactly if nothing but blanks is left. -/
theorem document_eq_ok_iff {α : Type} {read : Nat → Reader α} {s : List Char} {x : α} :
    document read s = .ok x ↔ ∃ rest, read deepest s = .ok (x, rest) ∧ Blanks rest := by
  rw [document, bind_eq_ok_iff]
  constructor
  · rintro ⟨⟨y, rest⟩, hread, h⟩
    dsimp only at h
    split at h
    · next hrest =>
      cases h
      exact ⟨rest, hread, skipBlanks_eq_nil_iff.1 (List.isEmpty_iff.1 hrest)⟩
    · cases h
  · rintro ⟨rest, hread, hrest⟩
    exact ⟨(x, rest), hread, if_pos (List.isEmpty_iff.2 (skipBlanks_eq_nil_iff.2 hrest))⟩

/-! ## Lists -/

/-- **The elements of a list**, from a text on that begins with the list's first
element or behind an element, to the closing bracket and what is left. -/
inductive Elements {α : Type} (item : Reader α) : Bool → List Char → List α → List Char → Prop where
  /-- No element is left. -/
  | closes {first : Bool} {bs rest : List Char} :
    Blanks bs → Elements item first (bs ++ ']' :: rest) [] rest
  /-- Another element, and those behind it. -/
  | entry {first : Bool} {lead s t rest : List Char} {x : α} {xs : List α} :
    Lead first lead → Opens s → item s = .ok (x, t) → Elements item false t xs rest →
    Elements item first (lead ++ s) (x :: xs) rest

section Lists

variable {α : Type} {item : Reader α} {first : Bool} {s rest : List Char} {xs : List α}

/-- A loop over elements accepts a text of elements, if it has more rounds than
elements. -/
theorem elements_eq_ok_iff {rounds : List Char} :
    elements item rounds first s = .ok (xs, rest) ↔
      Elements item first s xs rest ∧ xs.length < rounds.length := by
  induction rounds generalizing first s xs with
  | nil => simp [elements]
  | cons c rounds ih =>
    rw [elements, bind_eq_ok_iff]
    constructor
    · rintro ⟨next, hnext, h⟩
      cases next with
      | closes r =>
        obtain ⟨tail, hs, rfl⟩ := nextElement_eq_closes hnext
        cases h
        obtain ⟨bs, hbs, rfl⟩ := (skipBlanks_eq_cons_iff rfl).1 hs
        exact ⟨.closes hbs, Nat.zero_lt_succ _⟩
      | entry r =>
        obtain ⟨lead, hlead, hopens, rfl⟩ := nextElement_eq_entry_iff.1 hnext
        obtain ⟨⟨x, t⟩, hx, h⟩ := bind_eq_ok_iff.1 h
        obtain ⟨⟨xs', rest'⟩, hxs, h⟩ := bind_eq_ok_iff.1 h
        cases h
        obtain ⟨hxs, hlength⟩ := ih.1 hxs
        exact ⟨.entry hlead hopens hx hxs, Nat.succ_lt_succ hlength⟩
    · rintro ⟨h, hlength⟩
      cases h with
      | closes hbs =>
        exact ⟨_, nextElement_of_closes (skipBlanks_blanks_append hbs rfl _) first, rfl⟩
      | entry hlead hopens hx hxs =>
        refine ⟨_, nextElement_eq_entry_iff.2 ⟨_, hlead, hopens, rfl⟩, ?_⟩
        exact bind_eq_ok_iff.2 ⟨_, hx,
          bind_eq_ok_iff.2 ⟨_, ih.2 ⟨hxs, Nat.lt_of_succ_lt_succ hlength⟩, rfl⟩⟩

/-- Behind an element stands nothing that would continue a numeral. -/
theorem Elements.ends (h : Elements item false s xs rest) : Ends s := by
  cases h with
  | closes hbs => exact Ends.blanks hbs (ends_cons rfl _)
  | entry hlead => exact hlead.ends _

/-- Blanks make no difference behind an element. -/
theorem Elements.blanks_append (h : Elements item false s xs rest) {bs : List Char}
    (hbs : Blanks bs) : Elements item false (bs ++ s) xs rest := by
  cases h with
  | closes hbs' =>
    rw [← List.append_assoc]
    exact .closes (hbs.append hbs')
  | entry hlead hopens hx hxs =>
    rw [← List.append_assoc]
    exact .entry (hlead.blanks_append hbs) hopens hx hxs

theorem Elements.length_lt (hitem : Local item) (h : Elements item first s xs rest) :
    xs.length < s.length := by
  induction h with
  | closes => simp only [List.length_append, List.length_cons, List.length_nil]; omega
  | entry _ _ hx _ ih =>
    have hlt := hitem.length_lt hx
    rw [List.length_append, List.length_cons]
    omega

/-- **A list is read** exactly if its text is one of elements. -/
theorem listOf_eq_ok_iff (hitem : Local item) :
    listOf item s = .ok (xs, rest) ↔ Elements item true s xs rest := by
  rw [listOf, elements_eq_ok_iff]
  exact ⟨fun h => h.1, fun h => ⟨h, h.length_lt hitem⟩⟩

/-- Every element is read from somewhere in the text. -/
theorem Elements.exists_of_mem (h : Elements item first s xs rest) {x : α} (hx : x ∈ xs) :
    ∃ t u, item t = .ok (x, u) := by
  induction h with
  | closes => cases hx
  | entry _ _ hitem _ ih =>
    rcases List.mem_cons.1 hx with rfl | hx
    · exact ⟨_, _, hitem⟩
    · exact ih hx

/-- The elements of a list may be read by another reader that reads them alike. -/
theorem Elements.imp {item' : Reader α} (h : Elements item first s xs rest)
    (himp : ∀ x ∈ xs, ∀ {t u : List Char}, item t = .ok (x, u) → item' t = .ok (x, u)) :
    Elements item' first s xs rest := by
  induction h with
  | closes hbs => exact .closes hbs
  | entry hlead hopens hitem _ ih =>
    refine .entry hlead hopens (himp _ List.mem_cons_self hitem) (ih fun x hx => ?_)
    exact himp x (List.mem_cons_of_mem _ hx)

/-- The elements of a list are read alike, whatever comes behind the list. -/
theorem Elements.exists_front (hitem : Local item) (h : Elements item first s xs rest) :
    ∃ front, s = front ++ rest ∧ ∀ more, Elements item first (front ++ more) xs more := by
  induction h with
  | @closes first bs rest hbs =>
    refine ⟨bs ++ [']'], by simp, fun more => ?_⟩
    rw [List.append_assoc]
    exact .closes hbs
  | @entry first lead s t rest x xs hlead hopens hx _ ih =>
    obtain ⟨c, front, rfl, hfront⟩ := hitem.exists_front hx
    obtain ⟨front', rfl, hfront'⟩ := ih
    refine ⟨lead ++ c :: (front ++ front'), by simp, fun more => ?_⟩
    obtain ⟨c', _, heq, hblank, hc⟩ := hopens
    obtain ⟨rfl, -⟩ := List.cons.inj heq
    rw [List.append_assoc, List.cons_append, List.append_assoc]
    exact .entry hlead ⟨c, _, rfl, hblank, hc⟩ (hfront _ (hfront' more).ends) (hfront' more)

end Lists

/-! ## Objects -/

/-- **The members of an object**, each with what its value is read as, from a text
on that begins with the object's first member or behind a member, to the closing
brace and what is left. -/
inductive Members {α : Type} (item : String → Reader α) :
    Bool → List Char → List (String × α) → List Char → Prop where
  /-- No member is left. -/
  | closes {first : Bool} {bs rest : List Char} :
    Blanks bs → Members item first (bs ++ '}' :: rest) [] rest
  /-- Another member, and those behind it. -/
  | entry {first : Bool} {lead name bs s t rest : List Char} {key : String} {x : α}
      {ms : List (String × α)} :
    Lead first lead → stringText name = .ok (key, bs ++ ':' :: s) → Blanks bs →
    item key s = .ok (x, t) → Members item false t ms rest →
    Members item first (lead ++ '"' :: name) ((key, x) :: ms) rest

section Objects

variable {α σ : Type} {item : String → Reader α} {first : Bool} {s rest : List Char}
  {ms : List (String × α)}

/-- A loop over members accepts a text of members, if it has more rounds than there
are members and they lead from one state to the other. -/
theorem members_eq_ok_iff {member : String → σ → Reader σ} {step : String → α → σ → Option σ}
    (hmember : ∀ (key : String) (state state' : σ) (s rest : List Char),
      member key state s = .ok (state', rest) ↔ ∃ t x, colon s = .ok t ∧
        item key t = .ok (x, rest) ∧ step key x state = some state')
    {rounds : List Char} {state state' : σ} :
    members stringText member rounds first state s = .ok (state', rest) ↔
      ∃ ms, Members item first s ms rest ∧ ms.length < rounds.length ∧
        ms.foldlM (fun state m => step m.1 m.2 state) state = some state' := by
  induction rounds generalizing first s state with
  | nil => simp [members]
  | cons c rounds ih =>
    rw [members, bind_eq_ok_iff]
    constructor
    · rintro ⟨next, hnext, h⟩
      cases next with
      | closes r =>
        obtain ⟨tail, hs, rfl⟩ := nextMember_eq_closes hnext
        cases h
        obtain ⟨bs, hbs, rfl⟩ := (skipBlanks_eq_cons_iff rfl).1 hs
        exact ⟨[], .closes hbs, Nat.zero_lt_succ _, rfl⟩
      | entry r =>
        obtain ⟨lead, hlead, rfl⟩ := nextMember_eq_entry_iff.1 hnext
        obtain ⟨⟨key, t⟩, hkey, h⟩ := bind_eq_ok_iff.1 h
        obtain ⟨⟨state₁, t'⟩, hstate, h⟩ := bind_eq_ok_iff.1 h
        obtain ⟨ms, hms, hlength, hfold⟩ := ih.1 h
        obtain ⟨u, x, hu, hx, hstep⟩ := (hmember ..).1 hstate
        obtain ⟨bs, hbs, rfl⟩ := colon_eq_ok_iff.1 hu
        refine ⟨(key, x) :: ms, .entry hlead hkey hbs hx hms, Nat.succ_lt_succ hlength, ?_⟩
        rw [List.foldlM_cons, hstep]
        exact hfold
    · rintro ⟨ms, hms, hlength, hfold⟩
      cases hms with
      | closes hbs =>
        cases hfold
        exact ⟨_, nextMember_of_closes (skipBlanks_blanks_append hbs rfl _) first, rfl⟩
      | entry hlead hkey hbs hx hms =>
        rw [List.foldlM_cons] at hfold
        obtain ⟨state₁, hstep, hfold⟩ := Option.bind_eq_some_iff.1 hfold
        refine ⟨_, nextMember_eq_entry_iff.2 ⟨_, hlead, rfl⟩, bind_eq_ok_iff.2 ⟨_, hkey, ?_⟩⟩
        refine bind_eq_ok_iff.2 ⟨_, (hmember ..).2 ⟨_, _, ?_, hx, hstep⟩, ?_⟩
        · exact colon_eq_ok_iff.2 ⟨_, hbs, rfl⟩
        · exact ih.2 ⟨_, hms, Nat.lt_of_succ_lt_succ hlength, hfold⟩

/-- Behind a member stands nothing that would continue a numeral. -/
theorem Members.ends (h : Members item false s ms rest) : Ends s := by
  cases h with
  | closes hbs => exact Ends.blanks hbs (ends_cons rfl _)
  | entry hlead => exact hlead.ends _

/-- The value of every member is read from somewhere in the text. -/
theorem Members.exists_of_mem (h : Members item first s ms rest) {m : String × α} (hm : m ∈ ms) :
    ∃ t u, item m.1 t = .ok (m.2, u) := by
  induction h with
  | closes => cases hm
  | entry _ _ _ hitem _ ih =>
    rcases List.mem_cons.1 hm with rfl | hm
    · exact ⟨_, _, hitem⟩
    · exact ih hm

/-- The members of an object may be read by other readers that read them alike. -/
theorem Members.imp {item' : String → Reader α} (h : Members item first s ms rest)
    (himp : ∀ m ∈ ms, ∀ {t u : List Char},
      item m.1 t = .ok (m.2, u) → item' m.1 t = .ok (m.2, u)) :
    Members item' first s ms rest := by
  induction h with
  | closes hbs => exact .closes hbs
  | entry hlead hkey hbs hitem _ ih =>
    refine .entry hlead hkey hbs (himp _ List.mem_cons_self hitem) (ih fun m hm => ?_)
    exact himp m (List.mem_cons_of_mem _ hm)

theorem Members.length_lt (hitem : ∀ key, Local (item key)) (h : Members item first s ms rest) :
    ms.length < s.length := by
  induction h with
  | closes => simp only [List.length_append, List.length_cons, List.length_nil]; omega
  | @entry first lead name bs s t rest key x ms _ hkey _ hx _ ih =>
    have hlt := (hitem key).length_lt hx
    have hname := (skimText_of_stringText hkey).2
    simp only [List.length_append, List.length_cons] at hname ⊢
    omega

end Objects

end Linework.Json
