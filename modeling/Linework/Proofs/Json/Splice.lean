import Linework.Proofs.Json.Local

/-!
# One text in place of another

An element of a list, or the last member of a name in an object, begins somewhere
in the text of its container. `element?` and `member?` find the place, by passing
over what stands before it. What is written there can be exchanged: the container
is then read as before, with another value in one place (`Elements.exists_splice`,
`Members.exists_splice`). Since values are read from the front, nothing before the
place is read differently, and nothing behind it is touched.

`Splices` says of two readers, one for the container and one for what stands inside
of it, that such an exchange is possible. Such places can be looked for inside one
another, so it composes.
-/

namespace Linework.Json

/-! ## Places -/

/-- **A place for another text.** From `e` on, the text `s` may be exchanged for
anything that the inner reader takes to the same end, but for blanks. The outer
reader then makes of it what `put` says. -/
def Splices {α β : Type} (outer : Reader β) (put : α → β) (inner : Reader α)
    (s rest e tail : List Char) : Prop :=
  ∃ front, s = front ++ e ∧ ∀ (e' bs : List Char) (x : α), Blanks bs →
    inner e' = .ok (x, bs ++ tail) →
      ∃ bs', Blanks bs' ∧ outer (front ++ e') = .ok (put x, bs' ++ rest)

namespace Splices

/-- The whole text is a place. -/
theorem refl {α : Type} (read : Reader α) (s rest : List Char) :
    Splices read id read s rest s rest :=
  ⟨[], rfl, fun _ bs _ hbs hread => ⟨bs, hbs, hread⟩⟩

/-- A place inside a place. -/
theorem trans {α β γ : Type} {outer : Reader γ} {middle : Reader β} {inner : Reader α}
    {put : β → γ} {put' : α → β} {s rest m between e tail : List Char}
    (h : Splices outer put middle s rest m between)
    (h' : Splices middle put' inner m between e tail) :
    Splices outer (put ∘ put') inner s rest e tail := by
  obtain ⟨front, rfl, hfront⟩ := h
  obtain ⟨front', rfl, hfront'⟩ := h'
  refine ⟨front ++ front', (List.append_assoc ..).symm, fun e' bs x hbs hread => ?_⟩
  obtain ⟨bs', hbs', hmiddle⟩ := hfront' e' bs x hbs hread
  rw [List.append_assoc]
  exact hfront _ bs' _ hbs' hmiddle

end Splices

/-! ## Looking for a place -/

/-- Where the next entry begins, if there is one. -/
def entry? : Except Fault Next → Option (List Char)
  | .ok (.entry s) => some s
  | _ => none

/-- The text from an element on, counted from here, in the text of a list. -/
def elementFrom? : Nat → Bool → List Char → Option (List Char)
  | 0, first, s => entry? (nextElement first s)
  | i + 1, first, s => do
    let s ← entry? (nextElement first s)
    elementFrom? i false (← (skim s).toOption)

/-- **The text from an element on** in the text of a list. -/
def element? (i : Nat) (s : List Char) : Option (List Char) :=
  match skipBlanks s with
  | '[' :: s => elementFrom? i true s
  | _ => none

/-- The text from the last value of a name on, in the text of an object, with as
many rounds at most as `members` has. -/
def memberFrom? (name : String) : List Char → Bool → List Char → Option (List Char)
  | [], _, _ => none
  | _ :: rounds, first, s => do
    let (key, s) ← (stringText (← entry? (nextMember first s))).toOption
    let s ← (colon s).toOption
    let rest ← (skim s).toOption
    (memberFrom? name rounds false rest).or (if key = name then some s else none)

/-- **The text from the last value of a name on** in the text of an object. -/
def member? (name : String) (s : List Char) : Option (List Char) :=
  match skipBlanks s with
  | '{' :: s => memberFrom? name s true s
  | _ => none

theorem entry?_eq_some_iff {next : Except Fault Next} {s : List Char} :
    entry? next = some s ↔ next = .ok (.entry s) := by
  unfold entry?
  split
  · simp
  · next hne =>
    constructor
    · nofun
    · intro h
      exact absurd h (hne s)

/-! ## Elements -/

section Elements

variable {α : Type} {item : Reader α} {d : Nat} {R : Json → α → Prop}
  (hitem : ∀ {s rest : List Char} {x : α},
    item s = .ok (x, rest) ↔ ∃ v, value d s = .ok (v, rest) ∧ R v x)

include hitem

/-- What is read through a value is read from the front. -/
theorem local_of_value_iff : Local item where
  nil x rest h := by
    obtain ⟨v, hv, -⟩ := hitem.1 h
    exact (local_value d).nil v rest hv
  front {s rest x} h := by
    obtain ⟨v, hv, hx⟩ := hitem.1 h
    obtain ⟨front, hs, hmore⟩ := (local_value d).front hv
    exact ⟨front, hs, fun more hends => hitem.2 ⟨v, hmore more hends, hx⟩⟩

theorem skim_of_value_iff {s rest : List Char} {x : α} (h : item s = .ok (x, rest)) :
    skim s = .ok rest := by
  obtain ⟨v, hv, -⟩ := hitem.1 h
  exact skim_of_value hv

/-- What is read through a value begins, after any blanks, as an element may. -/
theorem exists_opens_of_value_iff {s rest : List Char} {x : α} (h : item s = .ok (x, rest)) :
    ∃ bs t, Blanks bs ∧ Opens t ∧ s = bs ++ t ∧ item t = .ok (x, rest) := by
  obtain ⟨v, hv, hx⟩ := hitem.1 h
  obtain ⟨bs, t, hbs, ht, rfl⟩ := exists_opens_of_value hv
  rw [value_blanks_append hbs] at hv
  exact ⟨bs, t, hbs, ht, rfl, hitem.2 ⟨v, hv, hx⟩⟩

/-- **An element may be exchanged.** -/
theorem Elements.exists_splice {first : Bool} {s rest : List Char} {xs : List α} {i : Nat} {x : α}
    (h : Elements item first s xs rest) (hi : xs[i]? = some x) :
    ∃ front e tail, elementFrom? i first s = some e ∧ item e = .ok (x, tail) ∧ Ends tail ∧
      s = front ++ e ∧ ∀ (e' bs : List Char) (x' : α), Blanks bs →
        item e' = .ok (x', bs ++ tail) →
          Elements item first (front ++ e') (xs.set i x') rest := by
  induction i generalizing first s xs with
  | zero =>
    cases h with
    | closes => cases hi
    | @entry _ lead e tail _ _ xs hlead hopens hx hxs =>
      cases hi
      refine ⟨lead, e, tail, ?_, hx, hxs.ends, rfl, fun e' bs x' hbs he' => ?_⟩
      · exact entry?_eq_some_iff.2 (nextElement_eq_entry_iff.2 ⟨lead, hlead, hopens, rfl⟩)
      · obtain ⟨bs', t, hbs', hopens', rfl, ht⟩ := exists_opens_of_value_iff hitem he'
        rw [← List.append_assoc]
        exact .entry (hlead.append hbs') hopens' ht (hxs.blanks_append hbs)
  | succ i ih =>
    cases h with
    | closes => cases hi
    | @entry _ lead u t _ y xs hlead hopens hy hxs =>
      obtain ⟨front, e, tail, he, hx, hends, rfl, hsplice⟩ := ih hxs hi
      obtain ⟨c, front', rfl, hmore⟩ := (local_of_value_iff hitem).exists_front hy
      refine ⟨lead ++ c :: (front' ++ front), e, tail, ?_, hx, hends, by simp,
        fun e' bs x' hbs he' => ?_⟩
      · have hentry := entry?_eq_some_iff.2 (nextElement_eq_entry_iff.2 ⟨lead, hlead, hopens, rfl⟩)
        rw [elementFrom?, hentry, Option.bind_eq_bind, Option.bind_some,
          skim_of_value_iff hitem hy]
        exact he
      · -- the element in front is read from the front, so it does not see the exchange
        have hxs' := hsplice e' bs x' hbs he'
        obtain ⟨c', _, heq, hblank, hc⟩ := hopens
        obtain ⟨rfl, -⟩ := List.cons.inj heq
        rw [List.append_assoc, List.cons_append, List.append_assoc]
        exact .entry hlead ⟨c, _, rfl, hblank, hc⟩ (hmore _ hxs'.ends) hxs'

end Elements

/-! ## Members -/

section Members

variable {α : Type} {item : String → Reader α} (hitem : ∀ key, Local (item key))
  (hskim : ∀ {key : String} {s rest : List Char} {x : α},
    item key s = .ok (x, rest) → skim s = .ok rest)

/-- Blanks make no difference behind a member. -/
theorem Members.blanks_append {s rest bs : List Char} {ms : List (String × α)}
    (h : Members item false s ms rest) (hbs : Blanks bs) :
    Members item false (bs ++ s) ms rest := by
  cases h with
  | closes hbs' =>
    rw [← List.append_assoc]
    exact .closes (hbs.append hbs')
  | entry hlead hkey hbs' hx hms =>
    rw [← List.append_assoc]
    exact .entry (hlead.blanks_append hbs) hkey hbs' hx hms

include hskim

/-- One round of looking for a name. -/
theorem memberFrom?_entry {first : Bool} {lead text bs s t : List Char} {key : String} {x : α}
    (hlead : Lead first lead) (hkey : stringText text = .ok (key, bs ++ ':' :: s))
    (hbs : Blanks bs) (hx : item key s = .ok (x, t)) (name : String) (c : Char)
    (rounds : List Char) :
    memberFrom? name (c :: rounds) first (lead ++ '"' :: text) =
      (memberFrom? name rounds false t).or (if key = name then some s else none) := by
  have hentry : entry? (nextMember first (lead ++ '"' :: text)) = some text :=
    entry?_eq_some_iff.2 (nextMember_eq_entry_iff.2 ⟨lead, hlead, rfl⟩)
  have hcolon : colon (bs ++ ':' :: s) = .ok s := colon_eq_ok_iff.2 ⟨bs, hbs, rfl⟩
  simp only [memberFrom?, hentry, toOption_eq_some_iff.2 hkey, toOption_eq_some_iff.2 hcolon,
    toOption_eq_some_iff.2 (hskim hx), Option.bind_eq_bind, Option.bind_some]

/-- A name that is not there is not found. -/
theorem Members.memberFrom?_eq_none {name : String} {first : Bool} {s rest : List Char}
    {ms : List (String × α)} (h : Members item first s ms rest) (hname : ∀ m ∈ ms, m.1 ≠ name)
    (rounds : List Char) : memberFrom? name rounds first s = none := by
  induction h generalizing rounds with
  | @closes first bs rest hbs =>
    cases rounds with
    | nil => rfl
    | cons c rounds =>
      rw [memberFrom?, nextMember_of_closes (skipBlanks_blanks_append hbs rfl rest)]
      rfl
  | entry hlead hkey hbs hx _ ih =>
    cases rounds with
    | nil => rfl
    | cons c rounds =>
      rw [memberFrom?_entry hskim hlead hkey hbs hx, if_neg (hname _ List.mem_cons_self),
        ih fun m hm => hname m (List.mem_cons_of_mem _ hm)]
      rfl

include hitem

/-- **The last member of a name may be exchanged.** -/
theorem Members.exists_splice {name : String} {before after : List (String × α)} {x : α}
    {first : Bool} {s rest rounds : List Char}
    (h : Members item first s (before ++ (name, x) :: after) rest)
    (hafter : ∀ m ∈ after, m.1 ≠ name)
    (hrounds : (before ++ (name, x) :: after).length < rounds.length) :
    ∃ front e tail, memberFrom? name rounds first s = some e ∧ item name e = .ok (x, tail) ∧
      s = front ++ e ∧ ∀ (e' bs : List Char) (x' : α), Blanks bs →
        item name e' = .ok (x', bs ++ tail) →
          Members item first (front ++ e') (before ++ (name, x') :: after) rest := by
  obtain ⟨c, rounds, rfl⟩ := List.exists_cons_of_length_pos (Nat.zero_lt_of_lt hrounds)
  induction before generalizing first s c rounds with
  | nil =>
    cases h with
    | @entry _ lead text bs e tail _ _ _ _ hlead hkey hbs hx hms =>
      obtain ⟨named, rfl, hnamed⟩ := exists_front_of_stringText hkey
      refine ⟨lead ++ '"' :: (named ++ (bs ++ [':'])), e, tail, ?_, hx, by simp, ?_⟩
      · rw [memberFrom?_entry hskim hlead hkey hbs hx, hms.memberFrom?_eq_none hskim hafter,
          if_pos rfl]
        rfl
      · intro e' bs' x' hbs' he'
        have hmembers : Members item first (lead ++ '"' :: (named ++ (bs ++ ':' :: e'))) _ rest :=
          .entry hlead (hnamed _) hbs he' (hms.blanks_append hbs')
        simpa using hmembers
  | cons m before ih =>
    cases h with
    | @entry _ lead text bs u t _ key y _ hlead hkey hbs hy hms =>
      rw [List.cons_append, List.length_cons, List.length_cons, Nat.add_lt_add_iff_right] at hrounds
      obtain ⟨c', rounds, rfl⟩ := List.exists_cons_of_length_pos (Nat.zero_lt_of_lt hrounds)
      obtain ⟨front, e, tail, he, hx, rfl, hsplice⟩ := ih hms c' rounds hrounds
      obtain ⟨named, rfl, hnamed⟩ := exists_front_of_stringText hkey
      obtain ⟨c'', front', rfl, hmore⟩ := (hitem key).exists_front hy
      refine ⟨lead ++ '"' :: (named ++ (bs ++ ':' :: c'' :: (front' ++ front))), e, tail, ?_, hx,
        by simp, ?_⟩
      · rw [memberFrom?_entry hskim hlead hkey hbs hy, he]
        rfl
      · intro e' bs' x' hbs' he'
        have hms' := hsplice e' bs' x' hbs' he'
        have hmembers : Members item first
            (lead ++ '"' :: (named ++ (bs ++ ':' :: c'' :: (front' ++ (front ++ e'))))) _ rest :=
          .entry hlead (hnamed _) hbs (hmore _ hms'.ends) hms'
        simpa using hmembers

end Members

/-! ## The last member of a name -/

theorem last?_eq_none {name : String} {ms : List (String × Json)} (h : ∀ m ∈ ms, m.1 ≠ name) :
    last? name ms = none := by
  induction ms with
  | nil => rfl
  | cons m ms ih =>
    rw [last?, ih fun m hm => h m (List.mem_cons_of_mem _ hm), if_neg (h m List.mem_cons_self)]

/-- Where the last member of a name stands. -/
theorem exists_of_last? {name : String} {v : Json} {ms : List (String × Json)}
    (h : last? name ms = some v) :
    ∃ before after, ms = before ++ (name, v) :: after ∧ ∀ m ∈ after, m.1 ≠ name := by
  induction ms with
  | nil => cases h
  | cons m ms ih =>
    obtain ⟨key, w⟩ := m
    cases hms : last? name ms with
    | some u =>
      rw [last?, hms] at h
      obtain ⟨before, after, rfl, hafter⟩ := ih (hms.trans h)
      exact ⟨(key, w) :: before, after, rfl, hafter⟩
    | none =>
      rw [last?, hms] at h
      dsimp only at h
      split at h
      · next hkey =>
        cases h
        refine ⟨[], ms, by rw [hkey]; rfl, fun m hm hname => ?_⟩
        -- a member of that name further on would have been found
        obtain ⟨before, after, rfl⟩ := List.append_of_mem hm
        rw [last?_append, last?, hname] at hms
        cases hlast : last? name after with
        | some u => rw [hlast] at hms; cases hms
        | none => rw [hlast, if_pos rfl] at hms; cases hms
      · cases h

/-- The last member of a name, and what another name finds, if a member is
exchanged. -/
theorem last?_exchange {name : String} (before after : List (String × Json)) (v w : Json) :
    ((∀ m ∈ after, m.1 ≠ name) → last? name (before ++ (name, w) :: after) = some w) ∧
      ∀ other, other ≠ name → last? other (before ++ (name, w) :: after) =
        last? other (before ++ (name, v) :: after) := by
  constructor
  · intro hafter
    rw [last?_append, last?, last?_eq_none hafter, if_pos rfl]
    rfl
  · intro other hother
    rw [last?_append, last?_append, last?, last?, if_neg hother.symm, if_neg hother.symm]

end Linework.Json
