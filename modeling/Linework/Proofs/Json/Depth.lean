import Linework.Proofs.Json.Local

/-!
# How deep a value is

A reader is given how many containers may be opened, and that number has no other
part in what is read. So every value has a depth of its own, the number of its
containers that stand inside one another, and a text that is read with some number
is read alike with any other that is no less than the depth of its value, and with
none that is less (`value_eq_ok_iff_depth_le`).
-/

namespace Linework.Json

mutual

/-- How many containers of a value stand inside one another. -/
def depth : Json → Nat
  | .list items => depthOf items + 1
  | .object members => depthOfMembers members + 1
  | .null | .bool _ | .number _ | .text _ => 0

/-- The greatest depth of some values. -/
def depthOf : List Json → Nat
  | [] => 0
  | v :: vs => max v.depth (depthOf vs)

/-- The greatest depth of some members. -/
def depthOfMembers : List (String × Json) → Nat
  | [] => 0
  | (_, v) :: rest => max v.depth (depthOfMembers rest)

end

theorem depthOf_le_iff {items : List Json} {n : Nat} :
    depthOf items ≤ n ↔ ∀ v ∈ items, v.depth ≤ n := by
  induction items with
  | nil => simp [depthOf]
  | cons v vs ih => rw [depthOf, Nat.max_le, ih, List.forall_mem_cons]

theorem depthOfMembers_le_iff {members : List (String × Json)} {n : Nat} :
    depthOfMembers members ≤ n ↔ ∀ m ∈ members, m.2.depth ≤ n := by
  induction members with
  | nil => simp [depthOfMembers]
  | cons m rest ih => rw [depthOfMembers, Nat.max_le, ih, List.forall_mem_cons]

theorem depth_of_scalar {s rest : List Char} {v : Json} (h : scalar s = .ok (v, rest)) :
    v.depth = 0 := by
  obtain ⟨hlist, hobject⟩ := not_container_of_scalar h
  cases v with
  | list items => exact absurd rfl (hlist items)
  | object members => exact absurd rfl (hobject members)
  | null | bool _ | number _ | text _ => rfl

/-- A value is no deeper than the reader was told. -/
theorem depth_le_of_value {d : Nat} {s rest : List Char} {v : Json}
    (h : value d s = .ok (v, rest)) : v.depth ≤ d := by
  induction d generalizing s rest v with
  | zero =>
    rcases value_cases h with ⟨_, _, _, hd, _⟩ | ⟨_, _, _, hd, _⟩ | ⟨_, _, _, _, _, hscalar⟩
    · cases hd
    · cases hd
    · exact Nat.le_of_eq (depth_of_scalar hscalar)
  | succ d ih =>
    cases v with
    | list items =>
      obtain ⟨d', _, _, hd, -, -, hitems⟩ := value_eq_list_iff.1 h
      cases hd
      rw [depth, Nat.succ_le_succ_iff, depthOf_le_iff]
      intro v hv
      obtain ⟨t, u, ht⟩ := hitems.exists_of_mem hv
      exact ih ht
    | object members =>
      obtain ⟨d', _, _, hd, -, -, hmembers⟩ := value_eq_object_iff.1 h
      cases hd
      rw [depth, Nat.succ_le_succ_iff, depthOfMembers_le_iff]
      intro m hm
      obtain ⟨t, u, ht⟩ := hmembers.exists_of_mem hm
      exact ih ht
    | null | bool _ | number _ | text _ => exact Nat.zero_le _

/-- A value is read with any number of containers that is no less than its depth. -/
theorem value_of_depth_le {d d' : Nat} {s rest : List Char} {v : Json}
    (h : value d s = .ok (v, rest)) (hd' : v.depth ≤ d') : value d' s = .ok (v, rest) := by
  induction d using Nat.strong_induction_on generalizing d' s rest v with
  | _ d ih =>
    cases v with
    | list items =>
      obtain ⟨e, bs, s', rfl, hbs, rfl, hitems⟩ := value_eq_list_iff.1 h
      cases d' with
      | zero => exact absurd hd' (Nat.not_succ_le_zero _)
      | succ e' =>
        rw [depth, Nat.succ_le_succ_iff, depthOf_le_iff] at hd'
        refine value_eq_list_iff.2 ⟨e', bs, s', rfl, hbs, rfl, hitems.imp fun v hv _ _ ht => ?_⟩
        exact ih e (Nat.lt_succ_self _) ht (hd' v hv)
    | object members =>
      obtain ⟨e, bs, s', rfl, hbs, rfl, hmembers⟩ := value_eq_object_iff.1 h
      cases d' with
      | zero => exact absurd hd' (Nat.not_succ_le_zero _)
      | succ e' =>
        rw [depth, Nat.succ_le_succ_iff, depthOfMembers_le_iff] at hd'
        refine value_eq_object_iff.2 ⟨e', bs, s', rfl, hbs, rfl, hmembers.imp fun m hm _ _ ht => ?_⟩
        exact ih e (Nat.lt_succ_self _) ht (hd' m hm)
    | null | bool _ | number _ | text _ =>
      rcases value_cases h with ⟨_, _, _, _, _, _, heq⟩ | ⟨_, _, _, _, _, _, heq⟩ |
        ⟨c, s', hs, hlist, hobject, hscalar⟩
      · cases heq
      · cases heq
      · rw [value_scalar hs hlist hobject]
        exact hscalar

/-- **Depth is all that limits reading**: a text that is read with some number of
containers is read with another exactly if that is no less than its depth. -/
theorem value_eq_ok_iff_depth_le {d : Nat} {s rest : List Char} {v : Json}
    (h : value d s = .ok (v, rest)) (d' : Nat) :
    value d' s = .ok (v, rest) ↔ v.depth ≤ d' :=
  ⟨depth_le_of_value, value_of_depth_le h⟩

end Linework.Json
