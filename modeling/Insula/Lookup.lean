import Mathlib.Data.List.Basic

/-!
# Looking up a list that was extended or changed at one place
-/

namespace Insula.Lookup

variable {α : Type*} {l : List α} {a b : α} {i : ℕ}

-- A property of all members is decided along the list, not over all values of the type.
scoped instance (priority := high) decidableAll {α : Type} (p : α → Prop) [DecidablePred p]
    (l : List α) : Decidable (∀ x ∈ l, p x) := List.decidableBAll p l

scoped instance (priority := high) decidableAllOption {α : Type} (p : α → Prop) [DecidablePred p]
    (o : Option α) : Decidable (∀ x ∈ o, p x) := Option.decidableForallMem o

theorem getElem?_concat_eq_some :
    (l ++ [a])[i]? = some b ↔ l[i]? = some b ∨ (i = l.length ∧ b = a) := by
  rcases Nat.lt_trichotomy i l.length with hi | hi | hi
  · rw [List.getElem?_append_left hi]
    simp [Nat.ne_of_lt hi]
  · subst hi
    simp [eq_comm]
  · rw [List.getElem?_append_right (Nat.le_of_lt hi)]
    simp [show i - l.length ≠ 0 by omega, Nat.le_of_lt hi, Nat.ne_of_gt hi]

theorem getElem?_set_eq_some {j : ℕ} : (l.set i a)[j]? = some b ↔
      (i = j ∧ i < l.length ∧ b = a) ∨ (i ≠ j ∧ l[j]? = some b) := by
  rw [List.getElem?_set]
  by_cases hij : i = j
  · simp [hij, eq_comm]
  · simp [hij]

theorem lt_length_of_getElem? (h : l[i]? = some a) : i < l.length :=
  (List.getElem?_eq_some_iff.mp h).1

theorem map_set_of_eq {β : Type*} {f : α → β} (h : l[i]? = some a) (hf : f b = f a) :
    (l.set i b).map f = l.map f := by
  apply List.ext_getElem?
  intro j
  rw [List.getElem?_map, List.getElem?_map]
  by_cases hij : i = j
  · subst hij
    rw [List.getElem?_set_self (lt_length_of_getElem? h), h]
    exact congrArg some hf
  · rw [List.getElem?_set_ne hij]

end Insula.Lookup
