import Mathlib.Data.Option.Basic

/-!
# The three-valued logic of SQL conditions

A condition is true, false or NULL, and a row is matched only when it is true. NULL is `none`.
-/

namespace Insula.Sql

abbrev Tri := Option Bool

/-- A WHERE clause matches a row only when its condition is true, not when it is NULL. -/
def Matches (c : Tri) : Prop := c = some true

instance (c : Tri) : Decidable (Matches c) := inferInstanceAs (Decidable (c = some true))

def ofProp (p : Prop) [Decidable p] : Tri := some (decide p)

def or : Tri → Tri → Tri
  | some true, _ => some true
  | _, some true => some true
  | some false, some false => some false
  | _, _ => none

def and : Tri → Tri → Tri
  | some false, _ => some false
  | _, some false => some false
  | some true, some true => some true
  | _, _ => none

/-- Comparison of two possibly NULL values: NULL as soon as one of them is. -/
def compare {α β : Type*} (r : α → β → Prop) [∀ a b, Decidable (r a b)] :
    Option α → Option β → Tri
  | some a, some b => ofProp (r a b)
  | _, _ => none

def isNull {α : Type*} (a : Option α) : Tri := some a.isNone

def coalesce {α : Type*} (a : Option α) (b : α) : α := a.getD b

variable {a b : Tri}

theorem matches_or : Matches (or a b) ↔ Matches a ∨ Matches b := by
  rcases a with _ | _ | _ <;> rcases b with _ | _ | _ <;> decide

theorem matches_and : Matches (and a b) ↔ Matches a ∧ Matches b := by
  rcases a with _ | _ | _ <;> rcases b with _ | _ | _ <;> decide

@[simp] theorem matches_ofProp (p : Prop) [Decidable p] : Matches (ofProp p) ↔ p := by
  simp [Matches, ofProp]

@[simp] theorem matches_some (c : Bool) : Matches (some c) ↔ c = true := by simp [Matches]

@[simp] theorem not_matches_none : ¬ Matches none := by simp [Matches]

theorem matches_compare {α β : Type*} {r : α → β → Prop} [∀ a b, Decidable (r a b)]
    {x : Option α} {y : Option β} :
    Matches (compare r x y) ↔ ∃ a b, x = some a ∧ y = some b ∧ r a b := by
  cases x <;> cases y <;> simp [compare]

end Insula.Sql
