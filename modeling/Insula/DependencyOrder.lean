import Mathlib.Data.Set.Finite.Basic
import Mathlib.Order.WellFounded

/-!
# Lists in the order of dependencies

The elements of a finite list wait for each other. An element is free when it has not been done and
all that it waits for have. A list picks if it was made by doing, again and again, a free element
that comes before all others that are free.
-/

namespace Insula.DependencyOrder

variable {α : Type*} (S : List α) (waits : α → α → Prop) (before : α → α → Prop)

structure Free (done : List α) (x : α) : Prop where
  mem : x ∈ S
  notDone : x ∉ done
  waited : ∀ y ∈ S, waits x y → y ∈ done

inductive Picks : List α → Prop
  | nil : Picks []
  | snoc {done : List α} {next : α} (h : Picks done) (hfree : Free S waits done next)
      (hleast : ∀ x, Free S waits done x → before next x) : Picks (done ++ [next])

/-- One element waits for another, both of the list. -/
def Edge (x y : α) : Prop := x ∈ S ∧ y ∈ S ∧ waits x y

def Cyclic : Prop := ∃ x, Relation.TransGen (Edge S waits) x x

variable {S waits before} {done : List α}

theorem Picks.subset (h : Picks S waits before done) : ∀ x ∈ done, x ∈ S := by
  induction h with
  | nil => simp
  | snoc h hfree hleast ih =>
    intro x hx
    rcases List.mem_append.mp hx with hx | hx
    · exact ih x hx
    · exact List.mem_singleton.mp hx ▸ hfree.mem

theorem Picks.nodup (h : Picks S waits before done) : done.Nodup := by
  induction h with
  | nil => exact List.nodup_nil
  | snoc h hfree hleast ih =>
    rw [← List.concat_eq_append, List.nodup_concat]
    exact ⟨hfree.notDone, ih⟩

/-- Each element was free when it was picked, and came before all that were free with it. -/
theorem Picks.split (h : Picks S waits before done) {front back : List α} {x : α}
    (heq : done = front ++ x :: back) :
    Free S waits front x ∧ ∀ y, Free S waits front y → before x y := by
  induction h generalizing back with
  | nil => simp at heq
  | snoc h hfree hleast ih =>
    rcases List.eq_nil_or_concat back with rfl | ⟨back, last, rfl⟩
    · obtain ⟨rfl, hlast⟩ := List.append_inj' heq rfl
      obtain rfl := List.head_eq_of_cons_eq hlast
      exact ⟨hfree, hleast⟩
    · rw [List.concat_eq_append, ← List.cons_append, ← List.append_assoc] at heq
      exact ih (List.append_inj' heq rfl).1

/-- No chain of waiting from an element that was picked is endless. -/
theorem Picks.acc (h : Picks S waits before done) :
    ∀ x ∈ done, Acc (fun y x => Edge S waits x y) x := by
  induction h with
  | nil => simp
  | snoc h hfree hleast ih =>
    intro x hx
    rcases List.mem_append.mp hx with hx | hx
    · exact ih x hx
    · obtain rfl := List.mem_singleton.mp hx
      exact Acc.intro x fun y hedge => ih y (hfree.waited y hedge.2.1 hedge.2.2)

theorem not_transGen_self {r : α → α → Prop} {x : α} (h : Acc r x) : ¬ Relation.TransGen r x x := by
  have hacc := h.transGen
  induction hacc with
  | intro x _ ih =>
    intro hx
    exact ih x hx h hx

theorem Picks.not_cyclic (h : Picks S waits before done) (hall : ∀ x ∈ S, x ∈ done) :
    ¬ Cyclic S waits := by
  rintro ⟨x, hx⟩
  have hmem : x ∈ S := by
    obtain ⟨y, hedge, -⟩ := Relation.TransGen.head'_iff.mp hx
    exact hedge.1
  exact not_transGen_self (h.acc x (hall x hmem)) (Relation.transGen_swap.mpr hx)

/-- Without a cycle something is free as long as not everything is done. -/
theorem exists_free (hcyclic : ¬ Cyclic S waits) {x : α} (hx : x ∈ S) (hnot : x ∉ done) :
    ∃ y, Free S waits done y := by
  let below : {x // x ∈ S} → {x // x ∈ S} → Prop := fun a b => Relation.TransGen (Edge S waits) b.1 a.1
  have : Finite {x // x ∈ S} := S.finite_toSet
  have : IsTrans _ below := ⟨fun a b c hab hbc => hbc.trans hab⟩
  have : Std.Irrefl below := ⟨fun a ha => hcyclic ⟨a.1, ha⟩⟩
  have hwf := Finite.wellFounded_of_trans_of_irrefl below
  obtain ⟨y, hy, hleast⟩ := hwf.has_min {y | y.1 ∉ done} ⟨⟨x, hx⟩, hnot⟩
  refine ⟨y.1, y.2, hy, fun z hz hwaits => ?_⟩
  by_contra hdone
  exact hleast ⟨z, hz⟩ hdone (Relation.TransGen.single ⟨y.2, hz, hwaits⟩)

theorem Picks.all_iff (h : Picks S waits before done) (hstuck : ∀ x, ¬ Free S waits done x) :
    (∀ x ∈ S, x ∈ done) ↔ ¬ Cyclic S waits := by
  refine ⟨h.not_cyclic, fun hcyclic x hx => ?_⟩
  by_contra hnot
  obtain ⟨y, hfree⟩ := exists_free hcyclic hx hnot
  exact hstuck y hfree

theorem Picks.length_eq_iff (h : Picks S waits before done) (hnodup : S.Nodup)
    (hstuck : ∀ x, ¬ Free S waits done x) : done.length = S.length ↔ ¬ Cyclic S waits := by
  rw [← h.all_iff hstuck]
  have hsubperm : done.Subperm S := List.subperm_of_subset h.nodup h.subset
  constructor
  · intro hlength x hx
    exact (hsubperm.perm_of_length_le hlength.ge).mem_iff.mpr hx
  · intro hall
    exact le_antisymm hsubperm.length_le (List.subperm_of_subset hnodup hall).length_le

end Insula.DependencyOrder
