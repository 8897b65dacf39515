import Mathlib.Data.List.Sort

/-!
# Lists compared with padding

Two lists are compared member by member, the first difference decides, and a list that has ended
goes on with a fixed value. The head of a sorted list is the least member, also where the order is
one on the members of the list only.
-/

namespace Insula.PaddedOrder

open Std

variable {α β : Type} {cmp : α → α → Ordering} {z : α} {as bs l : List α}

def compareEnded (cmp : α → α → Ordering) (z : α) : List α → Ordering
  | [] => .eq
  | b :: bs => (cmp z b).then (compareEnded cmp z bs)

/-- The ended list goes on with `z`. -/
def comparePadded (cmp : α → α → Ordering) (z : α) : List α → List α → Ordering
  | [], bs => compareEnded cmp z bs
  | a :: as, bs => (cmp a (bs.headD z)).then (comparePadded cmp z as bs.tail)

theorem comparePadded_step [ReflCmp cmp] (as bs : List α) : comparePadded cmp z as bs =
      (cmp (as.headD z) (bs.headD z)).then (comparePadded cmp z as.tail bs.tail) := by
  cases as with
  | nil =>
    cases bs with
    | nil => simp [comparePadded, compareEnded, ReflCmp.compare_self]
    | cons b bs => rfl
  | cons a as => rfl

/-- The induction is on a bound of both lengths, since either list may end first. -/
theorem comparePadded_swap [OrientedCmp cmp] (n : ℕ) (ha : as.length ≤ n) (hb : bs.length ≤ n) :
    comparePadded cmp z as bs = (comparePadded cmp z bs as).swap := by
  induction n generalizing as bs with
  | zero =>
    rw [List.length_eq_zero_iff.mp (Nat.le_zero.mp ha),
      List.length_eq_zero_iff.mp (Nat.le_zero.mp hb)]
    rfl
  | succ n ih =>
    rw [comparePadded_step, comparePadded_step bs, Ordering.swap_then, ← OrientedCmp.eq_swap,
      ← ih (by rw [List.length_tail]; omega) (by rw [List.length_tail]; omega)]

instance [OrientedCmp cmp] : OrientedCmp (comparePadded cmp z) where
  eq_swap {as bs} := comparePadded_swap (as.length + bs.length) (by omega) (by omega)

/-- The induction is on a bound of the three lengths, since any of them may end first. -/
theorem isLE_trans [TransCmp cmp] (n : ℕ) {cs : List α} (ha : as.length ≤ n) (hb : bs.length ≤ n)
    (hc : cs.length ≤ n) (hab : (comparePadded cmp z as bs).isLE)
    (hbc : (comparePadded cmp z bs cs).isLE) : (comparePadded cmp z as cs).isLE := by
  induction n generalizing as bs cs with
  | zero =>
    rw [List.length_eq_zero_iff.mp (Nat.le_zero.mp ha),
      List.length_eq_zero_iff.mp (Nat.le_zero.mp hc)]
    rfl
  | succ n ih =>
    have htail : ∀ l : List α, l.length ≤ n + 1 → l.tail.length ≤ n := by
      intro l hl
      rw [List.length_tail]
      omega
    rw [comparePadded_step, Ordering.isLE_then_iff_and] at hab hbc ⊢
    refine ⟨TransCmp.isLE_trans hab.1 hbc.1, ?_⟩
    rcases hab.2 with hlt | hle
    · exact .inl (TransCmp.lt_of_lt_of_isLE hlt hbc.1)
    · rcases hbc.2 with hlt' | hle'
      · exact .inl (TransCmp.lt_of_isLE_of_lt hab.1 hlt')
      · exact .inr (ih (htail as ha) (htail bs hb) (htail cs hc) hle hle')

instance [TransCmp cmp] : TransCmp (comparePadded cmp z) where
  isLE_trans {as bs cs} hab hbc :=
    isLE_trans (as.length + bs.length + cs.length) (by omega) (by omega) (by omega) hab hbc

theorem comparePadded_map {cmp' : β → β → Ordering} (f : α → β) {p : α → Prop} (hz : p z)
    (h : ∀ x y, p x → p y → cmp x y = cmp' (f x) (f y)) (ha : ∀ x ∈ as, p x) (hb : ∀ y ∈ bs, p y) :
    comparePadded cmp z as bs = comparePadded cmp' (f z) (as.map f) (bs.map f) := by
  induction as generalizing bs with
  | nil =>
    rw [List.map_nil, comparePadded, comparePadded]
    induction bs with
    | nil => rfl
    | cons b bs ih =>
      rw [List.forall_mem_cons] at hb
      rw [List.map_cons, compareEnded, compareEnded, h z b hz hb.1, ih hb.2]
  | cons a as ih =>
    rw [List.forall_mem_cons] at ha
    rw [List.map_cons, comparePadded, comparePadded]
    cases bs with
    | nil => rw [List.headD_nil, List.tail_nil, h a z ha.1 hz, ih ha.2 hb]; rfl
    | cons b bs =>
      rw [List.forall_mem_cons] at hb
      rw [List.headD_cons, List.tail_cons, h a b ha.1 hb.1, ih ha.2 hb.2]
      rfl

theorem comparePadded_append [ReflCmp cmp] (front as bs : List α) :
    comparePadded cmp z (front ++ as) (front ++ bs) = comparePadded cmp z as bs := by
  induction front with
  | nil => rfl
  | cons a front ih =>
    have hself : cmp a a = .eq := ReflCmp.compare_self
    rw [List.cons_append, List.cons_append, comparePadded, List.headD_cons, List.tail_cons, hself,
      ih]
    rfl

/-! ## The head of a sorted list -/

variable {r : α → α → Prop} [DecidableRel r]

/-- Between the members of a list the relation is total and transitive. -/
structure OrderOn (r : α → α → Prop) (l : List α) : Prop where
  total : ∀ a ∈ l, ∀ b ∈ l, r a b ∨ r b a
  trans : ∀ a ∈ l, ∀ b ∈ l, ∀ c ∈ l, r a b → r b c → r a c

omit [DecidableRel r] in
theorem OrderOn.of_perm {l' : List α} (h : OrderOn r l) (hperm : l'.Perm l) : OrderOn r l' where
  total a ha b hb := h.total a (hperm.subset ha) b (hperm.subset hb)
  trans a ha b hb c hc := h.trans a (hperm.subset ha) b (hperm.subset hb) c (hperm.subset hc)

theorem head_orderedInsert (a : α) (l : List α) :
    (l.orderedInsert r a).head? = some (l.head?.elim a fun b => if r a b then a else b) := by
  cases l with
  | nil => rfl
  | cons b l =>
    rw [List.orderedInsert]
    by_cases hab : r a b
    · simp [hab]
    · simp [hab]

theorem head_insertionSort (h : OrderOn r l) {a : α} (ha : a ∈ (l.insertionSort r).head?) :
    a ∈ l ∧ ∀ b ∈ l, r a b := by
  induction l generalizing a with
  | nil => cases ha
  | cons c l ih =>
    have hrest : OrderOn r l :=
      ⟨fun x hx y hy => h.total x (.tail c hx) y (.tail c hy),
        fun x hx y hy w hw => h.trans x (.tail c hx) y (.tail c hy) w (.tail c hw)⟩
    have hself : r c c := (h.total c (.head l) c (.head l)).elim id id
    rw [List.insertionSort_cons, head_orderedInsert] at ha
    cases hhead : (l.insertionSort r).head? with
    | none =>
      rw [hhead] at ha
      cases ha
      have hnil : l = [] := by
        have hlength := List.length_insertionSort r l
        rw [List.head?_eq_none_iff.mp hhead] at hlength
        exact List.length_eq_zero_iff.mp hlength.symm
      rw [hnil]
      exact ⟨.head [], by simpa using hself⟩
    | some b =>
      obtain ⟨hb, hleast⟩ := ih hrest hhead
      rw [hhead] at ha
      by_cases hcb : r c b
      · simp only [Option.elim, hcb, if_true] at ha
        cases ha
        refine ⟨.head l, ?_⟩
        intro d hd
        rcases List.mem_cons.mp hd with rfl | hd
        · exact hself
        · exact h.trans c (.head l) b (.tail c hb) d (.tail c hd) hcb (hleast d hd)
      · simp only [Option.elim, hcb, if_false] at ha
        have hbc : r b c := (h.total c (.head l) b (.tail c hb)).resolve_left hcb
        cases ha
        refine ⟨.tail c hb, ?_⟩
        intro d hd
        rcases List.mem_cons.mp hd with rfl | hd
        · exact hbc
        · exact hleast d hd

theorem isSome_head_insertionSort (h : l ≠ []) : ∃ a, a ∈ (l.insertionSort r).head? := by
  cases hhead : (l.insertionSort r).head? with
  | none =>
    have hlength := List.length_insertionSort r l
    rw [List.head?_eq_none_iff.mp hhead] at hlength
    exact absurd (List.length_eq_zero_iff.mp hlength.symm) h
  | some a => exact ⟨a, rfl⟩

/-- A member that comes before all others stays at the head. -/
theorem head_insertionSort_cons {a : α} (h : ∀ b ∈ l, r a b) :
    ((a :: l).insertionSort r).head? = some a := by
  rw [List.insertionSort_cons, head_orderedInsert]
  cases hhead : (l.insertionSort r).head? with
  | none => rfl
  | some b =>
    have hb : b ∈ l := (List.mem_insertionSort r).mp (List.mem_of_head? hhead)
    simp [h b hb]

end Insula.PaddedOrder
