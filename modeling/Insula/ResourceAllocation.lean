import Insula.HostMigrationRuns
import Insula.PaddedOrder
import Insula.ProportionalShares
import Insula.Quantities

/-!
# Dividing a deployment's budget

`allocateResources` gives every component of a deployment its minimum and divides the rest of the
budget by the components' weights. What rounding leaves over goes to the heaviest component. It
calculates with the numbers of the language; as long as they stay below `2 ^ 53` it calculates with
integers.
-/

namespace Insula.ResourceAllocation

open Std PaddedOrder ProportionalShares
open Javascript (mathRound)
open Quantities (Arithmetic Number Text parseResourceValue)
open HostMigrations (Collation asciiCollation)

inductive ComponentType
  | deployment | statefulset | cronjob | job
deriving DecidableEq

structure ResourceShare where
  weight : ℕ
  minCpu : Option Text
  minMemory : Option Text

structure PinnedResources where
  cpu : Option Text
  memory : Option Text

structure AllocatorComponentInput where
  name : Text
  type : Option ComponentType
  resourceShare : Option ResourceShare
  resources : Option PinnedResources

structure AllocationOptions where
  defaultMinCpu : Option Text
  defaultMinMemory : Option Text

structure Budget where
  cpu : Text
  memory : Text

structure Amounts (α : Type) where
  cpuMilli : α
  memMi : α
deriving DecidableEq

structure AllocationResult where
  cpu : Text
  memory : Text
deriving DecidableEq

structure InsufficientResourceBudgetError where
  required : AllocationResult
  assigned : AllocationResult
  perComponentMinimums : List (Text × AllocationResult)
deriving DecidableEq

def InsufficientResourceBudgetError.message (e : InsufficientResourceBudgetError) : Text :=
  "Assigned budget (cpu=".toList ++ e.assigned.cpu ++ ", memory=".toList ++ e.assigned.memory ++
    ") is below the sum of component minimums (cpu=".toList ++ e.required.cpu ++ ", memory=".toList ++
    e.required.memory ++ "). Raise the deployment's CPU or memory.".toList

def defaultMinCpu : Text := "10m".toList

def defaultMinMemory : Text := "64Mi".toList

/-! ## The allocation -/

structure CompSpec (α : Type) where
  name : Text
  weight : ℕ
  min : Amounts α
deriving DecidableEq

def totalWeight {α : Type} (specs : List (CompSpec α)) : ℕ := (specs.map CompSpec.weight).sum

section Target

variable {α : Type} (c : Collation)

def byWeight (a b : CompSpec α) : Ordering :=
  (compare b.weight a.weight).then (c.localeCompare a.name b.name)

def target (specs : List (CompSpec α)) : Option (CompSpec α) :=
  (specs.insertionSort fun a b => (byWeight c a b).isLE = true).head?

end Target

def mathFloor : Number → Number
  | .fin q => .fin ⌊q⌋
  | x => x

def rounded : Number → Number
  | .fin q => .fin (mathRound q)
  | x => x

section Allocation

variable (arith : Arithmetic) (c : Collation) (total : Amounts Number) (specs : List (CompSpec Number))

def formatCpuMilli (milli : Number) : Text := (arith.text milli).toList ++ "m".toList

def formatMemMi (mi : Number) : Text := (arith.text mi).toList ++ "Mi".toList

def Amounts.result (a : Amounts Number) : AllocationResult :=
  ⟨formatCpuMilli arith a.cpuMilli, formatMemMi arith a.memMi⟩

def addUp (l : List Number) : Number := l.foldl (Number.add arith) (.fin 0)

def minima : Amounts Number :=
  ⟨addUp arith (specs.map fun s => s.min.cpuMilli), addUp arith (specs.map fun s => s.min.memMi)⟩

def alloc (minimum total minima : Number) (weight : ℕ) : Number :=
  minimum.add arith
    (mathFloor (((total.sub arith minima).times arith weight).times arith
      (1 / (totalWeight specs : ℚ))))

def cpuAlloc (s : CompSpec Number) : Number :=
  alloc arith specs s.min.cpuMilli total.cpuMilli (minima arith specs).cpuMilli s.weight

def memAlloc (s : CompSpec Number) : Number :=
  alloc arith specs s.min.memMi total.memMi (minima arith specs).memMi s.weight

def cpuRemainder : Number := total.cpuMilli.sub arith
    (addUp arith (specs.map (cpuAlloc arith total specs)))

def memRemainder : Number := total.memMi.sub arith
    (addUp arith (specs.map (memAlloc arith total specs)))

def amounts (s : CompSpec Number) : Amounts Number :=
  match target c specs with
  | some t =>
    if ((cpuRemainder arith total specs).gt (.fin 0) || (memRemainder arith total specs).gt (.fin 0)) ∧
        s.name = t.name then
      ⟨(cpuAlloc arith total specs s).add arith (cpuRemainder arith total specs),
        (memAlloc arith total specs s).add arith (memRemainder arith total specs)⟩
    else ⟨cpuAlloc arith total specs s, memAlloc arith total specs s⟩
  | none => ⟨cpuAlloc arith total specs s, memAlloc arith total specs s⟩

def allocateSpecs : Except InsufficientResourceBudgetError (List (Text × AllocationResult)) :=
  if (minima arith specs).cpuMilli.gt total.cpuMilli || (minima arith specs).memMi.gt total.memMi then
    .error ⟨(minima arith specs).result arith, total.result arith,
      specs.map fun s => (s.name, s.min.result arith)⟩
  else .ok (specs.map fun s => (s.name, (amounts arith c total specs s).result arith))

end Allocation

/-! ## The allocation of a budget -/

def bearsBudget (component : AllocatorComponentInput) : Bool :=
  component.type ≠ some .job &&
    component.resources.all fun r => r.cpu.isNone && r.memory.isNone

section Functions

variable (arith : Arithmetic)

def toCpuMilli (value : Text) : Number :=
  rounded ((parseResourceValue arith value .cpu).times arith 1000)

def toMemMi (value : Text) : Number := rounded
    ((parseResourceValue arith value .memory).times arith 1024)

def toAmounts (cpu memory : Text) : Amounts Number := ⟨toCpuMilli arith cpu, toMemMi arith memory⟩

def specOf (options : AllocationOptions) (useShares : Bool) (component : AllocatorComponentInput) :
    CompSpec Number :=
  let declared := component.resourceShare
  ⟨component.name, if useShares then (declared.map ResourceShare.weight).getD 1 else 1,
    toAmounts arith
      ((declared.bind ResourceShare.minCpu).getD (options.defaultMinCpu.getD defaultMinCpu))
      ((declared.bind ResourceShare.minMemory).getD (options.defaultMinMemory.getD defaultMinMemory))⟩

def specsOf (options : AllocationOptions) (budget : List AllocatorComponentInput) :
    List (CompSpec Number) :=
  budget.map (specOf arith options (budget.all fun component => component.resourceShare.isSome))

def allocateResources (c : Collation) (options : AllocationOptions) (total : Budget)
    (components : List AllocatorComponentInput) :
    Except InsufficientResourceBudgetError (List (Text × AllocationResult)) :=
  match components.filter bearsBudget with
  | [] => .ok []
  | [only] => .ok [(only.name, (toAmounts arith total.cpu total.memory).result arith)]
  | budget => allocateSpecs arith c (toAmounts arith total.cpu total.memory) (specsOf arith options budget)

end Functions

/-! ## The allocation in integers -/

namespace Whole

section Definitions

variable (total : ℤ) (minimum : CompSpec ℤ → ℤ) (specs : List (CompSpec ℤ))

def alloc (s : CompSpec ℤ) : ℤ :=
  minimum s + share (total - (specs.map minimum).sum) s.weight (totalWeight specs)

def remainder : ℤ := total - (specs.map (alloc total minimum specs)).sum

end Definitions

def minCpu (s : CompSpec ℤ) : ℤ := s.min.cpuMilli

def minMem (s : CompSpec ℤ) : ℤ := s.min.memMi

def minima (specs : List (CompSpec ℤ)) : Amounts ℤ := ⟨(specs.map minCpu).sum, (specs.map minMem).sum⟩

def Short (total : Amounts ℤ) (specs : List (CompSpec ℤ)) : Prop :=
  total.cpuMilli < (minima specs).cpuMilli ∨ total.memMi < (minima specs).memMi

def amount (total : ℤ) (minimum : CompSpec ℤ → ℤ) (specs : List (CompSpec ℤ)) (name : Text) :
    CompSpec ℤ → ℤ :=
  addAt CompSpec.name name (remainder total minimum specs) (alloc total minimum specs)

def amounts (total : Amounts ℤ) (specs : List (CompSpec ℤ)) (name : Text) (s : CompSpec ℤ) :
    Amounts ℤ :=
  ⟨amount total.cpuMilli minCpu specs name s, amount total.memMi minMem specs name s⟩

variable {total : ℤ} {minimum : CompSpec ℤ → ℤ} {specs specs' : List (CompSpec ℤ)} {name : Text}

theorem sum_alloc_le (hweight : 0 < totalWeight specs) :
    (specs.map (alloc total minimum specs)).sum ≤ total := by
  have hshares := sum_share_le (total - (specs.map minimum).sum) CompSpec.weight hweight
  have hsum : (specs.map (alloc total minimum specs)).sum = (specs.map minimum).sum +
      (specs.map fun s => share (total - (specs.map minimum).sum) s.weight (totalWeight specs)).sum :=
    List.sum_map_add
  unfold totalWeight at hsum
  omega

theorem sum_amount (hnames : (specs.map CompSpec.name).Nodup) (hname : name ∈ specs.map CompSpec.name) :
    (specs.map (amount total minimum specs name)).sum = total := by
  have hsum := sum_addAt (remainder total minimum specs) (alloc total minimum specs) hnames hname
  unfold amount
  rw [hsum, remainder]
  omega

theorem le_alloc (htotal : (specs.map minimum).sum ≤ total) (s : CompSpec ℤ) :
    minimum s ≤ alloc total minimum specs s := by
  have hshare := share_nonneg (show 0 ≤ total - (specs.map minimum).sum by omega) s.weight
    (totalWeight specs)
  unfold alloc
  omega

theorem le_amount (htotal : (specs.map minimum).sum ≤ total) (hweight : 0 < totalWeight specs)
    (s : CompSpec ℤ) : minimum s ≤ amount total minimum specs name s := by
  have hbase := le_alloc htotal s
  have hle := @sum_alloc_le total minimum _ hweight
  have hremainder : 0 ≤ remainder total minimum specs := by
    unfold remainder
    omega
  unfold amount addAt
  split <;> omega

theorem amount_perm (hperm : specs'.Perm specs) :
    amount total minimum specs' name = amount total minimum specs name := by
  have hweight : totalWeight specs' = totalWeight specs := (hperm.map _).sum_eq
  have halloc : alloc total minimum specs' = alloc total minimum specs := by
    unfold alloc
    rw [hweight, (hperm.map minimum).sum_eq]
  unfold amount remainder
  rw [halloc, (hperm.map (alloc total minimum specs)).sum_eq]

end Whole

/-! ## Who takes the remainder -/

section Order

variable {α : Type} {c : Collation} {specs specs' : List (CompSpec α)} {t : CompSpec α}

instance : TransCmp (byWeight (α := α) c) := by
  have := c.trans
  have hweight : TransCmp fun a b : CompSpec α => compare b.weight a.weight :=
    { eq_swap := OrientedCmp.eq_swap, isLE_trans := fun hab hbc => TransCmp.isLE_trans hbc hab }
  have hname := Versions.transCmp_comap (CompSpec.name (α := α)) c.localeCompare
  exact inferInstanceAs (TransCmp (compareLex (fun a b : CompSpec α => compare b.weight a.weight)
    fun a b => c.localeCompare a.name b.name))

theorem mem_target (h : target c specs = some t) : t ∈ specs :=
  (List.mem_insertionSort _).mp (List.mem_of_head? h)

theorem exists_target (hne : specs ≠ []) : ∃ t, target c specs = some t := isSome_head_insertionSort hne

theorem target_least (h : target c specs = some t) : ∀ s ∈ specs, (byWeight c t s).isLE = true := by
  have horder : OrderOn (fun a b => (byWeight c a b).isLE = true) specs := by
    constructor
    · intro a _ b _
      have hswap : byWeight c b a = (byWeight c a b).swap := OrientedCmp.eq_swap
      rw [hswap]
      cases byWeight c a b <;> simp
    · intro a _ b _ d _ hab hbd
      exact TransCmp.isLE_trans hab hbd
  exact (head_insertionSort horder h).2

def NamesApart (c : Collation) (specs : List (CompSpec α)) : Prop :=
  ∀ a ∈ specs, ∀ b ∈ specs, c.localeCompare a.name b.name = .eq → a.name = b.name

/-- Who takes the remainder does not depend on the order of the list. -/
theorem target_perm (happart : NamesApart c specs) (hperm : specs'.Perm specs) {t' : CompSpec α}
    (h : target c specs = some t) (h' : target c specs' = some t') : t'.name = t.name := by
  have ht := mem_target h
  have ht' : t' ∈ specs := hperm.mem_iff.mp (mem_target h')
  have hle := target_least h t' ht'
  have hle' := target_least h' t (hperm.mem_iff.mpr ht)
  have heq : byWeight c t' t = .eq := by
    have hswap : byWeight c t t' = (byWeight c t' t).swap := OrientedCmp.eq_swap
    rw [hswap] at hle
    cases hcmp : byWeight c t' t with
    | eq => rfl
    | lt => rw [hcmp] at hle; cases hle
    | gt => rw [hcmp] at hle'; cases hle'
  exact happart t' ht' t ht (Ordering.then_eq_eq.mp heq).2

end Order

/-! ## Small numbers are calculated with exactly -/

/-- Integers up to `2 ^ 53` are numbers, and what is not too small or too large is rounded within
half a unit in the last of 53 bits. -/
structure RoundsToNearest (arith : Arithmetic) : Prop where
  integer : ∀ n : ℤ, |n| ≤ 2 ^ 53 → arith.round n = .fin n
  near : ∀ q : ℚ, 1 / 2 ^ 53 ≤ q → q ≤ 2 ^ 53 → ∃ r, arith.round q = .fin r ∧ |r - q| * 2 ^ 53 ≤ q

def whole (n : ℤ) : Number := .fin n

def Amounts.toNumbers (a : Amounts ℤ) : Amounts Number := ⟨whole a.cpuMilli, whole a.memMi⟩

def CompSpec.toNumbers (s : CompSpec ℤ) : CompSpec Number := ⟨s.name, s.weight, s.min.toNumbers⟩

theorem gt_whole (m n : ℤ) : (whole m).gt (whole n) = decide (n < m) := by
  simp [whole, Number.gt]

section Exact

variable {arith : Arithmetic} (hround : RoundsToNearest arith) {m : ℤ}
include hround

theorem add_whole {n : ℤ} (h : |m + n| ≤ 2 ^ 53) :
    (whole m).add arith (whole n) = whole (m + n) := by
  have hinteger := hround.integer (m + n) h
  rw [Int.cast_add] at hinteger
  simpa [whole, Number.add] using hinteger

theorem sub_whole {n : ℤ} (h : |m - n| ≤ 2 ^ 53) :
    (whole m).sub arith (whole n) = whole (m - n) := by
  have hadd := add_whole hround (m := m) (n := -n) (by rwa [← sub_eq_add_neg])
  rw [← sub_eq_add_neg] at hadd
  rw [← hadd]
  simp [whole, Number.sub]

theorem times_whole {w : ℕ} (h : |m * w| ≤ 2 ^ 53) : (whole m).times arith w = whole (m * w) := by
  have hinteger := hround.integer (m * w) h
  rw [Int.cast_mul, Int.cast_natCast] at hinteger
  simpa [whole, Number.times] using hinteger

theorem addUp_whole {l : List ℤ} (hnonneg : ∀ n ∈ l, 0 ≤ n) (hsum : l.sum ≤ 2 ^ 53) :
    addUp arith (l.map whole) = whole l.sum := by
  have hfold : ∀ (l : List ℤ) (m : ℤ), (∀ n ∈ l, 0 ≤ n) → 0 ≤ m → m + l.sum ≤ 2 ^ 53 →
      (l.map whole).foldl (Number.add arith) (whole m) = whole (m + l.sum) := by
    intro l
    induction l with
    | nil => simp
    | cons n l ih =>
      intro m hl hm hle
      rw [List.sum_cons] at hle
      have hn := hl n List.mem_cons_self
      have hrest := List.sum_nonneg fun x hx => hl x (List.mem_cons_of_mem n hx)
      rw [List.map_cons, List.foldl_cons, add_whole hround (by rw [abs_of_nonneg] <;> omega),
        ih (m + n) (fun x hx => hl x (List.mem_cons_of_mem n hx)) (by omega) (by omega), List.sum_cons]
      congr 1
      omega
  have hzero := hfold l 0 hnonneg le_rfl (by omega)
  rw [zero_add] at hzero
  rw [← hzero]
  simp [addUp, whole]

/-- The floor of a rounded quotient is that of the quotient. -/
theorem floor_over {a : ℤ} {w : ℕ} (ha : 0 ≤ a) (hbound : a < 2 ^ 53) (hw : 0 < w) (hw' : w < 2 ^ 53) :
    mathFloor ((whole a).times arith (1 / (w : ℚ))) = whole (a / w) := by
  have hwq : (0 : ℚ) < w := Nat.cast_pos.mpr hw
  have htimes : (whole a).times arith (1 / (w : ℚ)) = arith.round (a / w) := by
    rw [whole, Number.times, mul_one_div]
  rw [htimes]
  by_cases hdvd : (w : ℤ) ∣ a
  · obtain ⟨k, rfl⟩ := hdvd
    have hk : ((w * k : ℤ) : ℚ) / w = (k : ℤ) := by
      rw [Int.cast_mul, Int.cast_natCast, mul_div_cancel_left₀ _ hwq.ne']
    have hkle : k ≤ w * k := by
      have hknonneg : 0 ≤ k := nonneg_of_mul_nonneg_right ha (by omega)
      nlinarith
    have hknonneg : 0 ≤ k := nonneg_of_mul_nonneg_right ha (by omega)
    rw [hk, hround.integer k (by rw [abs_of_nonneg hknonneg]; omega),
      Int.mul_ediv_cancel_left _ (by omega)]
    simp [mathFloor, whole]
  · -- a quotient that is no integer lies at least `1 / w` from the integers, and is rounded by less
    have hapos : 1 ≤ a := by
      rcases ha.lt_or_eq with h | rfl
      · exact h
      · exact absurd (dvd_zero _) hdvd
    have hone : (1 : ℚ) ≤ a := by exact_mod_cast hapos
    have hlt : (a : ℚ) < 2 ^ 53 := by exact_mod_cast hbound
    have hwlt : (w : ℚ) < 2 ^ 53 := by exact_mod_cast hw'
    have hw1 : (1 : ℚ) ≤ w := by exact_mod_cast hw
    have hlow : 1 / 2 ^ 53 ≤ (a : ℚ) / w := by
      rw [div_le_div_iff₀ (by positivity) hwq]
      nlinarith
    have hhigh : (a : ℚ) / w ≤ 2 ^ 53 := by
      rw [div_le_iff₀ hwq]
      nlinarith
    obtain ⟨r, hr, hnear⟩ := hround.near _ hlow hhigh
    have hmod := Int.emod_add_mul_ediv a w
    have hmodpos : 1 ≤ a % w := by
      have hne : a % w ≠ 0 := fun h => hdvd (Int.dvd_of_emod_eq_zero h)
      have := Int.emod_nonneg a (show (w : ℤ) ≠ 0 by omega)
      omega
    have hmodlt : a % w ≤ w - 1 := by
      have := Int.emod_lt_of_pos a (show (0 : ℤ) < w by omega)
      omega
    have hsplit : (a : ℚ) / w = (a / w : ℤ) + (a % w : ℤ) / w := by
      have hcast := congrArg (Int.cast : ℤ → ℚ) hmod
      rw [Int.cast_add, Int.cast_mul, Int.cast_natCast] at hcast
      rw [div_eq_iff hwq.ne', add_mul, div_mul_cancel₀ _ hwq.ne']
      linarith
    have hclose : |r - (a : ℚ) / w| < 1 / w := by
      have hdiv : (a : ℚ) / w < 2 ^ 53 * (1 / w) := by
        rw [mul_one_div]
        exact div_lt_div_of_pos_right hlt hwq
      nlinarith [abs_nonneg (r - (a : ℚ) / w)]
    have hmodq : (1 : ℚ) / w ≤ (a % w : ℤ) / w := by
      apply div_le_div_of_nonneg_right _ hwq.le
      exact_mod_cast hmodpos
    have hmodq' : ((a % w : ℤ) : ℚ) / w ≤ 1 - 1 / w := by
      rw [div_le_iff₀ hwq, sub_mul, one_mul, one_div, inv_mul_cancel₀ hwq.ne']
      exact_mod_cast hmodlt
    have hfloor : ⌊r⌋ = a / w := by
      rw [Int.floor_eq_iff]
      obtain ⟨hbelow, habove⟩ := abs_lt.mp hclose
      constructor <;> linarith
    rw [hr, mathFloor, hfloor]
    rfl

end Exact

/-! ## The calculation is that in integers -/

/-- The minima, a total times each weight, and the weights are below `2 ^ 53`. -/
structure Small (total : ℤ) (minimum : CompSpec ℤ → ℤ) (specs : List (CompSpec ℤ)) : Prop where
  nonneg : ∀ s ∈ specs, 0 ≤ minimum s
  minima : (specs.map minimum).sum < 2 ^ 53
  products : ∀ s ∈ specs, total * s.weight < 2 ^ 53
  weights : totalWeight specs < 2 ^ 53

section Refinement

variable {arith : Arithmetic} {specs : List (CompSpec ℤ)} {total : ℤ} {minimum : CompSpec ℤ → ℤ}
  {s : CompSpec ℤ}

@[simp] theorem totalWeight_toNumbers : totalWeight
    (specs.map CompSpec.toNumbers) = totalWeight specs := by
  unfold totalWeight
  rw [List.map_map]
  rfl

theorem target_toNumbers (c : Collation) :
    target c (specs.map CompSpec.toNumbers) = (target c specs).map CompSpec.toNumbers := by
  have hmap := List.map_insertionSort (r := fun a b => (byWeight c a b).isLE = true)
    (s := fun a b => (byWeight c a b).isLE = true) CompSpec.toNumbers specs fun _ _ _ _ => Iff.rfl
  unfold target
  rw [← List.head?_map, hmap]

theorem totalWeight_pos (hne : specs ≠ []) (hweights : ∀ s ∈ specs, 0 < s.weight) :
    0 < totalWeight specs := by
  obtain ⟨s, rest, rfl⟩ := List.exists_cons_of_ne_nil hne
  have hs := hweights s List.mem_cons_self
  unfold totalWeight
  rw [List.map_cons, List.sum_cons]
  omega

theorem Small.alloc_le (h : Small total minimum specs) (hweights : ∀ s ∈ specs, 0 < s.weight)
    (htotal : (specs.map minimum).sum ≤ total) (hs : s ∈ specs) :
    0 ≤ Whole.alloc total minimum specs s ∧ Whole.alloc total minimum specs s ≤ total ∧ total < 2 ^ 53 ∧
      0 ≤ (specs.map minimum).sum := by
  have hpos := totalWeight_pos (List.ne_nil_of_mem hs) hweights
  have hall : ∀ n ∈ specs.map (Whole.alloc total minimum specs), 0 ≤ n := by
    intro n hn
    obtain ⟨s, hs, rfl⟩ := List.mem_map.mp hn
    exact (h.nonneg s hs).trans (Whole.le_alloc htotal s)
  have hmem : Whole.alloc total minimum specs s ∈ specs.map (Whole.alloc total minimum specs) :=
    List.mem_map_of_mem hs
  have hsum : 0 ≤ (specs.map minimum).sum := List.sum_nonneg fun n hn => by
    obtain ⟨s, hs, rfl⟩ := List.mem_map.mp hn
    exact h.nonneg s hs
  have hweight : (1 : ℤ) ≤ s.weight := by exact_mod_cast hweights s hs
  have hproduct := h.products s hs
  exact ⟨hall _ hmem, (List.single_le_sum hall _ hmem).trans
    (Whole.sum_alloc_le hpos), by nlinarith, hsum⟩

variable (hround : RoundsToNearest arith) (hsmall : Small total minimum specs)
include hround hsmall

theorem addUp_minimum : addUp arith (specs.map fun s => whole (minimum s)) = whole
    (specs.map minimum).sum := by
  have hwhole := addUp_whole hround (l := specs.map minimum)
    (fun n hn => by
      obtain ⟨s, hs, rfl⟩ := List.mem_map.mp hn
      exact hsmall.nonneg s hs) hsmall.minima.le
  rwa [List.map_map] at hwhole

variable (hweights : ∀ s ∈ specs, 0 < s.weight) (htotal : (specs.map minimum).sum ≤ total)
include hweights htotal

theorem alloc_whole (hs : s ∈ specs) :
    alloc arith (specs.map CompSpec.toNumbers) (whole (minimum s)) (whole total)
      (whole (specs.map minimum).sum) s.weight = whole (Whole.alloc total minimum specs s) := by
  obtain ⟨hnonneg, hle, hbound, hsum⟩ := hsmall.alloc_le hweights htotal hs
  have hpos := totalWeight_pos (List.ne_nil_of_mem hs) hweights
  have hproduct := hsmall.products s hs
  have hrest : 0 ≤ (total - (specs.map minimum).sum) * s.weight :=
    mul_nonneg (by omega) (Int.natCast_nonneg _)
  have hmul : (total - (specs.map minimum).sum) * s.weight ≤ total * s.weight :=
    mul_le_mul_of_nonneg_right (by omega) (Int.natCast_nonneg _)
  have hless : (total - (specs.map minimum).sum) * s.weight < 2 ^ 53 := hmul.trans_lt hproduct
  have hadd : |Whole.alloc total minimum specs s| ≤ 2 ^ 53 := by
    rw [abs_of_nonneg hnonneg]
    omega
  unfold alloc
  rw [totalWeight_toNumbers, sub_whole hround (by rw [abs_of_nonneg] <;> omega),
    times_whole hround (by rw [abs_of_nonneg hrest]; exact hless.le),
    floor_over hround hrest hless hpos hsmall.weights]
  exact add_whole hround hadd

theorem remainder_whole {f : CompSpec Number → Number}
    (hf : ∀ s ∈ specs, f s.toNumbers = whole (Whole.alloc total minimum specs s)) (hne : specs ≠ []) :
    (whole total).sub arith (addUp arith ((specs.map CompSpec.toNumbers).map f)) =
      whole (Whole.remainder total minimum specs) := by
  obtain ⟨s, hs⟩ := List.exists_mem_of_ne_nil specs hne
  obtain ⟨-, -, hbound, hsum⟩ := hsmall.alloc_le hweights htotal hs
  have hall : ∀ n ∈ specs.map (Whole.alloc total minimum specs), 0 ≤ n := by
    intro n hn
    obtain ⟨s, hs, rfl⟩ := List.mem_map.mp hn
    exact (hsmall.alloc_le hweights htotal hs).1
  have hle := @Whole.sum_alloc_le total minimum _ (totalWeight_pos hne hweights)
  have hnonneg := List.sum_nonneg hall
  have hmap : (specs.map CompSpec.toNumbers).map f =
      (specs.map (Whole.alloc total minimum specs)).map whole := by
    rw [List.map_map, List.map_map]
    exact List.map_congr_left hf
  rw [hmap, addUp_whole hround hall (by omega)]
  exact sub_whole hround (by rw [abs_of_nonneg] <;> omega)

theorem alloc_add_remainder (hs : s ∈ specs) :
    (whole (Whole.alloc total minimum specs s)).add arith
    (whole (Whole.remainder total minimum specs)) =
      whole (Whole.alloc total minimum specs s + Whole.remainder total minimum specs) := by
  obtain ⟨hnonneg, hle, hbound, -⟩ := hsmall.alloc_le hweights htotal hs
  have hpos := totalWeight_pos (List.ne_nil_of_mem hs) hweights
  have hsum := @Whole.sum_alloc_le total minimum _ hpos
  have hall : ∀ n ∈ specs.map (Whole.alloc total minimum specs), 0 ≤ n := by
    intro n hn
    obtain ⟨s, hs, rfl⟩ := List.mem_map.mp hn
    exact (hsmall.alloc_le hweights htotal hs).1
  have hsingle := List.single_le_sum hall _ (List.mem_map_of_mem hs)
  apply add_whole hround
  unfold Whole.remainder
  rw [abs_of_nonneg] <;> omega

end Refinement

structure Bounded (total : Amounts ℤ) (specs : List (CompSpec ℤ)) : Prop where
  cpu : Small total.cpuMilli Whole.minCpu specs
  memory : Small total.memMi Whole.minMem specs

section Both

variable {arith : Arithmetic} {c : Collation} {total : Amounts ℤ} {specs : List (CompSpec ℤ)}
  (hround : RoundsToNearest arith) (hbounded : Bounded total specs)
include hround hbounded

theorem minima_toNumbers :
    minima arith (specs.map CompSpec.toNumbers) = (Whole.minima specs).toNumbers := by
  have hcpu := addUp_minimum hround hbounded.cpu
  have hmemory := addUp_minimum hround hbounded.memory
  unfold minima
  rw [List.map_map, List.map_map]
  exact congrArg₂ Amounts.mk hcpu hmemory

variable (hweights : ∀ s ∈ specs, 0 < s.weight) (henough : ¬ Whole.Short total specs)
include hweights henough

theorem amounts_toNumbers {t s : CompSpec ℤ} (ht : target c specs = some t) (hs : s ∈ specs) :
    amounts arith c total.toNumbers (specs.map CompSpec.toNumbers) s.toNumbers =
      (Whole.amounts total specs t.name s).toNumbers := by
  obtain ⟨hcpu, hmemory⟩ : (specs.map Whole.minCpu).sum ≤ total.cpuMilli ∧
      (specs.map Whole.minMem).sum ≤ total.memMi := by
    unfold Whole.Short Whole.minima at henough
    dsimp only at henough
    omega
  have hne := List.ne_nil_of_mem hs
  have hpos := totalWeight_pos hne hweights
  have hcpuAlloc : ∀ s ∈ specs, cpuAlloc arith total.toNumbers
    (specs.map CompSpec.toNumbers) s.toNumbers =
      whole (Whole.alloc total.cpuMilli Whole.minCpu specs s) := by
    intro s hs
    unfold cpuAlloc
    rw [minima_toNumbers hround hbounded]
    exact alloc_whole hround hbounded.cpu hweights hcpu hs
  have hmemAlloc : ∀ s ∈ specs, memAlloc arith total.toNumbers
    (specs.map CompSpec.toNumbers) s.toNumbers =
      whole (Whole.alloc total.memMi Whole.minMem specs s) := by
    intro s hs
    unfold memAlloc
    rw [minima_toNumbers hround hbounded]
    exact alloc_whole hround hbounded.memory hweights hmemory hs
  have hcpuRest : cpuRemainder arith total.toNumbers (specs.map CompSpec.toNumbers) =
      whole (Whole.remainder total.cpuMilli Whole.minCpu specs) :=
    remainder_whole hround hbounded.cpu hweights hcpu hcpuAlloc hne
  have hmemRest : memRemainder arith total.toNumbers (specs.map CompSpec.toNumbers) =
      whole (Whole.remainder total.memMi Whole.minMem specs) :=
    remainder_whole hround hbounded.memory hweights hmemory hmemAlloc hne
  have hcpuNonneg : 0 ≤ Whole.remainder total.cpuMilli Whole.minCpu specs := by
    have hle := @Whole.sum_alloc_le total.cpuMilli Whole.minCpu _ hpos
    unfold Whole.remainder
    omega
  have hmemNonneg : 0 ≤ Whole.remainder total.memMi Whole.minMem specs := by
    have hle := @Whole.sum_alloc_le total.memMi Whole.minMem _ hpos
    unfold Whole.remainder
    omega
  have hgt : ∀ n : ℤ, (whole n).gt (.fin 0) = decide (0 < n) := fun n => by
    simpa [whole] using gt_whole n 0
  unfold amounts Whole.amounts Whole.amount addAt
  rw [target_toNumbers, ht]
  simp only [Option.map_some, hcpuAlloc s hs, hmemAlloc s hs, hcpuRest, hmemRest, hgt]
  rw [alloc_add_remainder hround hbounded.cpu hweights hcpu hs,
    alloc_add_remainder hround hbounded.memory hweights hmemory hs]
  by_cases hname : s.name = t.name
  · by_cases hzero : Whole.remainder total.cpuMilli Whole.minCpu specs = 0 ∧
        Whole.remainder total.memMi Whole.minMem specs = 0
    · simp [hname, hzero, Amounts.toNumbers]
    · have hsome : 0 < Whole.remainder total.cpuMilli Whole.minCpu specs ∨
          0 < Whole.remainder total.memMi Whole.minMem specs := by omega
      simp [hname, hsome, Amounts.toNumbers, CompSpec.toNumbers]
  · simp [hname, Amounts.toNumbers, CompSpec.toNumbers]

end Both

/-! ## The budget -/

section Budget

variable {arith : Arithmetic} {c : Collation} {options : AllocationOptions} {total : Budget}
  {t : Amounts ℤ}
  {components components' : List AllocatorComponentInput} {specs specs' : List (CompSpec ℤ)}

theorem names_specsOf {budget : List AllocatorComponentInput}
    (h : specsOf arith options budget = specs.map CompSpec.toNumbers) :
    specs.map CompSpec.name = budget.map AllocatorComponentInput.name := by
  have hnames := congrArg (List.map CompSpec.name) h
  unfold specsOf at hnames
  rw [List.map_map, List.map_map] at hnames
  exact hnames.symm

theorem specsOf_perm {budget budget' : List AllocatorComponentInput} (hperm : budget'.Perm budget)
    (h : specsOf arith options budget = specs.map CompSpec.toNumbers) :
    ∃ specs' : List (CompSpec ℤ), specsOf arith options budget' = specs'.map CompSpec.toNumbers ∧
      specs'.Perm specs := by
  unfold specsOf at h ⊢
  rw [hperm.all_eq]
  rw [← List.forall₂_eq_eq_eq, List.forall₂_map_left_iff, List.forall₂_map_right_iff] at h
  obtain ⟨specs', hall, hspecs⟩ := List.perm_comp_forall₂ hperm h
  refine ⟨specs', ?_, hspecs⟩
  rwa [← List.forall₂_eq_eq_eq, List.forall₂_map_left_iff, List.forall₂_map_right_iff]

def resultOf (arith : Arithmetic) (a : Text × Amounts ℤ) : Text × AllocationResult :=
  (a.1, a.2.toNumbers.result arith)

def allocation (t : Amounts ℤ) (specs : List (CompSpec ℤ)) (name : Text) : List (Text × Amounts ℤ) :=
  specs.map fun s => (s.name, Whole.amounts t specs name s)

theorem allocateResources_cases (hround : RoundsToNearest arith)
    (htwo : 2 ≤ (components.filter bearsBudget).length)
    (ht : toAmounts arith total.cpu total.memory = t.toNumbers)
    (hspecs : specsOf arith options (components.filter bearsBudget) = specs.map CompSpec.toNumbers)
    (hweights : ∀ s ∈ specs, 0 < s.weight) (hbounded : Bounded t specs) {heaviest : CompSpec ℤ}
    (htarget : target c specs = some heaviest) :
    (Whole.Short t specs ∧ ∃ e, allocateResources arith c options total components = .error e) ∨
    (¬ Whole.Short t specs ∧ allocateResources arith c options total components =
      .ok ((allocation t specs heaviest.name).map (resultOf arith))) := by
  have heq : allocateResources arith c options total components =
      allocateSpecs arith c t.toNumbers (specs.map CompSpec.toNumbers) := by
    rw [← ht, ← hspecs]
    unfold allocateResources
    split
    · next h => rw [h] at htwo; cases htwo
    · next h => rw [h, List.length_singleton] at htwo; omega
    · rfl
  rw [heq]
  unfold allocateSpecs
  rw [minima_toNumbers hround hbounded]
  have hgt : ((Whole.minima specs).toNumbers.cpuMilli.gt t.toNumbers.cpuMilli ||
      (Whole.minima specs).toNumbers.memMi.gt t.toNumbers.memMi) = true ↔ Whole.Short t specs := by
    simp [Amounts.toNumbers, gt_whole, Whole.Short]
  by_cases hshort : Whole.Short t specs
  · exact .inl ⟨hshort, _, if_pos (hgt.mpr hshort)⟩
  · refine .inr ⟨hshort, (if_neg (mt hgt.mp hshort)).trans ?_⟩
    unfold allocation
    rw [List.map_map, List.map_map]
    refine congrArg Except.ok (List.map_congr_left fun s hs => ?_)
    change (_, (amounts arith c _ _ s.toNumbers).result arith) = _
    rw [amounts_toNumbers hround hbounded hweights hshort htarget hs]
    rfl

theorem Small.perm {total : ℤ} {minimum : CompSpec ℤ → ℤ} (h : Small total minimum specs)
    (hperm : specs'.Perm specs) : Small total minimum specs' where
  nonneg s hs := h.nonneg s (hperm.mem_iff.mp hs)
  minima := (hperm.map minimum).sum_eq ▸ h.minima
  products s hs := h.products s (hperm.mem_iff.mp hs)
  weights := by
    have hweight : totalWeight specs' = totalWeight specs := (hperm.map _).sum_eq
    exact hweight ▸ h.weights

theorem allocation_perm (hperm : specs'.Perm specs) (name : Text) :
    (allocation t specs' name).Perm (allocation t specs name) := by
  have hamounts : Whole.amounts t specs' name = Whole.amounts t specs name := by
    funext s
    unfold Whole.amounts
    rw [Whole.amount_perm hperm, Whole.amount_perm hperm]
  unfold allocation
  rw [hamounts]
  exact hperm.map _

/-- The allocation of a budget among two components or more whose names are told apart: it fails
just where the minima exceed the budget, it is exact, and it does not depend on the order of the
list. -/
theorem allocateResources_exact (arith : Arithmetic) (hround : RoundsToNearest arith) (c : Collation)
    (options : AllocationOptions) (total : Budget) (components : List AllocatorComponentInput)
    (t : Amounts ℤ) (specs : List (CompSpec ℤ)) (htwo : 2 ≤ (components.filter bearsBudget).length)
    (hnames : ((components.filter bearsBudget).map AllocatorComponentInput.name).Nodup)
    (ht : toAmounts arith total.cpu total.memory = t.toNumbers)
    (hspecs : specsOf arith options (components.filter bearsBudget) = specs.map CompSpec.toNumbers)
    (hweights : ∀ s ∈ specs, 0 < s.weight) (hbounded : Bounded t specs) (happart : NamesApart c specs) :
    ((∃ e, allocateResources arith c options total components = .error e) ↔
      t.cpuMilli < (Whole.minima specs).cpuMilli ∨ t.memMi < (Whole.minima specs).memMi) ∧
    (∀ out, allocateResources arith c options total components = .ok out →
      (∃ amounts : List (Text × Amounts ℤ), out = amounts.map (resultOf arith) ∧
        amounts.map Prod.fst = specs.map CompSpec.name ∧
        (amounts.map fun a => a.2.cpuMilli).sum = t.cpuMilli ∧
        (amounts.map fun a => a.2.memMi).sum = t.memMi ∧
        ∀ s ∈ specs, ∃ a, (s.name, a) ∈ amounts ∧ s.min.cpuMilli ≤ a.cpuMilli ∧ s.min.memMi ≤ a.memMi) ∧
      ∀ components', components'.Perm components →
        ∃ out', allocateResources arith c options total components' = .ok out' ∧ out'.Perm out) := by
  have hlength : (specs.map CompSpec.name).length = (components.filter bearsBudget).length := by
    rw [names_specsOf hspecs, List.length_map]
  have hne : specs ≠ [] := by
    rintro rfl
    rw [List.map_nil, List.length_nil] at hlength
    omega
  have hweight := totalWeight_pos hne hweights
  obtain ⟨heaviest, htarget⟩ := exists_target (c := c) hne
  have hcases := allocateResources_cases hround htwo ht hspecs hweights hbounded htarget
  constructor
  · rcases hcases with ⟨hshort, he⟩ | ⟨hshort, hok⟩
    · exact iff_of_true he hshort
    · exact iff_of_false (by simp [hok]) hshort
  · intro out hout
    rcases hcases with ⟨-, e, he⟩ | ⟨hshort, hok⟩
    · rw [he] at hout
      cases hout
    obtain rfl := Except.ok.inj (hok.symm.trans hout)
    obtain ⟨hcpu, hmemory⟩ : (specs.map Whole.minCpu).sum ≤ t.cpuMilli ∧
        (specs.map Whole.minMem).sum ≤ t.memMi := by
      unfold Whole.Short Whole.minima at hshort
      dsimp only at hshort
      omega
    have hname : heaviest.name ∈ specs.map CompSpec.name := List.mem_map_of_mem (mem_target htarget)
    constructor
    · refine ⟨_, rfl, ?_, ?_, ?_, fun s hs => ?_⟩
      · unfold allocation
        rw [List.map_map]
        rfl
      · unfold allocation
        rw [List.map_map]
        exact Whole.sum_amount (names_specsOf hspecs ▸ hnames) hname
      · unfold allocation
        rw [List.map_map]
        exact Whole.sum_amount (names_specsOf hspecs ▸ hnames) hname
      · exact ⟨_, List.mem_map_of_mem hs, Whole.le_amount hcpu hweight s,
          Whole.le_amount hmemory hweight s⟩
    · intro components' hperm
      obtain ⟨specs', hspecs', hsame⟩ := specsOf_perm (hperm.filter bearsBudget) hspecs
      have htwo' : 2 ≤ (components'.filter bearsBudget).length := by
        rw [(hperm.filter bearsBudget).length_eq]
        exact htwo
      have hne' : specs' ≠ [] := fun h => hne (by simpa [h] using hsame)
      obtain ⟨heaviest', htarget'⟩ := exists_target (c := c) hne'
      have hcases' := allocateResources_cases hround htwo' ht hspecs'
        (fun s hs => hweights s (hsame.mem_iff.mp hs))
        ⟨hbounded.cpu.perm hsame, hbounded.memory.perm hsame⟩
        htarget'
      have hminima : Whole.minima specs' = Whole.minima specs := by
        unfold Whole.minima
        rw [(hsame.map Whole.minCpu).sum_eq, (hsame.map Whole.minMem).sum_eq]
      have hshort' : ¬ Whole.Short t specs' := by
        unfold Whole.Short
        rw [hminima]
        exact hshort
      refine ⟨_, (hcases'.resolve_left fun h => hshort' h.1).2, ?_⟩
      rw [target_perm happart hsame htarget htarget']
      exact (allocation_perm hsame _).map _

end Budget

/-! ### Two components -/

open Quantities (exactArithmetic)

theorem roundsToNearest_exactArithmetic : RoundsToNearest exactArithmetic where
  integer _ _ := rfl
  near q hlow _ := ⟨q, rfl, by
    rw [sub_self, abs_zero, zero_mul]
    exact (by positivity : (0 : ℚ) ≤ 1 / 2 ^ 53).trans hlow⟩

def noDefaults : AllocationOptions := ⟨none, none⟩

def component (name : Text) : AllocatorComponentInput := ⟨name, none, none, none⟩

def oddBudget : Budget := ⟨"101m".toList, "200Mi".toList⟩

def webAndDatabase : List AllocatorComponentInput := [component "web".toList, component "db".toList]

theorem namesApart_asciiCollation (specs : List (CompSpec ℤ)) : NamesApart asciiCollation specs := by
  intro a _ b _ h
  have heq : a.name.map Char.toNat = b.name.map Char.toNat := LawfulEqCmp.eq_of_compare h
  exact List.map_injective_iff.mpr (fun _ _ => Char.toNat_inj.mp) heq

instance (total : ℤ) (minimum : CompSpec ℤ → ℤ) (specs : List (CompSpec ℤ)) :
    Decidable (Small total minimum specs) :=
  decidable_of_iff ((∀ s ∈ specs, 0 ≤ minimum s) ∧ (specs.map minimum).sum < 2 ^ 53 ∧
    (∀ s ∈ specs, total * s.weight < 2 ^ 53) ∧ totalWeight specs < 2 ^ 53)
    ⟨fun ⟨ha, hb, hc, hd⟩ => ⟨ha, hb, hc, hd⟩, fun ⟨ha, hb, hc, hd⟩ => ⟨ha, hb, hc, hd⟩⟩

def webAndDatabaseSpecs : List (CompSpec ℤ) :=
  [⟨"web".toList, 1, ⟨10, 64⟩⟩, ⟨"db".toList, 1, ⟨10, 64⟩⟩]

theorem web_and_database_exact :
    ∃ out, allocateResources exactArithmetic asciiCollation noDefaults oddBudget webAndDatabase =
    .ok out ∧
      out = [("web".toList, ⟨"50m".toList, "100Mi".toList⟩), ("db".toList, ⟨"51m".toList, "100Mi".toList⟩)] ∧
      ∀ components', components'.Perm webAndDatabase →
        ∃ out', allocateResources exactArithmetic asciiCollation noDefaults oddBudget components' =
          .ok out' ∧ out'.Perm out := by
  have hout : allocateResources exactArithmetic asciiCollation noDefaults oddBudget webAndDatabase =
      .ok [("web".toList, ⟨"50m".toList, "100Mi".toList⟩), ("db".toList, ⟨"51m".toList, "100Mi".toList⟩)] := by
    decide +kernel
  have hexact := allocateResources_exact exactArithmetic roundsToNearest_exactArithmetic asciiCollation
    noDefaults oddBudget webAndDatabase ⟨101, 200⟩ webAndDatabaseSpecs (by decide) (by decide)
    (by decide +kernel) (by decide +kernel) (by decide) ⟨by decide +kernel, by decide +kernel⟩
    (namesApart_asciiCollation _)
  exact ⟨_, hout, rfl, (hexact.2 _ hout).2⟩

def compose : Text → Text
  | 'e' :: '\u0301' :: rest => '\u00e9' :: compose rest
  | c :: rest => c :: compose rest
  | [] => []

def composedCollation : Collation where
  localeCompare a b := asciiCollation.localeCompare (compose a) (compose b)
  trans := by
    have := asciiCollation.trans
    exact Versions.transCmp_comap compose asciiCollation.localeCompare

def accented : List AllocatorComponentInput := [component ['\u00e9'], component ['e', '\u0301']]

def integerDoubles : Arithmetic where
  round q :=
    if q.den = 1 then
      match Javascript.toDouble q.num.natAbs with
      | some n => .fin (q.num.sign * n : ℤ)
      | none => Number.infinite (0 < q.num)
    else .fin q
  text := exactArithmetic.text

theorem roundsToNearest_integerDoubles : RoundsToNearest integerDoubles := by
  have hinteger : ∀ n : ℤ, |n| ≤ 2 ^ 53 → integerDoubles.round n = .fin n := by
    intro n hn
    have hle : n.natAbs ≤ 2 ^ 53 := by
      rw [← Int.natCast_natAbs] at hn
      exact_mod_cast hn
    have hdouble : Javascript.toDouble n.natAbs = some n.natAbs := Javascript.double_of_le hle
    unfold integerDoubles
    simp only [Rat.den_intCast, Rat.num_intCast, hdouble, if_true]
    rw [Int.sign_mul_natAbs]
  refine ⟨hinteger, fun q hlow hhigh => ⟨q, ?_, ?_⟩⟩
  · have hpos : 0 < q := (by positivity : (0 : ℚ) < 1 / 2 ^ 53).trans_le hlow
    by_cases hden : q.den = 1
    · obtain ⟨n, rfl⟩ : ∃ n : ℤ, q = n := ⟨q.num, (Rat.den_eq_one_iff q).mp hden |>.symm⟩
      apply hinteger n
      have hn : (0 : ℤ) < n := by exact_mod_cast hpos
      rw [abs_of_pos hn]
      exact_mod_cast hhigh
    · exact if_neg hden
  · rw [sub_self, abs_zero, zero_mul]
    exact (by positivity : (0 : ℚ) ≤ 1 / 2 ^ 53).trans hlow

def hugeBudget : Budget := ⟨"9007199254740992".toList, "200Mi".toList⟩

/-- A web server with a minimum of its own, and a database without one. -/
def unevenComponents : List AllocatorComponentInput :=
  [⟨"web".toList, none, some ⟨1, some "700m".toList, none⟩, none⟩,
    ⟨"db".toList, none, some ⟨1, some "0m".toList, none⟩, none⟩]

def unevenSpecs : List (CompSpec ℤ) := [⟨"web".toList, 1, ⟨700, 64⟩⟩, ⟨"db".toList, 1, ⟨0, 64⟩⟩]

/-- Two names that the locale's order takes for one: the remainder follows the order of the list. A
budget that is no number is divided all the same. And from `2 ^ 53` on the amounts do not add up. -/
theorem remainder_follows_order :
    (¬ ∀ (arith : Arithmetic) (c : Collation) (options : AllocationOptions) (total : Budget)
      (components : List AllocatorComponentInput) (t : Amounts ℤ) (specs : List (CompSpec ℤ)),
      RoundsToNearest arith → 2 ≤ (components.filter bearsBudget).length →
      ((components.filter bearsBudget).map AllocatorComponentInput.name).Nodup →
      toAmounts arith total.cpu total.memory = t.toNumbers →
      specsOf arith options (components.filter bearsBudget) = specs.map CompSpec.toNumbers →
      (∀ s ∈ specs, 0 < s.weight ∧ 0 ≤ s.min.cpuMilli ∧ 0 ≤ s.min.memMi) →
      ∀ components' out, components'.Perm components →
        allocateResources arith c options total components = .ok out →
        ∃ out', allocateResources arith c options total components' = .ok out' ∧ out'.Perm out) ∧
    (¬ ∀ (arith : Arithmetic) (c : Collation) (options : AllocationOptions) (total : Budget)
      (components : List AllocatorComponentInput), RoundsToNearest arith →
      2 ≤ (components.filter bearsBudget).length →
      ∀ out, allocateResources arith c options total components = .ok out →
        ∃ t : Amounts ℤ, toAmounts arith total.cpu total.memory = t.toNumbers) ∧
    ¬ ∀ (arith : Arithmetic) (c : Collation) (options : AllocationOptions) (total : Budget)
      (components : List AllocatorComponentInput) (t : Amounts ℤ) (specs : List (CompSpec ℤ)),
      RoundsToNearest arith → 2 ≤ (components.filter bearsBudget).length →
      toAmounts arith total.cpu total.memory = t.toNumbers →
      specsOf arith options (components.filter bearsBudget) = specs.map CompSpec.toNumbers →
      (∀ s ∈ specs, 0 < s.weight ∧ 0 ≤ s.min.cpuMilli ∧ 0 ≤ s.min.memMi) →
      (∃ out, allocateResources arith c options total components = .ok out) →
        ∃ cpu : List ℤ, cpu.sum = t.cpuMilli ∧ specs.map (fun s =>
          (amounts arith c t.toNumbers (specs.map CompSpec.toNumbers) s.toNumbers).cpuMilli) =
          cpu.map whole := by
  refine ⟨fun h => ?_, fun h => ?_, fun h => ?_⟩
  · have hout : allocateResources exactArithmetic composedCollation noDefaults oddBudget accented =
        .ok [(['\u00e9'], ⟨"51m".toList, "100Mi".toList⟩),
          (['e', '\u0301'], ⟨"50m".toList, "100Mi".toList⟩)] := by decide +kernel
    obtain ⟨out', hout', hperm⟩ := h exactArithmetic composedCollation noDefaults oddBudget accented
      ⟨101, 200⟩ [⟨['\u00e9'], 1, ⟨10, 64⟩⟩, ⟨['e', '\u0301'], 1, ⟨10, 64⟩⟩]
      roundsToNearest_exactArithmetic (by decide) (by decide) (by decide +kernel)
      (by decide +kernel) (by decide) accented.reverse _ (List.reverse_perm accented) hout
    have hreverse : allocateResources exactArithmetic composedCollation noDefaults oddBudget
        accented.reverse = .ok [(['e', '\u0301'], ⟨"51m".toList, "100Mi".toList⟩),
          (['\u00e9'], ⟨"50m".toList, "100Mi".toList⟩)] := by decide +kernel
    obtain rfl := Except.ok.inj (hreverse.symm.trans hout')
    exact absurd (hperm.mem_iff.mp List.mem_cons_self) (by decide)
  · have hout : allocateResources exactArithmetic asciiCollation noDefaults ⟨"abc".toList, "200Mi".toList⟩
        webAndDatabase = .ok [("web".toList, ⟨"NaNm".toList, "100Mi".toList⟩),
          ("db".toList, ⟨"NaNm".toList, "100Mi".toList⟩)] := by decide +kernel
    obtain ⟨t, ht⟩ := h exactArithmetic asciiCollation noDefaults ⟨"abc".toList, "200Mi".toList⟩ webAndDatabase
      roundsToNearest_exactArithmetic (by decide) _ hout
    have hnan : (toAmounts exactArithmetic "abc".toList "200Mi".toList).cpuMilli = .nan := by decide +kernel
    exact absurd ((congrArg Amounts.cpuMilli ht).symm.trans hnan) (fun heq => nomatch heq)
  · obtain ⟨cpu, hsum, hcpu⟩ := h integerDoubles asciiCollation noDefaults hugeBudget unevenComponents
      ⟨9007199254740992000, 200⟩ unevenSpecs roundsToNearest_integerDoubles (by decide)
      (by decide +kernel) (by decide +kernel) (by decide) ⟨[("web".toList, ⟨"4503599627370496000m".toList, "100Mi".toList⟩),
        ("db".toList, ⟨"4503599627370495488m".toList, "100Mi".toList⟩)], by decide +kernel⟩
    have hvalues : unevenSpecs.map (fun s => (amounts integerDoubles asciiCollation
        (⟨9007199254740992000, 200⟩ : Amounts ℤ).toNumbers (unevenSpecs.map CompSpec.toNumbers)
        s.toNumbers).cpuMilli) = [4503599627370496000, 4503599627370495488].map whole := by
      decide +kernel
    have hwhole : Function.Injective whole := fun m n heq => by
      have hcast := Number.fin.inj heq
      exact_mod_cast hcast
    have heq := List.map_injective_iff.mpr hwhole (hvalues.symm.trans hcpu)
    rw [← heq] at hsum
    exact absurd hsum (by decide)

end Insula.ResourceAllocation
