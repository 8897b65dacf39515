import Insula.DependencyOrder
import Insula.HostMigrationRuns
import Insula.LifecycleHooks

/-!
# The order of a transition's hooks

The registry sorts the hooks of a transition by their order and name, and then lets each wait for
the hooks it is declared after. The loop counts for each hook what it still waits for.
-/

namespace Insula.HookOrder

open Std (TransCmp)
open Lifecycle (Hook Kind)
open HostMigrations (Collation asciiCollation)
open DependencyOrder

structure LifecycleHook extends Hook where
  transitions : List Kind
  order : ℚ
  after : List String

structure Registry where
  hooks : List LifecycleHook
  nodup : (hooks.map fun h => h.name).Nodup

inductive LifecycleRegistryError where
  | unknownAfter (hook dep : String) (transition : Kind)
  | cyclicAfter (remaining : List String) (transition : Kind)

def transitionText : Kind → String
  | .active => "active"
  | .suspended => "suspended"
  | .archived => "archived"
  | .restored => "restored"
  | .deleted => "deleted"

def LifecycleRegistryError.message : LifecycleRegistryError → String
  | .unknownAfter hook dep transition => "hook '" ++ hook ++ "' declares after '" ++ dep ++ "' but '" ++ dep ++
      "' isn't registered for transition '" ++ transitionText transition ++ "'"
  | .cyclicAfter remaining transition => "cycle in lifecycle hook 'after' graph for transition '" ++
      transitionText transition ++ "': " ++ ", ".intercalate remaining

def compareHooks (c : Collation) (a b : LifecycleHook) : Ordering :=
  (compare a.order b.order).then (c.localeCompare a.name.toList b.name.toList)

def sortHooks (c : Collation) (hooks : List LifecycleHook) : List LifecycleHook :=
  hooks.insertionSort fun a b => (compareHooks c a b).isLE

def Registry.subset (r : Registry) (transition : Kind) : List LifecycleHook :=
  r.hooks.filter fun h => h.transitions.contains transition

section Loop

variable (c : Collation) (byOrder : List LifecycleHook)

/-- The first `after` that names no hook of the subset. -/
def findUnknown : Option (String × String) :=
  byOrder.findSome? fun h =>
    (h.after.find? fun dep => !(byOrder.map fun x => x.name).contains dep).map fun dep => (h.name, dep)

def adj (next : LifecycleHook) : List LifecycleHook :=
  byOrder.flatMap fun h => List.replicate (h.after.count next.name) h

structure Kahn where
  inDegree : String → ℕ
  ready : List LifecycleHook
  out : List LifecycleHook

def inDegree (name : String) : ℕ := ((byOrder.filter fun h => h.name = name).flatMap fun h =>
    h.after).length

def start : Kahn where
  inDegree := inDegree byOrder
  ready := byOrder.filter fun h => inDegree byOrder h.name = 0
  out := []

def Kahn.release (s : Kahn) (succ : LifecycleHook) : Kahn where
  inDegree := Function.update s.inDegree succ.name (s.inDegree succ.name - 1)
  ready := if s.inDegree succ.name - 1 = 0 then s.ready ++ [succ] else s.ready
  out := s.out

def turn (s : Kahn) : Kahn :=
  match sortHooks c s.ready with
  | [] => s
  | next :: rest => (adj byOrder next).foldl Kahn.release ⟨s.inDegree, rest, s.out ++ [next]⟩

def loop : ℕ → Kahn → Kahn
  | 0, s => s
  | n + 1, s => loop n (turn c byOrder s)

end Loop

def topoSortForTransition (c : Collation) (r : Registry) (transition : Kind) :
    Except LifecycleRegistryError (List LifecycleHook) :=
  let byOrder := sortHooks c (r.subset transition)
  match findUnknown byOrder with
  | some (hook, dep) => .error (.unknownAfter hook dep transition)
  | none =>
    let out := (loop c byOrder byOrder.length (start byOrder)).out
    if out.length ≠ byOrder.length then
      .error (.cyclicAfter ((byOrder.map fun h => h.name).filter fun name =>
        !(out.map fun h => h.name).contains name) transition)
    else .ok out

/-! ## One turn -/

def Waits (h d : LifecycleHook) : Prop := d.name ∈ h.after

def missing (out : List LifecycleHook) (h : LifecycleHook) : ℕ :=
  h.after.countP fun dep => dep ∉ out.map fun x => x.name

def Distinct (hooks : List LifecycleHook) : Prop := (hooks.map fun h => h.name).Nodup

/-- The state of the loop while some hooks are still to be released. -/
structure Inv (byOrder pending : List LifecycleHook) (s : Kahn) : Prop where
  degree : ∀ h ∈ byOrder, s.inDegree h.name =
    missing s.out h + (pending.map fun x => x.name).count h.name
  ready : ∀ h ∈ byOrder, h ∈ s.ready ++ s.out ↔ s.inDegree h.name = 0
  nodup : (s.ready ++ s.out).Nodup
  subset : ∀ h ∈ s.ready ++ s.out, h ∈ byOrder

variable {c : Collation} {byOrder pending out hooks hooks' : List LifecycleHook} {s : Kahn}
  {h : LifecycleHook}

theorem Distinct.eq (h : Distinct byOrder) {a b : LifecycleHook} (ha : a ∈ byOrder) (hb : b ∈ byOrder)
    (heq : a.name = b.name) : a = b := List.inj_on_of_nodup_map h ha hb heq

theorem inv_release (hdistinct : Distinct byOrder) {x : LifecycleHook} (hx : x ∈ byOrder)
    (h : Inv byOrder (x :: pending) s) : Inv byOrder pending (s.release x) := by
  have hdegree := h.degree x hx
  rw [List.map_cons, List.count_cons_self] at hdegree
  have hnot : x ∉ s.ready ++ s.out := fun hmem => by
    have := (h.ready x hx).mp hmem
    omega
  have hother : ∀ y ∈ byOrder, y ≠ x → (s.release x).inDegree y.name = s.inDegree y.name := by
    intro y hy hne
    exact Function.update_of_ne (fun heq => hne (hdistinct.eq hy hx heq)) _ _
  have hself : (s.release x).inDegree x.name = s.inDegree x.name - 1 := Function.update_self _ _ _
  have hmem : ∀ y, y ∈ (s.release x).ready ++ (s.release x).out ↔
      y ∈ s.ready ++ s.out ∨ (y = x ∧ s.inDegree x.name - 1 = 0) := by
    intro y
    unfold Kahn.release
    split_ifs with hzero
    · simp only [List.mem_append, List.mem_singleton, hzero, and_true]
      tauto
    · simp [hzero]
  refine ⟨fun y hy => ?_, fun y hy => ?_, ?_, fun y hy => ?_⟩
  · by_cases hyx : y = x
    · subst hyx
      rw [hself, hdegree]
      simp [Kahn.release]
    · rw [hother y hy hyx, h.degree y hy, List.map_cons,
        List.count_cons_of_ne fun heq => hyx (hdistinct.eq hy hx heq.symm)]
      rfl
  · rw [hmem]
    by_cases hyx : y = x
    · subst hyx
      rw [hself]
      tauto
    · rw [hother y hy hyx, ← h.ready y hy]
      tauto
  · unfold Kahn.release
    split_ifs
    · have hperm : (s.ready ++ [x] ++ s.out).Perm (x :: (s.ready ++ s.out)) := by
        rw [List.append_assoc]
        exact List.perm_middle
      exact hperm.nodup_iff.mpr (List.nodup_cons.mpr ⟨hnot, h.nodup⟩)
    · exact h.nodup
  · rcases (hmem y).mp hy with hy | ⟨rfl, -⟩
    · exact h.subset y hy
    · exact hx

theorem inv_foldl_release (hdistinct : Distinct byOrder) (hpending : ∀ x ∈ pending, x ∈ byOrder)
    (h : Inv byOrder pending s) : Inv byOrder [] (pending.foldl Kahn.release s) := by
  induction pending generalizing s with
  | nil => exact h
  | cons x pending ih =>
    exact ih (fun y hy => hpending y (List.mem_cons_of_mem _ hy))
      (inv_release hdistinct (hpending x List.mem_cons_self) h)

theorem out_foldl_release (pending : List LifecycleHook) (s : Kahn) :
    (pending.foldl Kahn.release s).out = s.out := by
  induction pending generalizing s with
  | nil => rfl
  | cons x pending ih => exact ih (s.release x)

theorem mem_adj {next x : LifecycleHook} (h : x ∈ adj byOrder next) : x ∈ byOrder := by
  obtain ⟨y, hy, hx⟩ := List.mem_flatMap.mp h
  exact (List.eq_of_mem_replicate hx) ▸ hy

theorem count_adj (hdistinct : Distinct byOrder) (next : LifecycleHook) (hh : h ∈ byOrder) :
    ((adj byOrder next).map fun x => x.name).count h.name = h.after.count next.name := by
  unfold adj
  induction byOrder with
  | nil => simp at hh
  | cons x byOrder ih =>
    obtain ⟨hx, hrest⟩ := List.nodup_cons.mp hdistinct
    rw [List.flatMap_cons, List.map_append, List.count_append, List.map_replicate]
    rcases List.mem_cons.mp hh with rfl | hh
    · have hzero : List.count h.name ((byOrder.flatMap fun y =>
          List.replicate (y.after.count next.name) y).map fun y => y.name) = 0 := by
        refine List.count_eq_zero.mpr fun hmem => hx ?_
        obtain ⟨y, hy, heq⟩ := List.mem_map.mp hmem
        exact List.mem_map.mpr ⟨y, mem_adj hy, heq⟩
      rw [hzero, List.count_replicate_self, add_zero]
    · have hne : x.name ≠ h.name := fun heq => hx (List.mem_map.mpr ⟨h, hh, heq.symm⟩)
      rw [ih hrest hh, List.count_replicate, if_neg (by simpa using hne), zero_add]

theorem missing_snoc {next : LifecycleHook} (hnext : next.name ∉ out.map fun x => x.name)
    (h : LifecycleHook) : missing out h = missing (out ++ [next]) h + h.after.count next.name := by
  unfold missing
  induction h.after with
  | nil => rfl
  | cons dep after ih =>
    rw [List.countP_cons, List.countP_cons, List.count_cons, ih]
    by_cases hdep : dep = next.name
    · subst hdep
      simp [hnext]
      omega
    · simp [hdep]
      omega

/-! ## The whole loop -/

instance (c : Collation) : TransCmp (compareHooks c) := by
  have := c.trans
  have := Versions.transCmp_comap (fun h : LifecycleHook => h.name.toList) c.localeCompare
  exact inferInstanceAs (TransCmp (compareLex (compareOn LifecycleHook.order)
    fun a b : LifecycleHook => c.localeCompare a.name.toList b.name.toList))

/-- `a` does not come after `b`. -/
def Before (c : Collation) (a b : LifecycleHook) : Prop := (compareHooks c a b).isLE

theorem pairwise_sortHooks (c : Collation) (hooks : List LifecycleHook) :
    (sortHooks c hooks).Pairwise (Before c) := by
  have htotal : Std.Total fun a b => (compareHooks c a b).isLE = true := ⟨fun a b => by
    have hswap : compareHooks c b a = (compareHooks c a b).swap := Std.OrientedCmp.eq_swap
    rw [hswap]
    cases compareHooks c a b <;> simp⟩
  have htrans : IsTrans LifecycleHook fun a b => (compareHooks c a b).isLE = true :=
    ⟨fun _ _ _ => TransCmp.isLE_trans⟩
  exact List.pairwise_insertionSort (fun a b => (compareHooks c a b).isLE = true) hooks

theorem perm_sortHooks (c : Collation) (hooks : List LifecycleHook) : (sortHooks c hooks).Perm hooks :=
  List.perm_insertionSort _ hooks

theorem inDegree_eq (hdistinct : Distinct byOrder) (hh : h ∈ byOrder) :
    inDegree byOrder h.name = h.after.length := by
  have hfilter : (byOrder.filter fun x => x.name = h.name).Perm [h] := by
    refine (List.perm_ext_iff_of_nodup (List.Nodup.filter _ (List.Nodup.of_map _ hdistinct))
      (List.nodup_singleton h)).mpr fun x => ?_
    simp only [List.mem_filter, decide_eq_true_eq, List.mem_singleton]
    refine ⟨fun hx => hdistinct.eq hx.1 hh hx.2, ?_⟩
    rintro rfl
    exact ⟨hh, rfl⟩
  unfold inDegree
  rw [(hfilter.flatMap_right _).length_eq]
  simp

theorem inv_start (hdistinct : Distinct byOrder) : Inv byOrder [] (start byOrder) where
  degree h hh := by
    simp only [start, inDegree_eq hdistinct hh, missing, List.map_nil, List.not_mem_nil,
      not_false_eq_true, decide_true, List.countP_true, List.count_nil, add_zero]
  ready h hh := by simp [start, hh]
  nodup := by
    simp only [start, List.append_nil]
    exact List.Nodup.filter _ (List.Nodup.of_map _ hdistinct)
  subset h hh := by
    simp only [start, List.append_nil] at hh
    exact List.mem_of_mem_filter hh

/-- Every `after` names a hook of the subset. -/
def Known (byOrder : List LifecycleHook) : Prop :=
  ∀ h ∈ byOrder, ∀ dep ∈ h.after, dep ∈ byOrder.map fun x => x.name

theorem missing_eq_zero_iff :
    missing out h = 0 ↔ ∀ dep ∈ h.after, dep ∈ out.map fun x => x.name := by
  unfold missing
  rw [List.countP_eq_zero]
  simp only [decide_eq_true_eq, not_not]

theorem Inv.mem_ready_iff (h : Inv byOrder [] s) (hdistinct : Distinct byOrder) (hknown : Known byOrder)
    (x : LifecycleHook) : x ∈ s.ready ↔ Free byOrder Waits s.out x := by
  have hdegree : ∀ y ∈ byOrder, s.inDegree y.name = missing s.out y := by
    intro y hy
    simpa using h.degree y hy
  constructor
  · intro hx
    have hmem := h.subset x (List.mem_append_left _ hx)
    refine ⟨hmem, List.disjoint_of_nodup_append h.nodup hx, fun y hy hwaits => ?_⟩
    have hzero := (h.ready x hmem).mp (List.mem_append_left _ hx)
    rw [hdegree x hmem, missing_eq_zero_iff] at hzero
    obtain ⟨z, hz, heq⟩ := List.mem_map.mp (hzero y.name hwaits)
    exact hdistinct.eq (h.subset z (List.mem_append_right _ hz)) hy heq ▸ hz
  · rintro ⟨hmem, hnot, hwaited⟩
    have hzero : missing s.out x = 0 := by
      refine missing_eq_zero_iff.mpr fun dep hdep => ?_
      obtain ⟨y, hy, rfl⟩ := List.mem_map.mp (hknown x hmem dep hdep)
      exact List.mem_map.mpr ⟨y, hwaited y hy hdep, rfl⟩
    rw [← hdegree x hmem, ← h.ready x hmem] at hzero
    exact (List.mem_append.mp hzero).resolve_right hnot

theorem turn_spec (hdistinct : Distinct byOrder) (hknown : Known byOrder) (h : Inv byOrder [] s)
    (hpicks : Picks byOrder Waits (Before c) s.out) :
    Inv byOrder [] (turn c byOrder s) ∧ Picks byOrder Waits (Before c) (turn c byOrder s).out ∧
      (s.ready = [] ∧ turn c byOrder s = s ∨ (turn c byOrder s).out.length = s.out.length + 1) := by
  have hsorted := pairwise_sortHooks c s.ready
  have hperm := perm_sortHooks c s.ready
  unfold turn
  cases hready : sortHooks c s.ready with
  | nil =>
    rw [hready] at hperm
    exact ⟨h, hpicks, Or.inl ⟨hperm.nil_eq.symm, rfl⟩⟩
  | cons next rest =>
    rw [hready] at hperm hsorted
    have hnext : next ∈ s.ready := hperm.mem_iff.mp List.mem_cons_self
    have hfree := (h.mem_ready_iff hdistinct hknown next).mp hnext
    have hout : ∀ x ∈ s.out, x ∈ byOrder := fun x hx => h.subset x (List.mem_append_right _ hx)
    have hname : next.name ∉ s.out.map fun x => x.name := by
      intro hmem
      obtain ⟨x, hx, heq⟩ := List.mem_map.mp hmem
      exact hfree.notDone (hdistinct.eq (hout x hx) hfree.mem heq ▸ hx)
    have hmoved : (rest ++ (s.out ++ [next])).Perm (s.ready ++ s.out) := by
      calc (rest ++ (s.out ++ [next])).Perm (rest ++ (next :: s.out)) :=
            List.Perm.append_left rest (List.perm_append_singleton next s.out)
        _ |>.Perm (next :: rest ++ s.out) := List.perm_middle
        _ |>.Perm (s.ready ++ s.out) := hperm.append_right s.out
    have hinv : Inv byOrder (adj byOrder next) ⟨s.inDegree, rest, s.out ++ [next]⟩ := by
      refine ⟨fun x hx => ?_, fun x hx => ?_, ?_, fun x hx => ?_⟩
      · have hdegree : s.inDegree x.name = missing s.out x := by simpa using h.degree x hx
        rw [count_adj hdistinct next hx, ← missing_snoc hname x, hdegree]
      · rw [← h.ready x hx]
        exact hmoved.mem_iff
      · exact hmoved.nodup_iff.mpr h.nodup
      · exact h.subset x (hmoved.mem_iff.mp hx)
    refine ⟨inv_foldl_release hdistinct (fun x hx => mem_adj hx) hinv, ?_, Or.inr ?_⟩
    · rw [out_foldl_release]
      refine hpicks.snoc hfree fun x hx => ?_
      have hmem := hperm.mem_iff.mpr ((h.mem_ready_iff hdistinct hknown x).mpr hx)
      rcases List.mem_cons.mp hmem with rfl | hmem
      · simp [Before, Std.ReflCmp.compare_self]
      · exact List.rel_of_pairwise_cons hsorted hmem
    · rw [out_foldl_release, List.length_append, List.length_singleton]

theorem loop_spec (hdistinct : Distinct byOrder) (hknown : Known byOrder) (n : ℕ) (h : Inv byOrder [] s)
    (hpicks : Picks byOrder Waits (Before c) s.out) :
    Inv byOrder [] (loop c byOrder n s) ∧ Picks byOrder Waits (Before c) (loop c byOrder n s).out ∧
      ((loop c byOrder n s).ready = [] ∨ (loop c byOrder n s).out.length = s.out.length + n) := by
  induction n generalizing s with
  | zero => exact ⟨h, hpicks, Or.inr rfl⟩
  | succ n ih =>
    obtain ⟨hinv, hturn, hcase⟩ := turn_spec hdistinct hknown h hpicks
    obtain ⟨hinv', hpicks', hended⟩ := ih hinv hturn
    refine ⟨hinv', hpicks', ?_⟩
    rcases hcase with ⟨hready, hstay⟩ | hlength
    · have hstays : ∀ k, loop c byOrder k s = s := by
        intro k
        induction k with
        | zero => rfl
        | succ k ihk => rw [loop, hstay, ihk]
      exact Or.inl (by rw [hstays, hready])
    · exact hended.imp_right fun hlong => by
        rw [loop, hlong, hlength]
        omega

/-- After as many turns as there are hooks nothing is ready any more. -/
theorem loop_ends (hdistinct : Distinct byOrder) (hknown : Known byOrder) :
    Picks byOrder Waits (Before c) (loop c byOrder byOrder.length (start byOrder)).out ∧
      ∀ x, ¬ Free byOrder Waits (loop c byOrder byOrder.length (start byOrder)).out x := by
  obtain ⟨hinv, hpicks, hended⟩ :=
    loop_spec (c := c) hdistinct hknown byOrder.length (inv_start hdistinct) Picks.nil
  refine ⟨hpicks, fun x hx => ?_⟩
  have hready := (hinv.mem_ready_iff hdistinct hknown x).mpr hx
  rcases hended with hempty | hlength
  · rw [hempty] at hready
    exact List.not_mem_nil hready
  · have hle := (List.subperm_of_subset hinv.nodup hinv.subset).length_le
    have hpos := List.length_pos_of_mem hready
    rw [List.length_append, hlength] at hle
    omega

/-! ## The result -/

theorem findUnknown_eq_none_iff : findUnknown byOrder = none ↔ Known byOrder := by
  unfold findUnknown Known
  simp

variable {r : Registry} {transition : Kind}

theorem distinct_subset (r : Registry) (transition : Kind) : Distinct (r.subset transition) :=
  r.nodup.sublist (List.Sublist.map _ List.filter_sublist)

/-- Distinct hooks of the transition are told apart by their order and name. -/
def Untied (c : Collation) (hooks : List LifecycleHook) : Prop :=
  ∀ a ∈ hooks, ∀ b ∈ hooks, compareHooks c a b = .eq → a = b

theorem sortHooks_perm (happart : Untied c hooks) (hperm : hooks'.Perm hooks) :
    sortHooks c hooks' = sortHooks c hooks := by
  have hsame := ((perm_sortHooks c hooks').trans hperm).trans (perm_sortHooks c hooks).symm
  refine hsame.eq_of_pairwise (fun a b ha hb hab hba => ?_) (pairwise_sortHooks c hooks')
    (pairwise_sortHooks c hooks)
  refine happart a (((perm_sortHooks c hooks').trans hperm).mem_iff.mp ha) b
    ((perm_sortHooks c hooks).mem_iff.mp hb) ?_
  unfold Before at hab hba
  have hswap : compareHooks c b a = (compareHooks c a b).swap := Std.OrientedCmp.eq_swap
  rw [hswap] at hba
  cases hcompare : compareHooks c a b <;> simp_all

/-- Each hook stands in the relation to every other hook that could have come in its place. -/
def EachAgainst (R : LifecycleHook → LifecycleHook → Prop) (hooks out : List LifecycleHook) : Prop :=
  ∀ front h back, out = front ++ h :: back → ∀ x ∈ hooks, x ∉ front → x ≠ h →
    (∀ dep ∈ x.after, dep ∈ front.map fun y => y.name) → R h x

/-- What is asked of an order of the hooks: all of them, each after the hooks it is declared after,
and none of those that could have come in its place before it. -/
structure Ordered (c : Collation) (hooks out : List LifecycleHook) : Prop where
  perm : out.Perm hooks
  after : ∀ front h back, out = front ++ h :: back → ∀ dep ∈ h.after, dep ∈ front.map fun x => x.name
  least : EachAgainst (fun h x => (compareHooks c h x).isLE) hooks out

/-- Where hooks are told apart, each comes strictly before those that could have come in its
place. -/
theorem Ordered.strict (h : Ordered c hooks out) (happart : Untied c hooks) :
    EachAgainst (fun h x => compareHooks c h x = .lt) hooks out := by
  intro front next back heq x hx hnot hne hdone
  have hle : (compareHooks c next x).isLE := h.least front next back heq x hx hnot hne hdone
  have hnext : next ∈ hooks := h.perm.mem_iff.mp (by simp [heq])
  have happart := happart next hnext x hx
  cases hcompare : compareHooks c next x with
  | lt => rfl
  | eq => exact absurd (happart hcompare).symm hne
  | gt =>
    rw [hcompare] at hle
    exact absurd hle (by decide)

def CyclicAfter (hooks : List LifecycleHook) : Prop := DependencyOrder.Cyclic hooks Waits

theorem cyclic_perm (hperm : hooks'.Perm hooks) : CyclicAfter hooks' ↔ CyclicAfter hooks := by
  have hedge : Edge hooks' Waits = Edge hooks Waits := by
    funext x y
    simp only [Edge, hperm.mem_iff]
  unfold CyclicAfter Cyclic
  rw [hedge]

theorem known_perm (hperm : hooks'.Perm hooks) : Known hooks' ↔ Known hooks := by
  unfold Known
  simp only [hperm.mem_iff, (hperm.map fun x => x.name).mem_iff]

theorem Ordered.of_picks (hbyOrder : byOrder.Perm hooks) (hdistinct : Distinct byOrder)
    (hknown : Known byOrder) (hpicks : Picks byOrder Waits (Before c) out)
    (hlength : out.length = byOrder.length) : Ordered c hooks out where
  perm := ((List.subperm_of_subset hpicks.nodup hpicks.subset).perm_of_length_le hlength.ge).trans
    hbyOrder
  after front h back heq dep hdep := by
    obtain ⟨hfree, -⟩ := hpicks.split heq
    obtain ⟨y, hy, rfl⟩ := List.mem_map.mp (hknown h hfree.mem dep hdep)
    exact List.mem_map.mpr ⟨y, hfree.waited y hy hdep, rfl⟩
  least front h back heq x hx hnot _ hdone := by
    obtain ⟨hfree, hleast⟩ := hpicks.split heq
    have hfront : ∀ y ∈ front, y ∈ byOrder := by
      intro y hy
      exact hpicks.subset y (by simp [heq, hy])
    have hx' : Free byOrder Waits front x := by
      refine ⟨hbyOrder.mem_iff.mpr hx, hnot, fun y hy hwaits => ?_⟩
      obtain ⟨z, hz, hname⟩ := List.mem_map.mp (hdone y.name hwaits)
      exact hdistinct.eq (hfront z hz) hy hname ▸ hz
    exact hleast x hx'

/-- The three ways in which it ends. -/
theorem topoSortForTransition_cases (c : Collation) (r : Registry) (transition : Kind) :
    (¬ Known (r.subset transition) ∧
      ∃ hook dep, topoSortForTransition c r transition = .error (.unknownAfter hook dep transition)) ∨
    ((Known (r.subset transition) ∧ CyclicAfter (r.subset transition)) ∧
      ∃ remaining, topoSortForTransition c r transition = .error (.cyclicAfter remaining transition)) ∨
    ((Known (r.subset transition) ∧ ¬ CyclicAfter (r.subset transition)) ∧
      ∃ out, topoSortForTransition c r transition = .ok out ∧ Ordered c (r.subset transition) out) := by
  have hperm := perm_sortHooks c (r.subset transition)
  have hdistinct : Distinct (sortHooks c (r.subset transition)) :=
    (hperm.map fun h : LifecycleHook => h.name).nodup_iff.mpr (distinct_subset r transition)
  rw [← known_perm hperm, ← cyclic_perm hperm]
  unfold topoSortForTransition
  generalize sortHooks c (r.subset transition) = byOrder at hperm hdistinct
  dsimp only
  cases hunknown : findUnknown byOrder with
  | some unknown =>
    have hnot : ¬ Known byOrder := by
      rw [← findUnknown_eq_none_iff, hunknown]
      exact Option.some_ne_none unknown
    exact Or.inl ⟨hnot, unknown.1, unknown.2, rfl⟩
  | none =>
    have hknown := findUnknown_eq_none_iff.mp hunknown
    obtain ⟨hpicks, hstuck⟩ := loop_ends (c := c) hdistinct hknown
    have hlength := hpicks.length_eq_iff (List.Nodup.of_map _ hdistinct) hstuck
    by_cases hcyclic : CyclicAfter byOrder
    · exact Or.inr (Or.inl ⟨⟨hknown, hcyclic⟩, _, if_pos fun heq => hlength.mp heq hcyclic⟩)
    · have heq := hlength.mpr hcyclic
      exact Or.inr (Or.inr ⟨⟨hknown, hcyclic⟩, _, if_neg (not_not.mpr heq),
        Ordered.of_picks hperm hdistinct hknown hpicks heq⟩)

/-- The hooks of a transition are put in order, or an error says why they cannot be. Where names of
hooks of one order are told apart, the order is the same for every order of registration. -/
theorem topoSortForTransition_spec (c : Collation) (r : Registry) (transition : Kind) :
    (∀ out, topoSortForTransition c r transition = .ok out → Ordered c (r.subset transition) out) ∧
    ((∃ hook dep, topoSortForTransition c r transition = .error (.unknownAfter hook dep transition)) ↔
      ¬ Known (r.subset transition)) ∧
    ((∃ remaining, topoSortForTransition c r transition = .error (.cyclicAfter remaining transition)) ↔
      Known (r.subset transition) ∧ CyclicAfter (r.subset transition)) ∧
    (Untied c (r.subset transition) →
      (∀ out, topoSortForTransition c r transition = .ok out →
        EachAgainst (fun h x => compareHooks c h x = .lt) (r.subset transition) out) ∧
      ∀ r' : Registry, r'.hooks.Perm r.hooks →
        topoSortForTransition c r' transition = topoSortForTransition c r transition) := by
  have hsame : Untied c (r.subset transition) → ∀ r' : Registry, r'.hooks.Perm r.hooks →
      topoSortForTransition c r' transition = topoSortForTransition c r transition := by
    intro happart r' hr'
    have hsubset : (r'.subset transition).Perm (r.subset transition) := hr'.filter _
    unfold topoSortForTransition
    rw [sortHooks_perm happart hsubset]
  rcases topoSortForTransition_cases c r transition with
    ⟨hunknown, hook, dep, heq⟩ | ⟨⟨hknown, hcyclic⟩, remaining, heq⟩ |
    ⟨⟨hknown, hcyclic⟩, out, heq, hordered⟩
  · exact ⟨by simp [heq], by simp [heq, hunknown], by simp [heq, hunknown],
      fun happart => ⟨by simp [heq], hsame happart⟩⟩
  · exact ⟨by simp [heq], by simp [heq, hknown], by simp [heq, hknown, hcyclic],
      fun happart => ⟨by simp [heq], hsame happart⟩⟩
  · refine ⟨by simpa [heq] using hordered, by simp [heq, hknown], by simp [heq, hcyclic],
      fun happart => ⟨fun out' hout' => ?_, hsame happart⟩⟩
    obtain rfl := Except.ok.inj (heq.symm.trans hout')
    exact hordered.strict happart

/-! ## Registries -/

theorem untied_asciiCollation (h : Distinct hooks) : Untied asciiCollation hooks := by
  intro a ha b hb heq
  have hname := (Ordering.then_eq_eq.mp heq).2
  have hcodes : a.name.toList.map Char.toNat = b.name.toList.map Char.toNat :=
    Std.LawfulEqCmp.eq_of_compare hname
  exact h.eq ha hb (String.toList_injective
    (List.map_injective_iff.mpr (fun _ _ => Char.toNat_inj.mp) hcodes))

def hook (name : String) (order : ℚ) (after : List String) : LifecycleHook :=
  ⟨⟨name, .abort, none, none⟩, [.active], order, after⟩

def resumeHooks : Registry where
  hooks := [hook "workloads" 100 ["volumes"], hook "ingress" 200 [], hook "volumes" 300 []]
  nodup := by decide

theorem resumeHooks_ordered : ∃ out, topoSortForTransition asciiCollation resumeHooks .active =
    .ok out ∧
    out.map (fun h => h.name) = ["ingress", "volumes", "workloads"] ∧
      Ordered asciiCollation (resumeHooks.subset .active) out ∧
        EachAgainst (fun h x => compareHooks asciiCollation h x = .lt)
        (resumeHooks.subset .active) out := by
  obtain ⟨hordered, -, -, hapart⟩ := topoSortForTransition_spec asciiCollation resumeHooks .active
  exact ⟨_, rfl, rfl, hordered _ rfl, (hapart (untied_asciiCollation (distinct_subset _ _))).1 _ rfl⟩

def cyclicHooks : Registry where
  hooks := [hook "ingress" 100 ["volumes"], hook "volumes" 200 ["ingress", "mail"]]
  nodup := by decide

def decomposed (s : List Char) : List Char :=
  s.flatMap fun ch => if ch = 'é' then ['e', '\u0301'] else [ch]

def decomposingCollation : Collation where
  localeCompare a b := asciiCollation.localeCompare (decomposed a) (decomposed b)
  trans := by
    have := asciiCollation.trans
    exact Versions.transCmp_comap decomposed asciiCollation.localeCompare

def accented : Registry where
  hooks := [hook "réseau" 100 [], hook "re\u0301seau" 100 []]
  nodup := by decide

def accentedBack : Registry where
  hooks := [hook "re\u0301seau" 100 [], hook "réseau" 100 []]
  nodup := by decide

/-- A cycle is reported as an unknown hook, and names that compare as equal keep the order in which
they were registered. -/
theorem cycle_reported_unknown :
    (¬ ∀ (c : Collation) (r : Registry) (transition : Kind),
      (∃ remaining, topoSortForTransition c r transition = .error (.cyclicAfter remaining transition)) ↔
        CyclicAfter (r.subset transition)) ∧
    ¬ ∀ (c : Collation) (r r' : Registry) (transition : Kind), r'.hooks.Perm r.hooks →
      topoSortForTransition c r' transition = topoSortForTransition c r transition := by
  constructor
  · intro h
    have hcyclic : CyclicAfter (cyclicHooks.subset .active) := by
      refine ⟨hook "ingress" 100 ["volumes"], Relation.TransGen.tail (Relation.TransGen.single
        (b := hook "volumes" 200 ["ingress", "mail"]) ?_) ?_⟩
      · exact ⟨by simp [cyclicHooks, Registry.subset, hook],
          by simp [cyclicHooks, Registry.subset, hook], by simp [Waits, hook]⟩
      · exact ⟨by simp [cyclicHooks, Registry.subset, hook],
          by simp [cyclicHooks, Registry.subset, hook], by simp [Waits, hook]⟩
    obtain ⟨remaining, hremaining⟩ := (h asciiCollation cyclicHooks .active).mpr hcyclic
    have hunknown : topoSortForTransition asciiCollation cyclicHooks .active =
        .error (.unknownAfter "volumes" "mail" .active) := rfl
    rw [hunknown] at hremaining
    cases hremaining
  · intro h
    have hsame := h decomposingCollation accented accentedBack .active (List.Perm.swap _ _ [])
    have hnames : (topoSortForTransition decomposingCollation accentedBack .active).toOption.map
        (fun out => out.map fun h => h.name) = some ["re\u0301seau", "réseau"] := by decide
    rw [hsame] at hnames
    exact absurd hnames (by decide)

end Insula.HookOrder
