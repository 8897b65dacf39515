import Mathlib.Data.List.Perm.Basic

/-!
# Intervals as marks

An interval is written as two elements, a mark where it opens and a mark where it ends, or as one
element with both keys. The reader goes over the elements once and remembers the last opening mark.
-/

namespace Insula.IntervalMarks

structure Element (K : Type*) where
  key : K
  keyEnd : Option K
  intervalEnd : Bool
  deriving DecidableEq

variable {K A O : Type*} (parse : K → Option A) (emit : A → A → Option O) (encode : A → K)

def decode (pending : Option A) : List (Element K) → List O
  | [] => []
  | e :: rest =>
    if e.intervalEnd then
      match pending with
      | none => decode none rest
      | some start => ((parse e.key).bind (emit start)).toList ++ decode none rest
    else
      match e.keyEnd with
      | none => decode (parse e.key) rest
      | some keyEnd =>
        ((parse e.key).bind fun start => (parse keyEnd).bind (emit start)).toList ++ decode none rest

def opening (a : A) : Element K := { key := encode a, keyEnd := none, intervalEnd := false }

def ending (a : A) : Element K := { key := encode a, keyEnd := none, intervalEnd := true }

def marks (i : A × A) : List (Element K) := [opening encode i.1, ending encode i.2]

def whole (i : A × A) : Element K :=
  { key := encode i.1, keyEnd := some (encode i.2), intervalEnd := false }

def Readable (i : A × A) : Prop := parse (encode i.1) = some i.1 ∧ parse (encode i.2) = some i.2

variable {parse emit encode} {ι : Type*} {e : Element K} {rest elems : List (Element K)}
  {is : List (A × A)} {l : List ι}

/-! ## Steps of the reader -/

theorem decode_opening (pending : Option A) (hkey : e.keyEnd = none)
    (hend : e.intervalEnd = false) :
    decode parse emit pending (e :: rest) = decode parse emit (parse e.key) rest := by
  conv_lhs => unfold decode
  simp only [hend, hkey, Bool.false_eq_true, if_false]

theorem decode_ending_none (hend : e.intervalEnd = true) :
    decode parse emit none (e :: rest) = decode parse emit none rest := by
  rw [decode.eq_def]
  simp only [hend, if_true]

theorem decode_ending_some (start : A) (hend : e.intervalEnd = true) :
    decode parse emit (some start) (e :: rest) =
      ((parse e.key).bind (emit start)).toList ++ decode parse emit none rest := by
  rw [decode.eq_def]
  simp only [hend, if_true]

theorem filterMap_toList {α : Type*} (f : α → Option O) (a : α) (l : List α) :
    (a :: l).filterMap f = (f a).toList ++ l.filterMap f := by
  rw [List.filterMap_cons]
  cases f a with
  | none => rfl
  | some o => rfl

/-! ## Elements in pairs -/

theorem decode_whole (hread : ∀ i ∈ is, Readable parse encode i) :
    decode parse emit none (is.map (whole encode)) = is.filterMap fun i => emit i.1 i.2 := by
  induction is with
  | nil => rfl
  | cons i is ih =>
    obtain ⟨hstart, hend⟩ := hread i List.mem_cons_self
    have hrest := ih fun j hj => hread j (List.mem_cons_of_mem _ hj)
    rw [List.map_cons, filterMap_toList, ← hrest]
    conv_lhs => unfold decode
    simp only [whole, hstart, hend, Option.bind_some, Bool.false_eq_true, if_false]

theorem decode_marks (hread : ∀ i ∈ is, Readable parse encode i) :
    decode parse emit none (is.flatMap (marks encode)) = is.filterMap fun i => emit i.1 i.2 := by
  induction is with
  | nil => rfl
  | cons i is ih =>
    obtain ⟨hstart, hend⟩ := hread i List.mem_cons_self
    have hrest := ih fun j hj => hread j (List.mem_cons_of_mem _ hj)
    have hopen : parse (opening encode i.1).key = some i.1 := hstart
    have hclose : parse (ending encode i.2).key = some i.2 := hend
    rw [List.flatMap_cons, filterMap_toList, ← hrest]
    unfold marks
    rw [List.cons_append, List.cons_append, List.nil_append, decode_opening none rfl rfl, hopen,
      decode_ending_some i.1 rfl, hclose, Option.bind_some]

/-! ## Elements in any order -/

/-- A mark, and not an element with both keys. -/
def Mark (parse : K → Option A) (encode : A → K) (e : Element K) : Prop :=
  e.keyEnd = none ∧ ∃ a, e.key = encode a ∧ parse (encode a) = some a

def opens (e : Element K) : Bool := !e.intervalEnd

def ends (e : Element K) : Bool := e.intervalEnd

theorem count_opening (rest : List (Element K)) (hend : e.intervalEnd = false) :
    (e :: rest).countP opens = rest.countP opens + 1 ∧ (e :: rest).countP ends = rest.countP ends := by
  rw [List.countP_cons_of_pos (by simp [opens, hend]), List.countP_cons_of_neg (by simp [ends, hend])]
  exact ⟨rfl, rfl⟩

theorem count_ending (rest : List (Element K)) (hend : e.intervalEnd = true) :
    (e :: rest).countP opens = rest.countP opens ∧ (e :: rest).countP ends = rest.countP ends + 1 := by
  rw [List.countP_cons_of_neg (by simp [opens, hend]), List.countP_cons_of_pos (by simp [ends, hend])]
  exact ⟨rfl, rfl⟩

variable (emit) in
theorem length_decode_le (hmarks : ∀ e ∈ elems, Mark parse encode e) (pending : Option A) :
    (decode parse emit pending elems).length ≤ elems.countP opens + pending.toList.length ∧
      (decode parse emit pending elems).length ≤ elems.countP ends := by
  induction elems generalizing pending with
  | nil => exact ⟨Nat.zero_le _, Nat.zero_le _⟩
  | cons e rest ih =>
    have hrest := ih fun x hx => hmarks x (List.mem_cons_of_mem _ hx)
    obtain ⟨hkey, a, ha, hparse⟩ := hmarks e List.mem_cons_self
    cases hend : e.intervalEnd with
    | false =>
      obtain ⟨hopens, hends⟩ := count_opening rest hend
      have h := hrest (some a)
      rw [Option.toList_some, List.length_singleton] at h
      rw [hopens, hends, decode_opening pending hkey hend, ha, hparse]
      omega
    | true =>
      obtain ⟨hopens, hends⟩ := count_ending rest hend
      have h := hrest none
      rw [Option.toList_none, List.length_nil] at h
      rw [hopens, hends]
      cases pending with
      | none =>
        rw [decode_ending_none hend, Option.toList_none, List.length_nil]
        omega
      | some start =>
        have hone : ((parse e.key).bind (emit start)).toList.length ≤ 1 := Option.length_toList_le
        rw [decode_ending_some start hend, List.length_append, Option.toList_some,
          List.length_singleton]
        omega

theorem eq_marks {f : Element K} {a b : A} (hkey : e.keyEnd = none) (hkey' : f.keyEnd = none)
    (ha : e.key = encode a) (hb : f.key = encode b) (hend : e.intervalEnd = false)
    (hend' : f.intervalEnd = true) : [e, f] = marks encode (a, b) := by
  cases e
  cases f
  subst hkey hkey' ha hb hend hend'
  rfl

theorem exists_pairs {n : ℕ} (hmarks : ∀ e ∈ elems, Mark parse encode e)
    (hopens : elems.countP opens = n) (hends : elems.countP ends = n)
    (hlength : (decode parse emit none elems).length = n) :
    ∃ js : List (A × A), elems = js.flatMap (marks encode) ∧
      ∀ j ∈ js, Readable parse encode j ∧ (emit j.1 j.2).isSome := by
  induction n generalizing elems with
  | zero =>
    cases elems with
    | nil => exact ⟨[], rfl, fun j hj => nomatch hj⟩
    | cons e rest =>
      cases hend : e.intervalEnd with
      | false =>
        have hcount := (count_opening rest hend).1
        omega
      | true =>
        have hcount := (count_ending rest hend).2
        omega
  | succ n ih =>
    cases elems with
    | nil => cases hopens
    | cons e rest =>
      obtain ⟨hkey, a, ha, hparse⟩ := hmarks e List.mem_cons_self
      have hrest : ∀ x ∈ rest, Mark parse encode x := fun x hx => hmarks x (List.mem_cons_of_mem _ hx)
      cases hend : e.intervalEnd with
      | true =>
        have hle := (length_decode_le emit hrest none).2
        have hcount := (count_ending rest hend).2
        rw [decode_ending_none hend] at hlength
        omega
      | false =>
        obtain ⟨hcount, hcount'⟩ := count_opening rest hend
        rw [decode_opening none hkey hend, ha, hparse] at hlength
        cases rest with
        | nil => cases hlength
        | cons f rest =>
          obtain ⟨hkey', b, hb, hparse'⟩ := hrest f List.mem_cons_self
          have hrest' : ∀ x ∈ rest, Mark parse encode x :=
            fun x hx => hrest x (List.mem_cons_of_mem _ hx)
          cases hend' : f.intervalEnd with
          | false =>
            have hle := (length_decode_le emit hrest' (some b)).1
            have hfirst := (count_opening rest hend').1
            rw [decode_opening (some a) hkey' hend', hb, hparse'] at hlength
            rw [Option.toList_some, List.length_singleton] at hle
            omega
          | true =>
            have hle := (length_decode_le emit hrest' none).2
            obtain ⟨hfirst, hfirst'⟩ := count_ending rest hend'
            rw [decode_ending_some a hend', hb, hparse', Option.bind_some,
              List.length_append] at hlength
            cases hemit : emit a b with
            | none =>
              rw [hemit, Option.toList_none, List.length_nil] at hlength
              omega
            | some o =>
              rw [hemit, Option.toList_some, List.length_singleton] at hlength
              obtain ⟨js, rfl, hjs⟩ := ih hrest' (by omega) (by omega) (by omega)
              refine ⟨(a, b) :: js, ?_, ?_⟩
              · rw [List.flatMap_cons, ← eq_marks hkey hkey' ha hb hend hend']
                rfl
              · intro j hj
                rcases List.mem_cons.mp hj with rfl | hj
                · exact ⟨⟨hparse, hparse'⟩, Option.isSome_iff_exists.mpr ⟨o, hemit⟩⟩
                · exact hjs j hj

/-! ## Which end belongs to which start -/

/-- Where every later interval starts behind the end of an earlier one, starts and ends fit together
in one way only. -/
theorem perm_of_matching {before : A → A → Prop} {js : List (A × A)}
    (hsorted : is.Pairwise fun i j => ¬ before j.1 i.2) (hbefore : ∀ j ∈ js, before j.1 j.2)
    (hstarts : (js.map Prod.fst).Perm (is.map Prod.fst))
    (hends : (js.map Prod.snd).Perm (is.map Prod.snd)) : js.Perm is := by
  induction is generalizing js with
  | nil =>
    rw [List.map_nil, List.perm_nil, List.map_eq_nil_iff] at hstarts
    rw [hstarts]
  | cons i is ih =>
    obtain ⟨hfirst, htail⟩ := List.pairwise_cons.mp hsorted
    have hend : i.2 ∈ js.map Prod.snd := hends.symm.subset List.mem_cons_self
    obtain ⟨j, hj, hji⟩ := List.mem_map.mp hend
    have hstart : j.1 ∈ (i :: is).map Prod.fst := hstarts.subset (List.mem_map_of_mem hj)
    rw [List.map_cons, List.mem_cons] at hstart
    have heq : j = i := by
      rcases hstart with hstart | hlater
      · exact Prod.ext hstart hji
      · obtain ⟨k, hk, hkj⟩ := List.mem_map.mp hlater
        have hafter := hfirst k hk
        rw [hkj, ← hji] at hafter
        exact absurd (hbefore j hj) hafter
    subst heq
    obtain ⟨front, back, rfl⟩ := List.append_of_mem hj
    have hmiddle : (front ++ j :: back).Perm (j :: (front ++ back)) := List.perm_middle
    refine hmiddle.trans ((ih htail ?_ ?_ ?_).cons j)
    · intro k hk
      exact hbefore k (hmiddle.symm.subset (List.mem_cons_of_mem _ hk))
    · exact ((hmiddle.map Prod.fst).symm.trans hstarts).cons_inv
    · exact ((hmiddle.map Prod.snd).symm.trans hends).cons_inv

/-- Intervals of which the one that starts first ends before the other one can be put in order. -/
theorem exists_sorted (before : A → A → Prop) (rank : A → ℕ)
    (hapart : is.Pairwise fun i j => (rank i.1 ≤ rank j.1 → ¬ before j.1 i.2) ∧
      (rank j.1 ≤ rank i.1 → ¬ before i.1 j.2)) :
    ∃ order : List (A × A), order.Perm is ∧ order.Pairwise fun i j => ¬ before j.1 i.2 := by
  let le : A × A → A × A → Bool := fun i j => rank i.1 ≤ rank j.1
  have hperm : (is.mergeSort le).Perm is := List.mergeSort_perm is le
  have hordered : (is.mergeSort le).Pairwise fun i j => le i j := by
    apply List.pairwise_mergeSort
    · intro i j k hij hjk
      simp only [le, decide_eq_true_eq] at hij hjk ⊢
      omega
    · intro i j
      simp only [le, Bool.or_eq_true, decide_eq_true_eq]
      omega
  refine ⟨is.mergeSort le, hperm, ?_⟩
  have hboth := hapart.perm hperm.symm (fun h => ⟨h.2, h.1⟩)
  apply (hordered.and hboth).imp
  rintro i j ⟨hle, h, -⟩
  exact h (by simpa [le] using hle)

/-! ## What is read -/

theorem filterMap_starts (hread : ∀ i ∈ is, Readable parse encode i) :
    (is.flatMap (marks encode)).filterMap (fun e => if e.intervalEnd then none else parse e.key) =
      is.map Prod.fst := by
  induction is with
  | nil => rfl
  | cons i is ih =>
    have hstart := (hread i List.mem_cons_self).1
    have hrest := ih fun j hj => hread j (List.mem_cons_of_mem _ hj)
    rw [List.flatMap_cons, List.filterMap_append, hrest]
    simp [marks, opening, ending, hstart]

theorem filterMap_ends (hread : ∀ i ∈ is, Readable parse encode i) :
    (is.flatMap (marks encode)).filterMap (fun e => if e.intervalEnd then parse e.key else none) =
      is.map Prod.snd := by
  induction is with
  | nil => rfl
  | cons i is ih =>
    have hend := (hread i List.mem_cons_self).2
    have hrest := ih fun j hj => hread j (List.mem_cons_of_mem _ hj)
    rw [List.flatMap_cons, List.filterMap_append, hrest]
    simp [marks, opening, ending, hend]

theorem mark_of_mem (hread : ∀ i ∈ is, Readable parse encode i)
    (he : e ∈ is.flatMap (marks encode)) : Mark parse encode e := by
  obtain ⟨i, hi, he⟩ := List.mem_flatMap.mp he
  unfold marks at he
  rcases List.mem_cons.mp he with rfl | he
  · exact ⟨rfl, i.1, rfl, (hread i hi).1⟩
  · rw [List.mem_singleton.mp he]
    exact ⟨rfl, i.2, rfl, (hread i hi).2⟩

theorem countP_opens (is : List (A × A)) : (is.flatMap (marks encode)).countP opens = is.length := by
  induction is with
  | nil => rfl
  | cons i is ih =>
    rw [List.flatMap_cons, List.countP_append, ih, List.length_cons, Nat.add_comm]
    rfl

theorem countP_ends (is : List (A × A)) : (is.flatMap (marks encode)).countP ends = is.length := by
  induction is with
  | nil => rfl
  | cons i is ih =>
    rw [List.flatMap_cons, List.countP_append, ih, List.length_cons, Nat.add_comm]
    rfl

theorem exists_order_of_map {α : Type*} {f : ι → α} {js : List α} (h : js.Perm (l.map f)) :
    ∃ order : List ι, order.Perm l ∧ js = order.map f := by
  induction l generalizing js with
  | nil => exact ⟨[], .nil, List.perm_nil.mp h⟩
  | cons x l ih =>
    have hmem : f x ∈ js := h.symm.subset List.mem_cons_self
    obtain ⟨front, back, rfl⟩ := List.append_of_mem hmem
    have hrest := (List.perm_middle.symm.trans h).cons_inv
    obtain ⟨order, horder, heq⟩ := ih hrest
    obtain ⟨order₁, order₂, rfl, rfl, rfl⟩ := List.map_eq_append_iff.mp heq.symm
    refine ⟨order₁ ++ x :: order₂, List.perm_middle.trans (horder.cons x), ?_⟩
    rw [List.map_append, List.map_cons]

variable (emit) in
theorem length_decode_marks_le {interval : ι → A × A}
    (hread : ∀ x ∈ l, Readable parse encode (interval x))
    (hperm : elems.Perm (l.flatMap fun x => marks encode (interval x))) :
    (decode parse emit none elems).length ≤ l.length := by
  rw [← List.flatMap_map] at hperm
  have hreadis : ∀ i ∈ l.map interval, Readable parse encode i := by
    intro i hi
    obtain ⟨x, hx, rfl⟩ := List.mem_map.mp hi
    exact hread x hx
  have hmarks : ∀ e ∈ elems, Mark parse encode e :=
    fun e he => mark_of_mem hreadis (hperm.subset he)
  have hle := (length_decode_le emit hmarks none).1
  rw [hperm.countP_eq, countP_opens, List.length_map] at hle
  exact hle

theorem decode_perm_iff {before : A → A → Prop} {interval : ι → A × A} {out : ι → O}
    (hread : ∀ x ∈ l, Readable parse encode (interval x))
    (hsorted : ∃ order : List (A × A), order.Perm (l.map interval) ∧
      order.Pairwise fun i j => ¬ before j.1 i.2)
    (hbefore : ∀ a b o, emit a b = some o → before a b)
    (hout : ∀ x ∈ l, ∀ o, emit (interval x).1 (interval x).2 = some o → o = out x)
    (hperm : elems.Perm (l.flatMap fun x => marks encode (interval x))) :
    (decode parse emit none elems).Perm (l.map out) ↔
      (∃ order : List ι, order.Perm l ∧ elems = order.flatMap fun x => marks encode (interval x)) ∧
        ∀ x ∈ l, (emit (interval x).1 (interval x).2).isSome := by
  have hflat : ∀ order : List ι, (order.flatMap fun x => marks encode (interval x)) =
      (order.map interval).flatMap (marks encode) := by
    intro order
    rw [List.flatMap_map]
  have hreadis : ∀ i ∈ l.map interval, Readable parse encode i := by
    intro i hi
    obtain ⟨x, hx, rfl⟩ := List.mem_map.mp hi
    exact hread x hx
  rw [hflat] at hperm
  constructor
  · intro h
    have hmarks : ∀ e ∈ elems, Mark parse encode e :=
      fun e he => mark_of_mem hreadis (hperm.subset he)
    have hlength : (decode parse emit none elems).length = (l.map interval).length := by
      rw [h.length_eq, List.length_map, List.length_map]
    have hopens : elems.countP opens = (l.map interval).length := by
      rw [hperm.countP_eq, countP_opens]
    have hends : elems.countP ends = (l.map interval).length := by
      rw [hperm.countP_eq, countP_ends]
    obtain ⟨js, rfl, hjs⟩ := exists_pairs hmarks hopens hends hlength
    have hreadjs : ∀ j ∈ js, Readable parse encode j := fun j hj => (hjs j hj).1
    obtain ⟨sorted, hsortedPerm, hsorted⟩ := hsorted
    have hstarts := hperm.filterMap fun e => if e.intervalEnd then none else parse e.key
    have hstops := hperm.filterMap fun e => if e.intervalEnd then parse e.key else none
    rw [filterMap_starts hreadjs, filterMap_starts hreadis] at hstarts
    rw [filterMap_ends hreadjs, filterMap_ends hreadis] at hstops
    have hmatch : js.Perm sorted := by
      apply perm_of_matching hsorted
      · intro j hj
        obtain ⟨o, ho⟩ := Option.isSome_iff_exists.mp (hjs j hj).2
        exact hbefore _ _ o ho
      · exact hstarts.trans (hsortedPerm.map Prod.fst).symm
      · exact hstops.trans (hsortedPerm.map Prod.snd).symm
    have hjsl := hmatch.trans hsortedPerm
    obtain ⟨order, horder, rfl⟩ := exists_order_of_map hjsl
    refine ⟨⟨order, horder, (hflat order).symm⟩, ?_⟩
    intro x hx
    exact (hjs _ (List.mem_map_of_mem (horder.symm.subset hx))).2
  · rintro ⟨⟨order, horder, rfl⟩, hsome⟩
    have hmem : ∀ x ∈ order, x ∈ l := fun x hx => horder.subset hx
    have hreadorder : ∀ i ∈ order.map interval, Readable parse encode i :=
      fun i hi => hreadis i ((horder.map interval).subset hi)
    rw [hflat, decode_marks hreadorder, List.filterMap_map]
    have heq : order.filterMap ((fun i => emit i.1 i.2) ∘ interval) = order.map out := by
      rw [← List.filterMap_eq_map]
      apply List.filterMap_congr
      intro x hx
      obtain ⟨o, ho⟩ := Option.isSome_iff_exists.mp (hsome x (hmem x hx))
      rw [Function.comp_apply, ho, hout x (hmem x hx) o ho]
      rfl
    rw [heq]
    exact horder.map out

end Insula.IntervalMarks
