import Insula.KeyPairing
import Mathlib.Data.Finset.Card

/-!
# Pairing again after taking over what was left

Where a row of one side fits those of the other whose keys are of its class, what is left on the
other side is, in each class, what exceeds the keys of the first. Once it has been taken over,
nothing is left exactly when each row taken over has a key of its own.
-/

namespace Insula.KeyPairing

variable {α β κ γ : Type*} [DecidableEq κ] [DecidableEq γ]

section Surplus

variable (keyA : α → κ) (keyB : β → κ) (cls : κ → γ)

def surplus (rowsA : List α) (rowsB : List β) (c : γ) : List β :=
  ((leftovers keyB (index keyA rowsA) keyA (index keyB rowsB)).filter fun b => cls (keyB b) = c).drop
    ((leftovers keyA (index keyB rowsB) keyB (index keyA rowsA)).countP fun a => cls (keyA a) = c)

def classKeys (keys : List κ) (c : γ) : Finset κ := keys.toFinset.filter fun k => cls k = c

end Surplus

variable {keyA : α → κ} {keyB : β → κ} {cls : κ → γ} {fits : α → β → Bool}

/-- A row that finds a partner takes the first of its class. -/
theorem filter_rest {rows : List β} (hnodup : (rows.map keyB).Nodup) {a : α} {b : β}
    (hfits : ∀ b, fits a b = true ↔ cls (keyA a) = cls (keyB b)) (hfind : rows.find? (fits a) = some b)
    (c : γ) : (rows.filter (keyB · ≠ keyB b)).filter (fun x => cls (keyB x) = c) =
      (rows.filter fun x => cls (keyB x) = c).drop (if cls (keyA a) = c then 1 else 0) := by
  induction rows with
  | nil => cases hfind
  | cons x rows ih =>
    rw [List.map_cons, List.nodup_cons] at hnodup
    by_cases hx : fits a x = true
    · rw [List.find?_cons_of_pos hx] at hfind
      have hxb : x = b := Option.some.inj hfind
      have hrest : rows.filter (keyB · ≠ keyB x) = rows := by
        rw [List.filter_eq_self]
        intro y hy
        exact decide_eq_true fun heq => hnodup.1 (heq ▸ List.mem_map_of_mem hy)
      rw [← hxb, List.filter_cons_of_neg (by simp), hrest, List.filter_cons, (hfits x).mp hx]
      by_cases hc : cls (keyB x) = c
      · rw [if_pos hc, if_pos (by simpa using hc)]
        rfl
      · rw [if_neg hc, if_neg (by simpa using hc)]
        rfl
    · rw [List.find?_cons_of_neg hx] at hfind
      have hb : b ∈ rows := List.mem_of_find?_eq_some hfind
      have hne : keyB x ≠ keyB b := fun heq => hnodup.1 (heq ▸ List.mem_map_of_mem hb)
      have hother : cls (keyA a) ≠ cls (keyB x) := fun heq => hx ((hfits x).mpr heq)
      rw [List.filter_cons_of_pos (by simpa using hne), List.filter_cons, List.filter_cons,
        ih hnodup.2 hfind]
      by_cases hc : cls (keyA a) = c
      · have hxc : cls (keyB x) ≠ c := fun heq => hother (hc.trans heq.symm)
        rw [if_pos hc, if_neg (by simpa using hxc), if_neg (by simpa using hxc)]
      · rw [if_neg hc, List.drop_zero, List.drop_zero]

theorem filter_matchUp (hfits : ∀ a b, fits a b = true ↔ cls (keyA a) = cls (keyB b)) (rowsA : List α)
    {rowsB : List β} (hnodup : (rowsB.map keyB).Nodup) (c : γ) :
    (matchUp keyB fits rowsA rowsB).2.2.filter (fun b => cls (keyB b) = c) =
      (rowsB.filter fun b => cls (keyB b) = c).drop (rowsA.countP fun a => cls (keyA a) = c) := by
  induction rowsA generalizing rowsB with
  | nil => rfl
  | cons a rowsA ih =>
    unfold matchUp
    cases hfind : rowsB.find? (fits a) with
    | some b =>
      have hrest : ((rowsB.filter (keyB · ≠ keyB b)).map keyB).Nodup :=
        hnodup.sublist (List.filter_sublist.map _)
      dsimp only
      rw [ih hrest, filter_rest hnodup (hfits a) hfind, List.drop_drop, List.countP_cons]
      congr 1
      simp only [decide_eq_true_eq]
      omega
    | none =>
      dsimp only
      rw [ih hnodup, List.countP_cons]
      by_cases hc : cls (keyA a) = c
      · have hnone : rowsB.filter (fun b => cls (keyB b) = c) = [] := by
          rw [List.filter_eq_nil_iff]
          intro b hb hclass
          have hclass' : cls (keyB b) = c := of_decide_eq_true hclass
          exact List.find?_eq_none.mp hfind b hb ((hfits a b).mpr (hc.trans hclass'.symm))
        rw [hnone, List.drop_nil, List.drop_nil]
      · simp [hc]

theorem filter_remoteOnly (hfits : ∀ a b, fits a b = true ↔ cls (keyA a) = cls (keyB b))
    (rowsA : List α) (rowsB : List β) (c : γ) :
    (pairUp keyA keyB fits rowsA rowsB).remoteOnly.filter (fun b => cls (keyB b) = c) =
      surplus keyA keyB cls rowsA rowsB c :=
  filter_matchUp hfits _ ((nodup_index rowsB).sublist (List.filter_sublist.map _)) c

/-! ## Counting keys -/

theorem count_leftovers {δ : Type*} (key : α → κ) (otherKey : δ → κ) (rows : List α)
    (others : List δ) (c : γ) :
    (leftovers key (index otherKey others) otherKey (index key rows)).countP
        (fun a => cls (key a) = c) =
      (classKeys cls (rows.map key) c \ classKeys cls (others.map otherKey) c).card := by
  have hnodup : ((((index key rows).map key).filter (· ∉ (index otherKey others).map otherKey)).filter
      fun k => cls k = c).Nodup := ((nodup_index rows).filter _).filter _
  have hcount : (leftovers key (index otherKey others) otherKey (index key rows)).countP
      (fun a => cls (key a) = c) = ((((index key rows).map key).filter
        (· ∉ (index otherKey others).map otherKey)).filter fun k => cls k = c).length := by
    rw [← map_leftovers, ← List.countP_eq_length_filter, List.countP_map]
    rfl
  rw [hcount, ← List.toFinset_card_of_nodup hnodup]
  congr 1
  ext k
  simp only [classKeys, List.mem_toFinset, List.mem_filter, Finset.mem_sdiff, Finset.mem_filter,
    mem_map_key_index, decide_eq_true_eq]
  tauto

/-- In each class the surplus is as large as one side exceeds the other. -/
theorem length_surplus (rowsA : List α) (rowsB : List β) (c : γ) :
    (surplus keyA keyB cls rowsA rowsB c).length =
      (classKeys cls (rowsB.map keyB) c).card - (classKeys cls (rowsA.map keyA) c).card := by
  have hunion := Finset.card_sdiff_add_card (classKeys cls (rowsB.map keyB) c)
    (classKeys cls (rowsA.map keyA) c)
  have hunion' := Finset.card_sdiff_add_card (classKeys cls (rowsA.map keyA) c)
    (classKeys cls (rowsB.map keyB) c)
  rw [Finset.union_comm] at hunion'
  rw [surplus, List.length_drop, ← List.countP_eq_length_filter, count_leftovers, count_leftovers]
  omega

theorem le_card_union_iff {keys : Finset κ} {added : List κ} {n : ℕ}
    (h : added.length = n - keys.card) :
    n ≤ (keys ∪ added.toFinset).card ↔ added.Nodup ∧ ∀ k ∈ added, k ∉ keys := by
  have hunion : (keys ∪ added.toFinset).card = keys.card + (added.toFinset \ keys).card := by
    rw [Finset.union_comm, ← Finset.card_sdiff_add_card, Nat.add_comm]
  have hsub : (added.toFinset \ keys).card ≤ added.toFinset.card :=
    Finset.card_le_card Finset.sdiff_subset
  have hlength := added.toFinset_card_le
  rw [hunion]
  constructor
  · intro hle
    have hall : added.toFinset.card = added.length := by omega
    have hdisjoint : (added.toFinset \ keys).card = added.toFinset.card := by omega
    refine ⟨?_, fun k hk hmem => ?_⟩
    · rw [← List.dedup_eq_self, ← (List.dedup_sublist added).length_eq]
      exact (List.card_toFinset added).symm.trans hall
    · have heq := Finset.eq_of_subset_of_card_le Finset.sdiff_subset hdisjoint.ge
      have hin : k ∈ added.toFinset := List.mem_toFinset.mpr hk
      rw [← heq] at hin
      exact (Finset.mem_sdiff.mp hin).2 hmem
  · rintro ⟨hnodup, hnew⟩
    have hdisjoint : added.toFinset \ keys = added.toFinset := by
      rw [Finset.sdiff_eq_self_iff_disjoint, Finset.disjoint_left]
      exact fun k hk => hnew k (List.mem_toFinset.mp hk)
    rw [hdisjoint, List.toFinset_card_of_nodup hnodup]
    omega

/-! ## Taking over -/

section Grow

variable (g : β → κ) (rowsA : List α) (rowsB : List β)

/-- Each row of the surplus would have a key of its own among the rows of the first side. -/
def OwnKeys (keyA : α → κ) (keyB : β → κ) (cls : κ → γ) : Prop :=
  ∀ c, ((surplus keyA keyB cls rowsA rowsB c).map g).Nodup ∧
    ∀ b ∈ surplus keyA keyB cls rowsA rowsB c, g b ∉ rowsA.map keyA

variable {g rowsA rowsB}

theorem ownKeys_of_leftovers
    (hnodup : ((leftovers keyB (index keyA rowsA) keyA (index keyB rowsB)).map g).Nodup)
    (hnew : ∀ b ∈ leftovers keyB (index keyA rowsA) keyA (index keyB rowsB), g b ∉ rowsA.map keyA) :
    OwnKeys g rowsA rowsB keyA keyB cls := by
  intro c
  have hsublist : (surplus keyA keyB cls rowsA rowsB c).Sublist
      (leftovers keyB (index keyA rowsA) keyA (index keyB rowsB)) :=
    (List.drop_sublist _ _).trans List.filter_sublist
  exact ⟨hnodup.sublist (hsublist.map g), fun b hb => hnew b (hsublist.subset hb)⟩

/-- Rows that are taken over under the keys that they had have keys of their own. -/
theorem ownKeys_of_same_key (h : ∀ b ∈ rowsB, g b = keyB b) :
    OwnKeys g rowsA rowsB keyA keyB cls := by
  have hkey : ∀ b ∈ leftovers keyB (index keyA rowsA) keyA (index keyB rowsB), g b = keyB b :=
    fun b hb => h b (mem_leftovers hb).1
  apply ownKeys_of_leftovers
  · rw [List.map_congr_left hkey]
    exact (nodup_index rowsB).sublist (List.filter_sublist.map _)
  · intro b hb
    rw [hkey b hb]
    exact (mem_leftovers hb).2

theorem remoteOnly_eq_nil_iff (hfits : ∀ a b, fits a b = true ↔ cls (keyA a) = cls (keyB b)) :
    (pairUp keyA keyB fits rowsA rowsB).remoteOnly = [] ↔
      ∀ c, (classKeys cls (rowsB.map keyB) c).card ≤ (classKeys cls (rowsA.map keyA) c).card := by
  have hclass : ∀ c, surplus keyA keyB cls rowsA rowsB c = [] ↔
      (classKeys cls (rowsB.map keyB) c).card ≤ (classKeys cls (rowsA.map keyA) c).card := by
    intro c
    rw [← List.length_eq_zero_iff, length_surplus, Nat.sub_eq_zero_iff_le]
  simp only [← hclass, ← filter_remoteOnly hfits]
  constructor
  · intro h c
    rw [h]
    rfl
  · intro h
    rw [List.eq_nil_iff_forall_not_mem]
    intro b hb
    have hmem : b ∈ (pairUp keyA keyB fits rowsA rowsB).remoteOnly.filter
        fun x => cls (keyB x) = cls (keyB b) := List.mem_filter.mpr ⟨hb, decide_eq_true rfl⟩
    rw [h] at hmem
    cases hmem

/-- Taken over under their keys, the rows leave nothing to take over exactly when they have keys of
their own. -/
theorem grown_iff (hfits : ∀ a b, fits a b = true ↔ cls (keyA a) = cls (keyB b))
    (hg : ∀ b, cls (g b) = cls (keyB b)) {rowsA' : List α} (h : (rowsA'.map keyA).Perm
      (rowsA.map keyA ++ (pairUp keyA keyB fits rowsA rowsB).remoteOnly.map g)) :
    (pairUp keyA keyB fits rowsA' rowsB).remoteOnly = [] ↔ OwnKeys g rowsA rowsB keyA keyB cls := by
  rw [remoteOnly_eq_nil_iff hfits]
  refine forall_congr' fun c => ?_
  have hkeys : classKeys cls (rowsA'.map keyA) c = classKeys cls (rowsA.map keyA) c ∪
      ((surplus keyA keyB cls rowsA rowsB c).map g).toFinset := by
    ext k
    simp only [classKeys, Finset.mem_union, Finset.mem_filter, List.mem_toFinset, h.mem_iff,
      List.mem_append, ← filter_remoteOnly hfits, List.mem_map, List.mem_filter, decide_eq_true_eq]
    constructor
    · rintro ⟨hk | ⟨b, hb, rfl⟩, hc⟩
      · exact .inl ⟨hk, hc⟩
      · exact .inr ⟨b, ⟨hb, (hg b).symm.trans hc⟩, rfl⟩
    · rintro (⟨hk, hc⟩ | ⟨b, ⟨hb, hc⟩, rfl⟩)
      · exact ⟨.inl hk, hc⟩
      · exact ⟨.inr ⟨b, hb, rfl⟩, (hg b).trans hc⟩
  rw [hkeys, le_card_union_iff (by rw [List.length_map, length_surplus])]
  refine and_congr_right fun _ => ?_
  simp only [List.forall_mem_map]
  refine forall₂_congr fun b hb => not_congr ?_
  have hclass : cls (g b) = c := by
    rw [← filter_remoteOnly hfits, List.mem_filter, decide_eq_true_eq] at hb
    exact (hg b).trans hb.2
  simp only [classKeys, Finset.mem_filter, List.mem_toFinset, hclass, and_true]

end Grow

end Insula.KeyPairing
