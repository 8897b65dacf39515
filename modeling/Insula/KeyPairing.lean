import Mathlib.Data.List.Perm.Basic
import Mathlib.Data.List.Nodup

/-!
# Pairing two lists by keys

Two lists of rows are paired in two stages. Rows of one key are paired first; what is left on one
side takes the first row left on the other that fits it. Where the rows that fit are those of one
class, the number of pairs and of single rows in each class does not depend on the order of the
rows.
-/

namespace Insula.KeyPairing

variable {α β κ γ : Type*} [DecidableEq κ]

/-! ## Maps that keep their order -/

section Index

variable (key : α → κ)

/-- A row takes the place of the one with its key, or the last place. -/
def put (rows : List α) (a : α) : List α :=
  if key a ∈ rows.map key then rows.map fun x => if key x = key a then a else x else rows ++ [a]

def index (rows : List α) : List α := rows.foldl (put key) []

variable {key} {rows : List α} {a : α}

theorem map_key_put :
    (put key rows a).map key = if key a ∈ rows.map key then rows.map key else rows.map key ++
    [key a] := by
  unfold put
  split
  · rw [List.map_map]
    refine List.map_congr_left fun x _ => ?_
    simp only [Function.comp_apply]
    split
    · next h => exact h.symm
    · rfl
  · simp

theorem nodup_put (h : (rows.map key).Nodup) : ((put key rows a).map key).Nodup := by
  rw [map_key_put]
  split
  · exact h
  · next hnot =>
    rw [List.nodup_append_comm]
    exact List.nodup_cons.mpr ⟨hnot, h⟩

theorem mem_of_mem_put {x : α} (h : x ∈ put key rows a) : x ∈ rows ∨ x = a := by
  unfold put at h
  split at h
  · obtain ⟨y, hy, rfl⟩ := List.mem_map.mp h
    split
    · exact .inr rfl
    · exact .inl hy
  · simpa using h

theorem mem_map_key_put {k : κ} : k ∈ (put key rows a).map key ↔ k ∈ rows.map key ∨ k = key a := by
  rw [map_key_put]
  split
  · next h =>
    refine (or_iff_left_of_imp ?_).symm
    rintro rfl
    exact h
  · rw [List.mem_append, List.mem_singleton]

theorem foldl_put (l : List α) (h : (rows.map key).Nodup) :
    ((l.foldl (put key) rows).map key).Nodup ∧ (∀ x ∈ l.foldl (put key) rows, x ∈ rows ∨ x ∈ l) ∧
      ∀ k, k ∈ (l.foldl (put key) rows).map key ↔ k ∈ rows.map key ∨ k ∈ l.map key := by
  induction l generalizing rows with
  | nil => exact ⟨h, fun _ hx => .inl hx, fun _ => by simp⟩
  | cons a l ih =>
    obtain ⟨hnodup, hmem, hkeys⟩ := ih (nodup_put (a := a) h)
    refine ⟨hnodup, fun x hx => ?_, fun k => ?_⟩
    · rcases hmem x hx with hx | hx
      · rcases mem_of_mem_put hx with hx | rfl
        · exact .inl hx
        · exact .inr List.mem_cons_self
      · exact .inr (List.mem_cons_of_mem _ hx)
    · rw [List.foldl_cons, hkeys, mem_map_key_put, List.map_cons, List.mem_cons, or_assoc]

theorem nodup_index (rows : List α) : ((index key rows).map key).Nodup :=
  (foldl_put rows (by simp)).1

theorem mem_of_mem_index (h : a ∈ index key rows) : a ∈ rows := by
  have hmem : a ∈ [] ∨ a ∈ rows := (foldl_put rows (by simp)).2.1 a h
  exact hmem.resolve_left List.not_mem_nil

theorem mem_map_key_index {k : κ} : k ∈ (index key rows).map key ↔ k ∈ rows.map key := by
  have hkeys : k ∈ (index key rows).map key ↔ k ∈ ([] : List α).map key ∨ k ∈ rows.map key :=
    (foldl_put rows (by simp)).2.2 k
  exact hkeys.trans (or_iff_right List.not_mem_nil)

/-! ### Any row may be the first -/

variable (key) in
/-- The rows in an order in which one of them stands for its key, before all others. -/
def front (a : α) (others : List α) : List α :=
  others.filter (key · = key a) ++ a :: others.filter (key · ≠ key a)

theorem perm_front {others : List α} : (front key a others).Perm (a :: others) := by
  refine List.perm_middle.trans (List.Perm.cons _ ?_)
  have hfilter := List.filter_append_perm (fun x => decide (key x = key a)) others
  simpa using hfilter

variable (rows) in
theorem foldl_put_same (l : List α) (hl : ∀ x ∈ l, key x = key a) (hrows : ∀ x ∈ rows, key x = key a)
    (hlen : rows.length ≤ 1) :
    (∀ x ∈ l.foldl (put key) rows, key x = key a) ∧ (l.foldl (put key) rows).length ≤ 1 := by
  induction l generalizing rows with
  | nil => exact ⟨hrows, hlen⟩
  | cons x l ih =>
    have hx : key x = key a := hl x List.mem_cons_self
    apply ih _ (fun y hy => hl y (List.mem_cons_of_mem _ hy))
    · intro y hy
      rcases mem_of_mem_put hy with hy | rfl
      · exact hrows y hy
      · exact hx
    · match rows with
      | [] => simp [put]
      | [y] => simp [put, hx, hrows y List.mem_cons_self]

theorem put_same (hrows : ∀ x ∈ rows, key x = key a) (hlen : rows.length ≤ 1) :
    put key rows a = [a] := by
  match rows with
  | [] => simp [put]
  | [y] => simp [put, hrows y List.mem_cons_self]

theorem foldl_put_cons (l : List α) (hl : ∀ x ∈ l, key x ≠ key a) :
    l.foldl (put key) (a :: rows) = a :: l.foldl (put key) rows := by
  induction l generalizing rows with
  | nil => rfl
  | cons x l ih =>
    have hx : key x ≠ key a := hl x List.mem_cons_self
    have hput : put key (a :: rows) x = a :: put key rows x := by
      unfold put
      by_cases hmem : key x ∈ rows.map key <;> simp [hx, hx.symm, hmem]
    rw [List.foldl_cons, List.foldl_cons, hput]
    exact ih fun y hy => hl y (List.mem_cons_of_mem _ hy)

theorem index_front (others : List α) :
    index key (front key a others) = a :: index key (others.filter (key · ≠ key a)) := by
  obtain ⟨hsame, hlen⟩ := foldl_put_same [] (others.filter (key · = key a))
    (fun x hx => by simpa using List.of_mem_filter hx) (fun _ h => absurd h List.not_mem_nil)
    (Nat.zero_le 1)
  rw [index, front, List.foldl_append, List.foldl_cons, put_same hsame hlen, foldl_put_cons]
  · rfl
  · intro x hx
    simpa using List.of_mem_filter hx

end Index

/-- A reordering of the members with a property is one of the whole list. -/
theorem exists_perm_of_filter {p : α → Bool} {rows rows' : List α}
    (h : rows'.Perm (rows.filter p)) : ∃ all : List α, all.Perm rows ∧ all.filter p = rows' := by
  refine ⟨rows' ++ rows.filter (! p ·), ?_, ?_⟩
  · exact (h.append_right _).trans (List.filter_append_perm p rows)
  · have hall : ∀ a ∈ rows', p a = true := fun a ha => List.of_mem_filter (h.mem_iff.mp ha)
    rw [List.filter_append, List.filter_eq_self.mpr hall, List.filter_filter]
    simp

/-! ## The two stages -/

structure Pairing (α β : Type*) where
  inSync : List (α × β)
  conflicts : List (α × β)
  localOnly : List α
  remoteOnly : List β

section Stages

variable (keyA : α → κ) (keyB : β → κ) (fits : α → β → Bool)

def matchUp : List α → List β → List (α × β) × List α × List β
  | [], rest => ([], [], rest)
  | a :: rows, rest =>
    match rest.find? (fits a) with
    | some b =>
      let (conflicts, localOnly, remoteOnly) := matchUp rows (rest.filter (keyB · ≠ keyB b))
      ((a, b) :: conflicts, localOnly, remoteOnly)
    | none =>
      let (conflicts, localOnly, remoteOnly) := matchUp rows rest
      (conflicts, a :: localOnly, remoteOnly)

def leftovers {δ : Type*} (key : α → κ) (others : List δ) (otherKey : δ → κ) (rows : List α) : List α :=
  rows.filter (key · ∉ others.map otherKey)

def pairUp (rowsA : List α) (rowsB : List β) : Pairing α β :=
  let mapA := index keyA rowsA
  let mapB := index keyB rowsB
  let matched := matchUp keyB fits (leftovers keyA mapB keyB mapA) (leftovers keyB mapA keyA mapB)
  { inSync := mapA.filterMap fun a => (mapB.find? (keyB · = keyA a)).map fun b => (a, b)
    conflicts := matched.1
    localOnly := matched.2.1
    remoteOnly := matched.2.2 }

variable {keyA keyB fits}

structure Matched (fits : α → β → Bool) (rowsA : List α) (rowsB : List β)
    (r : List (α × β) × List α × List β) : Prop where
  local_perm : (r.1.map Prod.fst ++ r.2.1).Perm rowsA
  remote_perm : (r.1.map Prod.snd ++ r.2.2).Perm rowsB
  fit : ∀ p ∈ r.1, fits p.1 p.2 = true
  unfit : ∀ a ∈ r.2.1, ∀ b ∈ r.2.2, fits a b = false

theorem perm_cons_filter {rows : List β} (h : (rows.map keyB).Nodup) {b : β} (hb : b ∈ rows) :
    (b :: rows.filter (keyB · ≠ keyB b)).Perm rows := by
  have hcons : (b :: rows.filter (keyB · ≠ keyB b)).Nodup := by
    rw [List.nodup_cons]
    exact ⟨by simp, h.of_map.sublist List.filter_sublist⟩
  rw [List.perm_ext_iff_of_nodup hcons h.of_map]
  intro x
  rw [List.mem_cons, List.mem_filter, decide_eq_true_eq]
  constructor
  · rintro (rfl | hx)
    · exact hb
    · exact hx.1
  · intro hx
    by_cases hkey : keyB x = keyB b
    · exact .inl (List.inj_on_of_nodup_map h hx hb hkey)
    · exact .inr ⟨hx, hkey⟩

theorem matched_matchUp (rowsA : List α) {rowsB : List β} (h : (rowsB.map keyB).Nodup) :
    Matched fits rowsA rowsB (matchUp keyB fits rowsA rowsB) := by
  induction rowsA generalizing rowsB with
  | nil => exact ⟨.refl _, .refl _, fun _ hp => absurd hp List.not_mem_nil, fun _ ha => absurd ha List.not_mem_nil⟩
  | cons a rowsA ih =>
    unfold matchUp
    cases hfind : rowsB.find? (fits a) with
    | some b =>
      have hb : b ∈ rowsB := List.mem_of_find?_eq_some hfind
      have hrest := perm_cons_filter h hb
      have hnodup : ((rowsB.filter (keyB · ≠ keyB b)).map keyB).Nodup :=
        h.sublist (List.filter_sublist.map _)
      have hm := ih hnodup
      refine ⟨?_, ?_, ?_, hm.unfit⟩
      · exact hm.local_perm.cons a
      · exact (hm.remote_perm.cons b).trans hrest
      · intro p hp
        rcases List.mem_cons.mp hp with rfl | hp
        · exact List.find?_some hfind
        · exact hm.fit p hp
    | none =>
      have hm := ih h
      refine ⟨?_, hm.remote_perm, hm.fit, ?_⟩
      · exact List.perm_middle.trans (hm.local_perm.cons a)
      · intro x hx b hb
        rcases List.mem_cons.mp hx with rfl | hx
        · have hb : b ∈ rowsB := hm.remote_perm.mem_iff.mp (List.mem_append_right _ hb)
          simpa using List.find?_eq_none.mp hfind b hb
        · exact hm.unfit x hx b hb

end Stages

/-! ## What a pairing says of the two sides -/

section Properties

variable (keyA : α → κ) (keyB : β → κ) (clsA : α → γ) (clsB : β → γ)

def Leftover {δ : Type*} (key : α → κ) (otherKey : δ → κ) (rows : List α) (others : List δ) (a : α) :
    Prop :=
  a ∈ rows ∧ key a ∉ others.map otherKey

def localKeys (r : Pairing α β) : List κ :=
  r.inSync.map (fun p => keyA p.1) ++ r.conflicts.map (fun p => keyA p.1) ++ r.localOnly.map keyA

def remoteKeys (r : Pairing α β) : List κ :=
  r.inSync.map (fun p => keyB p.2) ++ r.conflicts.map (fun p => keyB p.2) ++ r.remoteOnly.map keyB

/-- Every key of a side is in one group: in sync where both sides have it, in a conflict with a row
of the same class, or on its own with no such row left. -/
structure Proper (rowsA : List α) (rowsB : List β) (r : Pairing α β) : Prop where
  local_once : (localKeys keyA r).Nodup
  local_all : ∀ k, k ∈ localKeys keyA r ↔ k ∈ rowsA.map keyA
  remote_once : (remoteKeys keyB r).Nodup
  remote_all : ∀ k, k ∈ remoteKeys keyB r ↔ k ∈ rowsB.map keyB
  in_sync : ∀ k, k ∈ r.inSync.map (fun p => keyA p.1) ↔ k ∈ rowsA.map keyA ∧ k ∈ rowsB.map keyB
  same_key : ∀ p ∈ r.inSync, p.1 ∈ rowsA ∧ p.2 ∈ rowsB ∧ keyA p.1 = keyB p.2
  conflict : ∀ p ∈ r.conflicts, Leftover keyA keyB rowsA rowsB p.1 ∧
    Leftover keyB keyA rowsB rowsA p.2 ∧ clsA p.1 = clsB p.2
  local_only : ∀ a ∈ r.localOnly, Leftover keyA keyB rowsA rowsB a
  remote_only : ∀ b ∈ r.remoteOnly, Leftover keyB keyA rowsB rowsA b
  exhausted : ∀ a ∈ r.localOnly, ∀ b ∈ r.remoteOnly, clsA a ≠ clsB b

/-- The same keys in sync, and as many conflicts and single rows of each class. -/
structure SameCounts [DecidableEq γ] (r r' : Pairing α β) : Prop where
  in_sync : ∀ k, k ∈ r.inSync.map (fun p => keyA p.1) ↔ k ∈ r'.inSync.map fun p => keyA p.1
  conflicts : ∀ c, r.conflicts.countP (fun p => clsA p.1 = c) =
    r'.conflicts.countP fun p => clsA p.1 = c
  localOnly : ∀ c, r.localOnly.countP (clsA · = c) = r'.localOnly.countP (clsA · = c)
  remoteOnly : ∀ c, r.remoteOnly.countP (clsB · = c) = r'.remoteOnly.countP (clsB · = c)

/-- What is left fits only within a class, and a key that is left is of one class. -/
structure Unambiguous (fits : α → β → Bool) (rowsA : List α) (rowsB : List β) : Prop where
  fit : ∀ a b, Leftover keyA keyB rowsA rowsB a → Leftover keyB keyA rowsB rowsA b →
    fits a b = true → clsA a = clsB b
  locals : ∀ a a', Leftover keyA keyB rowsA rowsB a → Leftover keyA keyB rowsA rowsB a' →
    keyA a = keyA a' → clsA a = clsA a'
  remotes : ∀ b b', Leftover keyB keyA rowsB rowsA b → Leftover keyB keyA rowsB rowsA b' →
    keyB b = keyB b' → clsB b = clsB b'

end Properties

section Proofs

variable {keyA : α → κ} {keyB : β → κ} {clsA : α → γ} {clsB : β → γ} {fits : α → β → Bool}
variable {rowsA : List α} {rowsB : List β}

theorem mem_leftovers {δ : Type*} {key : α → κ} {otherKey : δ → κ} {rows : List α} {others : List δ}
    {a : α} (h : a ∈ leftovers key (index otherKey others) otherKey (index key rows)) :
    Leftover key otherKey rows others a := by
  rw [leftovers, List.mem_filter, decide_eq_true_eq, mem_map_key_index] at h
  exact ⟨mem_of_mem_index h.1, h.2⟩

variable (keyA keyB fits) in
theorem matched_pairUp (rowsA : List α) (rowsB : List β) :
    Matched fits (leftovers keyA (index keyB rowsB) keyB (index keyA rowsA))
      (leftovers keyB (index keyA rowsA) keyA (index keyB rowsB))
      ((pairUp keyA keyB fits rowsA rowsB).conflicts, (pairUp keyA keyB fits rowsA rowsB).localOnly,
        (pairUp keyA keyB fits rowsA rowsB).remoteOnly) :=
  matched_matchUp _ ((nodup_index rowsB).sublist (List.filter_sublist.map _))

theorem mem_inSync {p : α × β} : p ∈ (pairUp keyA keyB fits rowsA rowsB).inSync ↔
      p.1 ∈ index keyA rowsA ∧ p.2 ∈ index keyB rowsB ∧ keyA p.1 = keyB p.2 := by
  simp only [pairUp, List.mem_filterMap, Option.map_eq_some_iff]
  constructor
  · rintro ⟨a, ha, b, hfind, rfl⟩
    have hkey : keyB b = keyA a := by simpa using List.find?_some hfind
    exact ⟨ha, List.mem_of_find?_eq_some hfind, hkey.symm⟩
  · rintro ⟨ha, hb, hkey⟩
    refine ⟨p.1, ha, p.2, ?_, rfl⟩
    cases hfind : (index keyB rowsB).find? (keyB · = keyA p.1) with
    | none =>
      have hnot := List.find?_eq_none.mp hfind p.2 hb
      simp [hkey] at hnot
    | some b =>
      have hb' : keyB b = keyA p.1 := by simpa using List.find?_some hfind
      rw [List.inj_on_of_nodup_map (nodup_index rowsB) (List.mem_of_find?_eq_some hfind) hb
        (hb'.trans hkey)]

theorem map_inSync_left : (pairUp keyA keyB fits rowsA rowsB).inSync.map (fun p => keyA p.1) =
      ((index keyA rowsA).map keyA).filter (· ∈ (index keyB rowsB).map keyB) := by
  simp only [pairUp]
  induction index keyA rowsA with
  | nil => rfl
  | cons a l ih =>
    rw [List.filterMap_cons, List.map_cons, List.filter_cons]
    cases hfind : (index keyB rowsB).find? (keyB · = keyA a) with
    | none =>
      have hnot : keyA a ∉ (index keyB rowsB).map keyB := by
        rintro hmem
        obtain ⟨b, hb, hkey⟩ := List.mem_map.mp hmem
        have hfit := List.find?_eq_none.mp hfind b hb
        simp [hkey] at hfit
      rw [if_neg (by simpa using hnot)]
      exact ih
    | some b =>
      have hkey : keyB b = keyA a := by simpa using List.find?_some hfind
      have hmem : keyA a ∈ (index keyB rowsB).map keyB :=
        hkey ▸ List.mem_map_of_mem (List.mem_of_find?_eq_some hfind)
      rw [if_pos (by simpa using hmem), Option.map_some, List.map_cons, ih]

theorem map_inSync_right : (pairUp keyA keyB fits rowsA rowsB).inSync.map (fun p => keyB p.2) =
      (pairUp keyA keyB fits rowsA rowsB).inSync.map (fun p => keyA p.1) :=
  List.map_congr_left fun _ hp => (mem_inSync.mp hp).2.2.symm

theorem map_leftovers {δ : Type*} {key : α → κ} {otherKey : δ → κ} {rows : List α} {others : List δ} :
    (leftovers key others otherKey rows).map key =
      (rows.map key).filter (· ∉ others.map otherKey) := by
  rw [leftovers, List.filter_map]
  rfl

theorem perm_filter_mem (l keys : List κ) :
    (l.filter (· ∈ keys) ++ l.filter (· ∉ keys)).Perm l := by
  simpa only [decide_not] using List.filter_append_perm (fun k => decide (k ∈ keys)) l

theorem perm_localKeys :
    (localKeys keyA (pairUp keyA keyB fits rowsA rowsB)).Perm ((index keyA rowsA).map keyA) := by
  have hrest := (matched_pairUp keyA keyB fits rowsA rowsB).local_perm.map keyA
  rw [map_leftovers, List.map_append, List.map_map] at hrest
  rw [localKeys, List.append_assoc, map_inSync_left]
  apply (hrest.append_left _).trans
  exact perm_filter_mem _ _

theorem perm_remoteKeys :
    (remoteKeys keyB (pairUp keyA keyB fits rowsA rowsB)).Perm ((index keyB rowsB).map keyB) := by
  have hrest := (matched_pairUp keyA keyB fits rowsA rowsB).remote_perm.map keyB
  rw [map_leftovers, List.map_append, List.map_map] at hrest
  rw [remoteKeys, List.append_assoc, map_inSync_right, map_inSync_left]
  have hboth : (((index keyA rowsA).map keyA).filter (· ∈ (index keyB rowsB).map keyB)).Perm
      (((index keyB rowsB).map keyB).filter (· ∈ (index keyA rowsA).map keyA)) := by
    rw [List.perm_ext_iff_of_nodup ((nodup_index rowsA).filter _) ((nodup_index rowsB).filter _)]
    intro k
    simp only [List.mem_filter, decide_eq_true_eq]
    exact and_comm
  apply (hboth.append hrest).trans
  exact perm_filter_mem _ _

/-- The partition, but for the classes. -/
theorem proper_pairUp (hcls : ∀ a b, clsA a = clsB b → fits a b = true)
    (hfit : ∀ a b, Leftover keyA keyB rowsA rowsB a → Leftover keyB keyA rowsB rowsA b →
      fits a b = true → clsA a = clsB b) :
    Proper keyA keyB clsA clsB rowsA rowsB (pairUp keyA keyB fits rowsA rowsB) := by
  have hmatched := matched_pairUp keyA keyB fits rowsA rowsB
  have hlocal : ∀ a ∈ (pairUp keyA keyB fits rowsA rowsB).conflicts.map Prod.fst ++
      (pairUp keyA keyB fits rowsA rowsB).localOnly, Leftover keyA keyB rowsA rowsB a := fun a ha =>
    mem_leftovers (hmatched.local_perm.mem_iff.mp ha)
  have hremote : ∀ b ∈ (pairUp keyA keyB fits rowsA rowsB).conflicts.map Prod.snd ++
      (pairUp keyA keyB fits rowsA rowsB).remoteOnly, Leftover keyB keyA rowsB rowsA b := fun b hb =>
    mem_leftovers (hmatched.remote_perm.mem_iff.mp hb)
  refine ⟨?_, ?_, ?_, ?_, ?_, ?_, ?_, ?_, ?_, ?_⟩
  · exact perm_localKeys.nodup_iff.mpr (nodup_index rowsA)
  · exact fun k => perm_localKeys.mem_iff.trans mem_map_key_index
  · exact perm_remoteKeys.nodup_iff.mpr (nodup_index rowsB)
  · exact fun k => perm_remoteKeys.mem_iff.trans mem_map_key_index
  · intro k
    rw [map_inSync_left, List.mem_filter, decide_eq_true_eq, mem_map_key_index, mem_map_key_index]
  · intro p hp
    obtain ⟨ha, hb, hkey⟩ := mem_inSync.mp hp
    exact ⟨mem_of_mem_index ha, mem_of_mem_index hb, hkey⟩
  · intro p hp
    have ha := hlocal p.1 (List.mem_append_left _ (List.mem_map_of_mem hp))
    have hb := hremote p.2 (List.mem_append_left _ (List.mem_map_of_mem hp))
    exact ⟨ha, hb, hfit p.1 p.2 ha hb (hmatched.fit p hp)⟩
  · exact fun a ha => hlocal a (List.mem_append_right _ ha)
  · exact fun b hb => hremote b (List.mem_append_right _ hb)
  · intro a ha b hb heq
    have hnot := hmatched.unfit a ha b hb
    rw [hcls a b heq] at hnot
    cases hnot

/-! ### The order of the rows -/

section Counts

variable [DecidableEq γ] {δ : Type*} {rows rows' : List α} {key : α → κ} {otherKey : δ → κ}
  {others : List δ} {a : α}

theorem countP_eq_of_keys (hkeys : (rows.map keyA).Perm (rows'.map keyA))
    (hcls : ∀ a ∈ rows, ∀ a' ∈ rows', keyA a = keyA a' → clsA a = clsA a')
    (hnodup : (rows'.map keyA).Nodup) (c : γ) :
    rows.countP (clsA · = c) = rows'.countP (clsA · = c) := by
  classical
  -- The class of a key, as the second list has it.
  have hleft : rows.countP (clsA · = c) =
      rows.countP fun a => decide (∃ x ∈ rows', keyA x = keyA a ∧ clsA x = c) := by
    refine List.countP_congr fun a ha => ?_
    simp only [decide_eq_true_eq]
    constructor
    · rintro rfl
      obtain ⟨x, hx, hkey⟩ := List.mem_map.mp (hkeys.mem_iff.mp (List.mem_map_of_mem ha))
      exact ⟨x, hx, hkey, (hcls a ha x hx hkey.symm).symm⟩
    · rintro ⟨x, hx, hkey, rfl⟩
      exact hcls a ha x hx hkey.symm
  have hright : rows'.countP (clsA · = c) =
      rows'.countP fun a => decide (∃ x ∈ rows', keyA x = keyA a ∧ clsA x = c) := by
    refine List.countP_congr fun a ha => ?_
    simp only [decide_eq_true_eq]
    constructor
    · rintro rfl
      exact ⟨a, ha, rfl, rfl⟩
    · rintro ⟨x, hx, hkey, rfl⟩
      rw [List.inj_on_of_nodup_map hnodup hx ha hkey]
  have hmap : ∀ l : List α, (l.countP fun a => decide (∃ x ∈ rows', keyA x = keyA a ∧ clsA x = c)) =
      (l.map keyA).countP fun k => decide (∃ x ∈ rows', keyA x = k ∧ clsA x = c) := fun l => by
    rw [List.countP_map]
    rfl
  rw [hleft, hright, hmap, hmap]
  exact hkeys.countP_eq _

theorem perm_map_leftovers {others' : List δ} (hrows : rows'.Perm rows)
    (hothers : others'.Perm others) :
    ((leftovers key (index otherKey others) otherKey (index key rows)).map key).Perm
      ((leftovers key (index otherKey others') otherKey (index key rows')).map key) := by
  rw [map_leftovers, map_leftovers,
    List.perm_ext_iff_of_nodup ((nodup_index rows).filter _) ((nodup_index rows').filter _)]
  intro k
  simp only [List.mem_filter, decide_eq_true_eq, mem_map_key_index, (hrows.map key).mem_iff,
    (hothers.map otherKey).mem_iff]

omit [DecidableEq κ] in
theorem Leftover.perm {others' : List δ} (hrows : rows'.Perm rows) (hothers : others'.Perm others) :
    Leftover key otherKey rows' others' a ↔ Leftover key otherKey rows others a := by
  unfold Leftover
  rw [hrows.mem_iff, (hothers.map otherKey).mem_iff]

variable (keyA keyB clsA fits) in
theorem count_local (rowsA : List α) (rowsB : List β) (c : γ) :
    (pairUp keyA keyB fits rowsA rowsB).conflicts.countP (fun p => clsA p.1 = c) +
        (pairUp keyA keyB fits rowsA rowsB).localOnly.countP (clsA · = c) =
      (leftovers keyA (index keyB rowsB) keyB (index keyA rowsA)).countP (clsA · = c) := by
  have hperm := (matched_pairUp keyA keyB fits rowsA rowsB).local_perm.countP_eq (clsA · = c)
  rw [List.countP_append, List.countP_map] at hperm
  exact hperm

variable (keyA keyB clsB fits) in
theorem count_remote (rowsA : List α) (rowsB : List β) (c : γ) :
    (pairUp keyA keyB fits rowsA rowsB).conflicts.countP (fun p => clsB p.2 = c) +
        (pairUp keyA keyB fits rowsA rowsB).remoteOnly.countP (clsB · = c) =
      (leftovers keyB (index keyA rowsA) keyA (index keyB rowsB)).countP (clsB · = c) := by
  have hperm := (matched_pairUp keyA keyB fits rowsA rowsB).remote_perm.countP_eq (clsB · = c)
  rw [List.countP_append, List.countP_map] at hperm
  exact hperm

omit [DecidableEq κ] in
theorem Proper.counts {r : Pairing α β} (h : Proper keyA keyB clsA clsB rowsA rowsB r) (c : γ) :
    r.conflicts.countP (fun p => clsA p.1 = c) = r.conflicts.countP (fun p => clsB p.2 = c) ∧
      (r.localOnly.countP (clsA · = c) = 0 ∨ r.remoteOnly.countP (clsB · = c) = 0) := by
  constructor
  · refine List.countP_congr fun p hp => ?_
    rw [(h.conflict p hp).2.2]
  · by_contra hboth
    simp only [not_or, List.countP_eq_zero, decide_eq_true_eq, not_forall, not_not] at hboth
    obtain ⟨⟨a, ha, hac⟩, b, hb, hbc⟩ := hboth
    exact h.exhausted a ha b hb (hac.trans hbc.symm)

theorem Unambiguous.sameCounts (hcls : ∀ a b, clsA a = clsB b → fits a b = true)
    (h : Unambiguous keyA keyB clsA clsB fits rowsA rowsB) {rowsA' : List α} {rowsB' : List β}
    (hA : rowsA'.Perm rowsA) (hB : rowsB'.Perm rowsB) :
    Proper keyA keyB clsA clsB rowsA' rowsB' (pairUp keyA keyB fits rowsA' rowsB') ∧
      SameCounts keyA clsA clsB (pairUp keyA keyB fits rowsA rowsB)
        (pairUp keyA keyB fits rowsA' rowsB') := by
  have hproper := proper_pairUp hcls h.fit
  have hproper' : Proper keyA keyB clsA clsB rowsA' rowsB' (pairUp keyA keyB fits rowsA' rowsB') := by
    refine proper_pairUp hcls fun a b ha hb hfit => ?_
    exact h.fit a b ((Leftover.perm hA hB).mp ha) ((Leftover.perm hB hA).mp hb) hfit
  have hlocals : ∀ c, (leftovers keyA (index keyB rowsB) keyB (index keyA rowsA)).countP (clsA · = c) =
      (leftovers keyA (index keyB rowsB') keyB (index keyA rowsA')).countP (clsA · = c) := by
    apply countP_eq_of_keys (perm_map_leftovers hA hB)
    · intro a ha a' ha' hkey
      exact h.locals a a' (mem_leftovers ha) ((Leftover.perm hA hB).mp (mem_leftovers ha')) hkey
    · exact (nodup_index rowsA').sublist (List.filter_sublist.map _)
  have hremotes : ∀ c, (leftovers keyB (index keyA rowsA) keyA (index keyB rowsB)).countP (clsB · = c) =
      (leftovers keyB (index keyA rowsA') keyA (index keyB rowsB')).countP (clsB · = c) := by
    apply countP_eq_of_keys (perm_map_leftovers hB hA)
    · intro b hb b' hb' hkey
      exact h.remotes b b' (mem_leftovers hb) ((Leftover.perm hB hA).mp (mem_leftovers hb')) hkey
    · exact (nodup_index rowsB').sublist (List.filter_sublist.map _)
  have hcounts : ∀ c,
      (pairUp keyA keyB fits rowsA rowsB).conflicts.countP (fun p => clsA p.1 = c) =
          (pairUp keyA keyB fits rowsA' rowsB').conflicts.countP (fun p => clsA p.1 = c) ∧
        (pairUp keyA keyB fits rowsA rowsB).localOnly.countP (clsA · = c) =
          (pairUp keyA keyB fits rowsA' rowsB').localOnly.countP (clsA · = c) ∧
        (pairUp keyA keyB fits rowsA rowsB).remoteOnly.countP (clsB · = c) =
          (pairUp keyA keyB fits rowsA' rowsB').remoteOnly.countP (clsB · = c) := by
    intro c
    obtain ⟨hsame, hnone⟩ := hproper.counts c
    obtain ⟨hsame', hnone'⟩ := hproper'.counts c
    have hl := count_local keyA keyB clsA fits rowsA rowsB c
    have hl' := count_local keyA keyB clsA fits rowsA' rowsB' c
    have hr := count_remote keyA keyB clsB fits rowsA rowsB c
    have hr' := count_remote keyA keyB clsB fits rowsA' rowsB' c
    rw [hlocals c] at hl
    rw [hremotes c] at hr
    omega
  refine ⟨hproper', ?_, fun c => (hcounts c).1, fun c => (hcounts c).2.1, fun c => (hcounts c).2.2⟩
  intro k
  rw [hproper.in_sync, hproper'.in_sync, (hA.map keyA).mem_iff, (hB.map keyB).mem_iff]

/-- A side in the order in which one of its rows comes first. -/
theorem leftovers_front {others : List α} {rest : List δ} (h : key a ∉ rest.map otherKey) :
    leftovers key rest otherKey (index key (front key a others)) =
      a :: leftovers key rest otherKey (index key (others.filter (key · ≠ key a))) := by
  rw [leftovers, index_front, List.filter_cons, if_pos (by simpa using h)]
  rfl

omit [DecidableEq κ] [DecidableEq γ] in
theorem exists_perm_cons (h : a ∈ rows) : ∃ others, (a :: others).Perm rows := by
  obtain ⟨s, t, rfl⟩ := List.append_of_mem h
  exact ⟨s ++ t, List.perm_middle.symm⟩

omit [DecidableEq κ] [DecidableEq γ] in
theorem exists_perm_cons_cons {a' : α} (h : a ∈ rows) (h' : a' ∈ rows) (hne : a ≠ a') :
    ∃ rest, (a :: a' :: rest).Perm rows := by
  obtain ⟨others, hothers⟩ := exists_perm_cons h
  have hmem : a' ∈ others :=
    (List.mem_cons.mp (hothers.mem_iff.mpr h')).resolve_left hne.symm
  obtain ⟨rest, hrest⟩ := exists_perm_cons hmem
  exact ⟨rest, (hrest.cons a).trans hothers⟩

/-- The first rows of the two sides are a conflict when they fit. -/
theorem conflict_front {b : β} (othersA : List α) (othersB : List β)
    (ha : keyA a ∉ (front keyB b othersB).map keyB)
    (hb : keyB b ∉ (front keyA a othersA).map keyA) (hfit : fits a b = true) :
    (a, b) ∈ (pairUp keyA keyB fits (front keyA a othersA) (front keyB b othersB)).conflicts := by
  have ha' : keyA a ∉ (index keyB (front keyB b othersB)).map keyB :=
    fun h => ha (mem_map_key_index.mp h)
  have hb' : keyB b ∉ (index keyA (front keyA a othersA)).map keyA :=
    fun h => hb (mem_map_key_index.mp h)
  rw [pairUp]
  dsimp only
  rw [leftovers_front ha', leftovers_front hb', matchUp, List.find?_cons_of_pos hfit]
  exact List.mem_cons_self

/-- A key that is left and is of two classes counts in one or the other, as the rows are ordered. -/
theorem leftovers_swap {cls : α → γ} {a' : α} {rest : List α} (hkey : key a = key a')
    (hleft : key a ∉ others.map otherKey) (hcls : cls a ≠ cls a') :
    (leftovers key others otherKey (index key (front key a (a' :: rest)))).countP (cls · = cls a) =
      (leftovers key others otherKey (index key (front key a' (a :: rest)))).countP
      (cls · = cls a) + 1 := by
  rw [leftovers_front hleft, leftovers_front (hkey ▸ hleft), List.countP_cons_of_pos (by simp),
    List.countP_cons_of_neg (by simpa using hcls.symm)]
  simp [hkey]

theorem unambiguous_of_orders (h : ∀ rowsA' rowsB', rowsA'.Perm rowsA → rowsB'.Perm rowsB →
      Proper keyA keyB clsA clsB rowsA' rowsB' (pairUp keyA keyB fits rowsA' rowsB') ∧
        SameCounts keyA clsA clsB (pairUp keyA keyB fits rowsA rowsB)
          (pairUp keyA keyB fits rowsA' rowsB')) :
    Unambiguous keyA keyB clsA clsB fits rowsA rowsB := by
  refine ⟨?_, ?_, ?_⟩
  · intro a b ha hb hfit
    obtain ⟨othersA, hA⟩ := exists_perm_cons ha.1
    obtain ⟨othersB, hB⟩ := exists_perm_cons hb.1
    have hA' : (front keyA a othersA).Perm rowsA := perm_front.trans hA
    have hB' : (front keyB b othersB).Perm rowsB := perm_front.trans hB
    have hconflict := conflict_front othersA othersB
      (fun hmem => ha.2 ((hB'.map keyB).mem_iff.mp hmem))
      (fun hmem => hb.2 ((hA'.map keyA).mem_iff.mp hmem)) hfit
    exact ((h _ _ hA' hB').1.conflict _ hconflict).2.2
  · intro a a' ha ha' hkey
    by_contra hcls
    obtain ⟨rest, hrest⟩ := exists_perm_cons_cons ha.1 ha'.1 fun heq => hcls (heq ▸ rfl)
    have hfirst : (front keyA a (a' :: rest)).Perm rowsA := perm_front.trans hrest
    have hsecond : (front keyA a' (a :: rest)).Perm rowsA :=
      perm_front.trans ((List.Perm.swap a a' rest).trans hrest)
    have hcounts := (h _ _ hfirst (.refl _)).2
    have hcounts' := (h _ _ hsecond (.refl _)).2
    have hl := count_local keyA keyB clsA fits (front keyA a (a' :: rest)) rowsB (clsA a)
    have hl' := count_local keyA keyB clsA fits (front keyA a' (a :: rest)) rowsB (clsA a)
    have hleft : keyA a ∉ (index keyB rowsB).map keyB := fun hm => ha.2 (mem_map_key_index.mp hm)
    rw [leftovers_swap hkey hleft hcls, ← hcounts.conflicts, ← hcounts.localOnly] at hl
    rw [← hcounts'.conflicts, ← hcounts'.localOnly] at hl'
    omega
  · intro b b' hb hb' hkey
    by_contra hcls
    obtain ⟨rest, hrest⟩ := exists_perm_cons_cons hb.1 hb'.1 fun heq => hcls (heq ▸ rfl)
    have hfirst : (front keyB b (b' :: rest)).Perm rowsB := perm_front.trans hrest
    have hsecond : (front keyB b' (b :: rest)).Perm rowsB :=
      perm_front.trans ((List.Perm.swap b b' rest).trans hrest)
    obtain ⟨hproper, hcounts⟩ := h _ _ (.refl _) hfirst
    obtain ⟨hproper', hcounts'⟩ := h _ _ (.refl _) hsecond
    have hr := count_remote keyA keyB clsB fits rowsA (front keyB b (b' :: rest)) (clsB b)
    have hr' := count_remote keyA keyB clsB fits rowsA (front keyB b' (b :: rest)) (clsB b)
    have hleft : keyB b ∉ (index keyA rowsA).map keyA := fun hm => hb.2 (mem_map_key_index.mp hm)
    rw [leftovers_swap hkey hleft hcls, ← (hproper.counts _).1, ← hcounts.conflicts,
      ← hcounts.remoteOnly] at hr
    rw [← (hproper'.counts _).1, ← hcounts'.conflicts, ← hcounts'.remoteOnly] at hr'
    omega

theorem orders_iff (hcls : ∀ a b, clsA a = clsB b → fits a b = true) :
    (∀ rowsA' rowsB', rowsA'.Perm rowsA → rowsB'.Perm rowsB →
      Proper keyA keyB clsA clsB rowsA' rowsB' (pairUp keyA keyB fits rowsA' rowsB') ∧
        SameCounts keyA clsA clsB (pairUp keyA keyB fits rowsA rowsB)
          (pairUp keyA keyB fits rowsA' rowsB')) ↔
      Unambiguous keyA keyB clsA clsB fits rowsA rowsB :=
  ⟨unambiguous_of_orders, fun h _ _ hA hB => h.sameCounts hcls hA hB⟩

end Counts

end Proofs

end Insula.KeyPairing
