import Mathlib.Data.List.Basic

/-!
# First fit

Items are put one after another into the first bin that takes them, by any rule and with any charge.
Items that are all alike fill the bins in one way only, up to the order, so that first fit finds no
place for one of them only when nothing does.
-/

namespace Insula.FirstFit

variable {N B : Type*} (fits : N → B → Prop) (charge : N → B → B)

section Place

variable [∀ n b, Decidable (fits n b)]

def place (n : N) : List B → Option (List B)
  | [] => none
  | b :: bins => if fits n b then some (charge n b :: bins) else (place n bins).map (b :: ·)

def firstFit : List N → List B → Option (List B)
  | [], bins => some bins
  | n :: ns, bins => (place fits charge n bins).bind (firstFit ns)

end Place

def Places (n : N) (bins bins' : List B) : Prop :=
  ∃ i b, bins[i]? = some b ∧ fits n b ∧ bins' = bins.set i (charge n b)

inductive Placed : List N → List B → List B → Prop
  | nil {bins : List B} : Placed [] bins bins
  | cons {n : N} {ns : List N} {bins mid final : List B} :
    Places fits charge n bins mid → Placed ns mid final → Placed (n :: ns) bins final

variable {fits charge} {n : N} {ns : List N} {bins bins' final : List B}

section Place

variable [∀ n b, Decidable (fits n b)]

theorem place_eq_none_iff : place fits charge n bins = none ↔ ∀ b ∈ bins, ¬ fits n b := by
  induction bins with
  | nil => simp [place]
  | cons b bins ih =>
    unfold place
    by_cases hfits : fits n b
    · simp [hfits]
    · simp [hfits, ih]

theorem places_of_place (h : place fits charge n bins = some bins') :
    Places fits charge n bins bins' := by
  induction bins generalizing bins' with
  | nil => cases h
  | cons b bins ih =>
    unfold place at h
    split at h
    next hfits =>
      cases h
      exact ⟨0, b, rfl, hfits, rfl⟩
    next =>
      obtain ⟨rest, hrest, rfl⟩ := Option.map_eq_some_iff.mp h
      obtain ⟨i, c, hc, hfits, rfl⟩ := ih hrest
      exact ⟨i + 1, c, hc, hfits, rfl⟩

theorem placed_of_firstFit (h : firstFit fits charge ns bins = some final) :
    Placed fits charge ns bins final := by
  induction ns generalizing bins with
  | nil =>
    cases h
    exact .nil
  | cons n ns ih =>
    obtain ⟨mid, hmid, h⟩ := Option.bind_eq_some_iff.mp h
    exact .cons (places_of_place hmid) (ih h)

end Place

theorem length_of_places (h : Places fits charge n bins bins') : bins'.length = bins.length := by
  obtain ⟨i, b, -, -, rfl⟩ := h
  exact List.length_set

theorem places_single_iff {b : B} :
    Places fits charge n [b] bins ↔ fits n b ∧ bins = [charge n b] := by
  constructor
  · rintro ⟨i, c, hc, hfits, rfl⟩
    cases i with
    | zero =>
      cases hc
      exact ⟨hfits, rfl⟩
    | succ i => cases hc
  · rintro ⟨hfits, rfl⟩
    exact ⟨0, b, rfl, hfits, rfl⟩

theorem placed_cons_iff : (∃ final, Placed fits charge (n :: ns) bins final) ↔
    ∃ mid, Places fits charge n bins mid ∧ ∃ final, Placed fits charge ns mid final := by
  constructor
  · rintro ⟨final, h⟩
    cases h with
    | cons hfirst hrest => exact ⟨_, hfirst, _, hrest⟩
  · rintro ⟨mid, hfirst, final, hrest⟩
    exact ⟨final, .cons hfirst hrest⟩

/-! ## Items that are all alike -/

/-- The same item in two bins can be put into both, in either order. -/
theorem Places.diamond {left right : List B} (hleft : Places fits charge n bins left)
    (hright : Places fits charge n bins right) :
    left = right ∨ ∃ both, Places fits charge n left both ∧ Places fits charge n right both := by
  obtain ⟨i, b, hb, hfits, rfl⟩ := hleft
  obtain ⟨j, c, hc, hfits', rfl⟩ := hright
  by_cases hij : i = j
  · subst hij
    rw [hb] at hc
    cases hc
    exact .inl rfl
  · right
    refine ⟨(bins.set i (charge n b)).set j (charge n c), ⟨j, c, ?_, hfits', rfl⟩, i, b, ?_, hfits, ?_⟩
    · rw [List.getElem?_set_ne hij]
      exact hc
    · rw [List.getElem?_set_ne (Ne.symm hij)]
      exact hb
    · exact List.set_comm _ _ hij

/-- Whichever bin is taken first, as many items follow as before. -/
theorem Placed.strip {k : ℕ} {full : List B} (h : Placed fits charge (List.replicate k n) bins full)
    (hfull : ∀ b ∈ full, ¬ fits n b) (hplaces : Places fits charge n bins bins') :
    ∃ l, k = l + 1 ∧ Placed fits charge (List.replicate l n) bins' full := by
  induction k generalizing bins bins' with
  | zero =>
    cases h
    obtain ⟨i, b, hb, hfits, -⟩ := hplaces
    exact absurd hfits (hfull b (List.mem_of_getElem? hb))
  | succ k ih =>
    cases h with
    | cons hfirst hrest =>
      rcases hfirst.diamond hplaces with rfl | ⟨both, hleft, hright⟩
      · exact ⟨k, rfl, hrest⟩
      · obtain ⟨l, rfl, hboth⟩ := ih hrest hleft
        exact ⟨l + 1, rfl, .cons hright hboth⟩

/-- No more items can be put into bins than until all of them refuse. -/
theorem Placed.length_le {k m : ℕ} {full other : List B}
    (h : Placed fits charge (List.replicate k n) bins full) (hfull : ∀ b ∈ full, ¬ fits n b)
    (hother : Placed fits charge (List.replicate m n) bins other) : m ≤ k := by
  induction m generalizing bins k with
  | zero => exact Nat.zero_le k
  | succ m ih =>
    cases hother with
    | cons hfirst hrest =>
      obtain ⟨l, rfl, hl⟩ := h.strip hfull hfirst
      exact Nat.succ_le_succ (ih hl hrest)

/-- Every bin takes both items or neither, and is charged alike. -/
def Alike (fits : N → B → Prop) (charge : N → B → B) (m n : N) : Prop :=
  (∀ b, fits m b ↔ fits n b) ∧ ∀ b, charge m b = charge n b

theorem Placed.replicate (h : Placed fits charge ns bins final)
    (halike : ∀ m ∈ ns, Alike fits charge m n) :
    Placed fits charge (List.replicate ns.length n) bins final := by
  induction h with
  | nil => exact .nil
  | @cons m ns bins mid final hplaces hplaced ih =>
    have hm := halike m List.mem_cons_self
    obtain ⟨i, b, hb, hfits, rfl⟩ := hplaces
    rw [hm.2 b] at ih
    exact .cons ⟨i, b, hb, (hm.1 b).mp hfits, rfl⟩ (ih fun x hx => halike x (List.mem_cons_of_mem _ hx))

/-- When all items are alike and one of them finds no place behind some others, there is no place
for all. -/
theorem not_placed_of_alike {before after order : List N} {stuck : List B}
    (halike : ∀ m ∈ before ++ n :: after, Alike fits charge m n)
    (hbefore : Placed fits charge before bins stuck) (hstuck : ∀ b ∈ stuck, ¬ fits n b)
    (horder : order.Perm (before ++ n :: after)) : ¬ Placed fits charge order bins final := by
  intro h
  have hleft := hbefore.replicate fun m hm => halike m (List.mem_append_left _ hm)
  have hright := h.replicate fun m hm => halike m (horder.subset hm)
  have hle := hleft.length_le hstuck hright
  rw [horder.length_eq, List.length_append, List.length_cons] at hle
  omega

end Insula.FirstFit
