import Insula.CursorPages
import Mathlib.Algebra.Order.Group.Int

/-!
# The pages of a tenant's deployments

`listDeployments` reads a page of the deployments in the order of their creation. The cursor for the
next page has the creation time of the last row as a `Date`, which is in whole milliseconds, while
the times are stored in microseconds.
-/

namespace Insula.DeploymentPages

open CursorPages

abbrev Text := List Char

inductive Direction
  | asc | desc
deriving DecidableEq, Repr

structure Deployment where
  id : Text
  tenantId : Text
  status : Text
  createdAt : ℤ
deriving DecidableEq

structure CursorData where
  resource : Text
  sort : ℤ
  id : Text
deriving DecidableEq

/-- The limit is at least one (`parsePaginationParams`). -/
structure ListParams where
  limit : ℕ
  limit_pos : 0 < limit
  direction : Direction
  includeDeleted : Bool

structure Page where
  data : List Deployment
  cursor : Option CursorData
  hasMore : Bool
  pageSize : ℕ
  totalCount : ℕ

/-- What a `Date` keeps of a time. -/
def millisecond (t : ℤ) : ℤ := t / 1000 * 1000

def cursorOf (last : Deployment) : CursorData := ⟨"deployment".toList, millisecond last.createdAt, last.id⟩

section Query

variable (tenantId : Text) (params : ListParams)

def listed (d : Deployment) : Bool :=
  d.tenantId = tenantId && (params.includeDeleted || d.status ≠ "deleted".toList)

def afterCursor (cursor : Option CursorData) (d : Deployment) : Bool :=
  cursor.all fun c =>
    match params.direction with
    | .desc => d.createdAt < c.sort
    | .asc => c.sort < d.createdAt

def inOrder (a b : ℤ) : Prop :=
  match params.direction with
  | .desc => b ≤ a
  | .asc => a ≤ b

/-- What the query finds without its limit; rows of one time come in any order. -/
structure Found (rows : List Deployment) (cursor : Option CursorData) (found : List Deployment) :
    Prop where
  perm : found.Perm ((rows.filter (listed tenantId params)).filter (afterCursor params cursor))
  sorted : (found.map Deployment.createdAt).Pairwise (inOrder params)

structure Listings (rows : List Deployment) where
  select : ℕ → Option CursorData → List Deployment
  found : ∀ n cursor, Found tenantId params rows cursor (select n cursor)

def listDeployments (found : List Deployment) : Page :=
  let rows := found.take (params.limit + 1)
  let hasMore := params.limit < rows.length
  let data := rows.take params.limit
  let nextCursor := if hasMore ∧ 0 < data.length then data.getLast?.map cursorOf else none
  ⟨data, nextCursor, hasMore, data.length, found.length⟩

end Query

/-! ## Following the cursors -/

section Following

variable {tenantId : Text} {params : ListParams} {rows : List Deployment}

def followCursors (t : Listings tenantId params rows) :
    ℕ → ℕ → Option CursorData → Option (List (List Deployment))
  | 0, _, _ => none
  | fuel + 1, n, cursor =>
    let page := listDeployments params (t.select n cursor)
    match page.cursor with
    | none => some [page.data]
    | some next => (followCursors t fuel (n + 1) (some next)).map (page.data :: ·)

def VisitsOnce (t : Listings tenantId params rows) : Prop :=
  ∃ fuel pages, followCursors t fuel 0 none = some pages ∧
    pages.flatten.Perm (rows.filter (listed tenantId params))

end Following

def timesInOrder (tenantId : Text) (params : ListParams) (rows : List Deployment) : List ℤ :=
  ((rows.filter (listed tenantId params)).map Deployment.createdAt).mergeSort fun a b =>
    match params.direction with
    | .desc => b ≤ a
    | .asc => a ≤ b

/-- Between the last row of a page and the next row the time goes on: downwards, to before the
millisecond of the last row; upwards, from a whole millisecond. -/
def Apart (params : ListParams) (a b : ℤ) : Prop :=
  match params.direction with
  | .desc => b < millisecond a
  | .asc => a = millisecond a ∧ a < b

def ApartAtBorders (params : ListParams) (times : List ℤ) : Prop :=
  ∀ k, 0 < k → ∀ a b, times[k * params.limit - 1]? = some a → times[k * params.limit]? = some b →
    Apart params a b

/-! ## Milliseconds -/

theorem millisecond_le (t : ℤ) : millisecond t ≤ t := by
  unfold millisecond
  omega

theorem millisecond_mono ⦃a b : ℤ⦄ (h : a ≤ b) : millisecond a ≤ millisecond b := by
  unfold millisecond
  omega

theorem millisecond_millisecond (t : ℤ) : millisecond (millisecond t) = millisecond t := by
  unfold millisecond
  omega

/-! ## As pages behind a cursor -/

section Paging

open OrderDual

def ascending : Paging Deployment CursorData ℤ where
  key := Deployment.createdAt
  make := cursorOf
  bound := CursorData.sort
  mark := millisecond
  bound_make _ := rfl
  mono := millisecond_mono
  idem := millisecond_millisecond

def descending : Paging Deployment CursorData ℤᵒᵈ where
  key d := toDual d.createdAt
  make := cursorOf
  bound c := toDual c.sort
  mark k := toDual (millisecond (ofDual k))
  bound_make _ := rfl
  mono _ _ h := millisecond_mono h
  idem k := congrArg toDual (millisecond_millisecond (ofDual k))

variable {tenantId : Text} {params : ListParams} {rows : List Deployment}

variable (params) in
theorem listDeployments_eq (found : List Deployment) :
    (listDeployments params found).data = found.take params.limit ∧
      (listDeployments params found).cursor =
        if params.limit < found.length then (found.take params.limit).getLast?.map cursorOf
        else none := by
  have hdata : (found.take (params.limit + 1)).take params.limit = found.take params.limit := by
    rw [List.take_take, Nat.min_eq_left (Nat.le_succ _)]
  have hmore : params.limit < (found.take (params.limit + 1)).length ↔ params.limit < found.length := by
    rw [List.length_take]
    omega
  unfold listDeployments
  dsimp only
  rw [hdata]
  refine ⟨rfl, ?_⟩
  by_cases hlt : params.limit < found.length
  · have hpos := params.limit_pos
    rw [if_pos hlt, if_pos ⟨hmore.mpr hlt, by rw [List.length_take]; omega⟩]
  · rw [if_neg hlt, if_neg (fun h => hlt (hmore.mp h.1))]

section

variable {κ : Type} [LinearOrder κ] {p : Paging Deployment CursorData κ}
  {t : Listings tenantId params rows} {db : Database p (rows.filter (listed tenantId params))}

theorem followCursors_eq (hmake : p.make = cursorOf) (hask : db.ask = t.select) (fuel n : ℕ)
    (cursor : Option CursorData) :
    followCursors t fuel n cursor = follow p db params.limit fuel n cursor := by
  induction fuel generalizing n cursor with
  | zero => rfl
  | succ fuel ih =>
    obtain ⟨hdata, hcursor⟩ := listDeployments_eq params (t.select n cursor)
    rw [followCursors, follow]
    simp only [hdata, hcursor, hask, hmake]
    by_cases hlt : params.limit < (t.select n cursor).length
    · simp only [if_pos hlt]
      cases ((t.select n cursor).take params.limit).getLast? with
      | none => rfl
      | some last =>
        simp only [Option.map_some]
        rw [ih]
    · simp only [if_neg hlt]

variable (db) in
theorem visitsOnce_iff_follow (hmake : p.make = cursorOf) (hask : db.ask = t.select) :
    VisitsOnce t ↔ CursorPages.VisitsOnce p db params.limit := by
  unfold VisitsOnce CursorPages.VisitsOnce
  simp only [followCursors_eq hmake hask]

end

/-- The times of the first query are those of the listing, whatever the order of equal ones. -/
theorem times_eq (t : Listings tenantId params rows) :
    (t.select 0 none).map Deployment.createdAt = timesInOrder tenantId params rows := by
  have hall : (rows.filter (listed tenantId params)).filter (afterCursor params none) =
      rows.filter (listed tenantId params) := List.filter_eq_self.mpr fun _ _ => rfl
  have hfound := t.found 0 none
  have hperm := hfound.perm.map Deployment.createdAt
  rw [hall] at hperm
  unfold timesInOrder
  have hsorted := hfound.sorted
  unfold inOrder at hsorted
  cases hdirection : params.direction with
  | asc =>
    rw [hdirection] at hsorted
    apply List.Perm.eq_of_pairwise (fun a b _ _ hab hba => le_antisymm hab hba) hsorted _
      (hperm.trans (List.mergeSort_perm _ _).symm)
    refine (List.pairwise_mergeSort ?_ ?_ _).imp of_decide_eq_true
    · intro a b c hab hbc
      exact decide_eq_true (le_trans (of_decide_eq_true hab) (of_decide_eq_true hbc))
    · intro a b
      simpa using le_total a b
  | desc =>
    rw [hdirection] at hsorted
    apply List.Perm.eq_of_pairwise (fun a b _ _ hab hba => le_antisymm hba hab) hsorted _
      (hperm.trans (List.mergeSort_perm _ _).symm)
    refine (List.pairwise_mergeSort ?_ ?_ _).imp of_decide_eq_true
    · intro a b c hab hbc
      exact decide_eq_true (le_trans (of_decide_eq_true hbc) (of_decide_eq_true hab))
    · intro a b
      simpa using le_total b a

/-- Following the cursors visits every deployment once exactly when the creation times go on at the
border of every page. -/
theorem visitsOnce_iff_apart (tenantId : Text) (params : ListParams) (rows : List Deployment)
    (t : Listings tenantId params rows) :
    VisitsOnce t ↔ ApartAtBorders params (timesInOrder tenantId params rows) := by
  rw [← times_eq t]
  unfold ApartAtBorders
  cases hdirection : params.direction with
  | asc =>
    have hbehind : ascending.behind = afterCursor params := by
      funext cursor d
      unfold Paging.behind afterCursor
      rw [hdirection]
      rfl
    let db : Database ascending (rows.filter (listed tenantId params)) :=
      ⟨t.select, fun n cursor => ⟨hbehind ▸ (t.found n cursor).perm, by
        have hsorted := (t.found n cursor).sorted
        unfold inOrder at hsorted
        rwa [hdirection] at hsorted⟩⟩
    have hborder : ∀ a b : ℤ, Border millisecond a b ↔ Apart params a b := by
      intro a b
      have hle := millisecond_le a
      unfold Border Apart
      rw [hdirection]
      dsimp only
      omega
    rw [visitsOnce_iff_follow db rfl rfl, visitsOnce_iff params.limit_pos]
    unfold Separated
    simp only [← hborder]
    rfl
  | desc =>
    have hbehind : descending.behind = afterCursor params := by
      funext cursor d
      unfold Paging.behind afterCursor
      rw [hdirection]
      rfl
    let db : Database descending (rows.filter (listed tenantId params)) :=
      ⟨t.select, fun n cursor => ⟨hbehind ▸ (t.found n cursor).perm, by
        have hsorted := (t.found n cursor).sorted
        unfold inOrder at hsorted
        rwa [hdirection] at hsorted⟩⟩
    have hborder : ∀ a b : ℤ, Border descending.mark (toDual a) (toDual b) ↔ Apart params a b := by
      intro a b
      have hle := millisecond_le a
      unfold Apart
      rw [hdirection]
      exact and_iff_right hle
    rw [visitsOnce_iff_follow db rfl rfl, visitsOnce_iff params.limit_pos]
    unfold Separated
    simp only [← hborder]
    rfl

end Paging

/-! ### Two deployments of one instant -/

def Listings.ofSorted {tenantId : Text} {params : ListParams} {rows : List Deployment}
    (h : (rows.map Deployment.createdAt).Pairwise (inOrder params)) :
    Listings tenantId params rows where
  select _ cursor := (rows.filter (listed tenantId params)).filter (afterCursor params cursor)
  found _ _ := ⟨.refl _, h.sublist ((List.filter_sublist.trans List.filter_sublist).map _)⟩

def twin (id : Char) : Deployment := ⟨[id], ['t'], "running".toList, 1700000000000000⟩

def firstPage : ListParams := ⟨1, Nat.one_pos, .desc, false⟩

def twinListings : Listings ['t'] firstPage [twin 'a', twin 'b'] :=
  .ofSorted (by simp [twin, inOrder, firstPage])

/-- The second one is behind the border of the first page and is skipped. -/
theorem twin_is_skipped : ¬ VisitsOnce twinListings := by
  rintro ⟨fuel, pages, hfollow, hpages⟩
  have hshort : pages.flatten.length ≤ 1 := by
    cases fuel with
    | zero => cases hfollow
    | succ fuel =>
      cases fuel with
      | zero => cases hfollow
      | succ fuel =>
        cases hfollow
        decide
  rw [hpages.length_eq] at hshort
  revert hshort
  decide

end Insula.DeploymentPages
