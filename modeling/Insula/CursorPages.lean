import Mathlib.Data.List.Count
import Mathlib.Data.List.Sort

/-!
# Pages behind a cursor

A listing is read page by page. The query for a page takes the rows whose key is behind a mark that
was made from the last row of the page before, and the mark is not the key itself but what is left
of it when it is rounded. Rows with equal keys come in any order, in every query anew.
-/

namespace Insula.CursorPages

variable {R C κ : Type*} [LinearOrder κ]

structure Paging (R C κ : Type*) [LinearOrder κ] where
  key : R → κ
  make : R → C
  bound : C → κ
  mark : κ → κ
  bound_make : ∀ r, bound (make r) = mark (key r)
  mono : Monotone mark
  idem : ∀ k, mark (mark k) = mark k

variable (p : Paging R C κ)

def Paging.behind (c : Option C) (r : R) : Bool := c.all fun c => p.bound c < p.key r

structure Answer (rows : List R) (c : Option C) (found : List R) : Prop where
  perm : found.Perm (rows.filter (p.behind c))
  sorted : (found.map p.key).Pairwise (· ≤ ·)

structure Database (rows : List R) where
  ask : ℕ → Option C → List R
  answer : ∀ n c, Answer p rows c (ask n c)

def follow {rows : List R} (db : Database p rows) (limit : ℕ) :
    ℕ → ℕ → Option C → Option (List (List R))
  | 0, _, _ => none
  | fuel + 1, n, c =>
    let found := db.ask n c
    let data := found.take limit
    match if limit < found.length then data.getLast? else none with
    | none => some [data]
    | some last => (follow db limit fuel (n + 1) (some (p.make last))).map (data :: ·)

def VisitsOnce {rows : List R} (db : Database p rows) (limit : ℕ) : Prop :=
  ∃ fuel pages, follow p db limit fuel 0 none = some pages ∧ pages.flatten.Perm rows

/-- The mark of the last row of a page is not before it, and before the next row. -/
def Border (mark : κ → κ) (a b : κ) : Prop := a ≤ mark a ∧ mark a < b

def Separated (mark : κ → κ) (limit : ℕ) (keys : List κ) : Prop :=
  ∀ k, 0 < k → ∀ a b, keys[k * limit - 1]? = some a → keys[k * limit]? = some b → Border mark a b

/-! ## Borders -/

section Borders

variable {mark : κ → κ} {limit : ℕ}

theorem separated_of_le {keys : List κ} (h : keys.length ≤ limit) : Separated mark limit keys := by
  intro k hk a b ha hb
  have hlt := (List.getElem?_eq_some_iff.mp hb).1
  have hle : limit ≤ k * limit := Nat.le_mul_of_pos_left limit hk
  omega

theorem separated_append {init rest : List κ} {a b : κ} (hlength : (init ++ [a]).length = limit) :
    Separated mark limit (init ++ [a] ++ b :: rest) ↔
      Border mark a b ∧ Separated mark limit (b :: rest) := by
  have hpos : 0 < limit := by
    rw [← hlength, List.length_append]
    exact Nat.succ_pos _
  have hinit : init.length = limit - 1 := by
    rw [List.length_append, List.length_singleton] at hlength
    omega
  constructor
  · intro h
    constructor
    · apply h 1 Nat.one_pos
      · rw [Nat.one_mul, List.append_assoc, List.getElem?_append_right (by omega), hinit, Nat.sub_self]
        rfl
      · rw [Nat.one_mul, List.getElem?_append_right (by omega), hlength, Nat.sub_self]
        rfl
    · intro k hk x y hx hy
      have hle : limit ≤ k * limit := Nat.le_mul_of_pos_left limit hk
      apply h (k + 1) (by omega)
      · rw [List.getElem?_append_right (by rw [hlength, Nat.succ_mul]; omega), hlength]
        rwa [show (k + 1) * limit - 1 - limit = k * limit - 1 by rw [Nat.succ_mul]; omega]
      · rw [List.getElem?_append_right (by rw [hlength, Nat.succ_mul]; omega), hlength]
        rwa [show (k + 1) * limit - limit = k * limit by rw [Nat.succ_mul]; omega]
  · rintro ⟨hborder, hrest⟩ k hk x y hx hy
    have hle : limit ≤ k * limit := Nat.le_mul_of_pos_left limit hk
    by_cases hone : k = 1
    · subst hone
      rw [Nat.one_mul, List.append_assoc, List.getElem?_append_right (by omega), hinit,
        Nat.sub_self] at hx
      rw [Nat.one_mul, List.getElem?_append_right (by omega), hlength, Nat.sub_self] at hy
      cases hx
      cases hy
      exact hborder
    · obtain ⟨j, rfl⟩ : ∃ j, k = j + 1 := ⟨k - 1, by omega⟩
      have hj : 0 < j := by omega
      have hjle : limit ≤ j * limit := Nat.le_mul_of_pos_left limit hj
      rw [List.getElem?_append_right (by rw [hlength, Nat.succ_mul]; omega), hlength,
        show (j + 1) * limit - 1 - limit = j * limit - 1 by rw [Nat.succ_mul]; omega] at hx
      rw [List.getElem?_append_right (by rw [hlength, Nat.succ_mul]; omega), hlength,
        show (j + 1) * limit - limit = j * limit by rw [Nat.succ_mul]; omega] at hy
      exact hrest j hj x y hx hy

theorem count_take {a : κ} (n : ℕ) {keys : List κ} (hsorted : keys.Pairwise (· ≤ ·))
    (hleast : ∀ k ∈ keys, a ≤ k) : (keys.take n).count a = min n (keys.count a) := by
  induction keys generalizing n with
  | nil => simp
  | cons k keys ih =>
    cases n with
    | zero => simp
    | succ n =>
      obtain ⟨hk, hkeys⟩ := List.pairwise_cons.mp hsorted
      rw [List.take_succ_cons, List.count_cons, List.count_cons,
        ih n hkeys (fun x hx => hleast x (List.mem_cons_of_mem _ hx))]
      by_cases heq : k = a
      · simp only [heq, beq_self_eq_true, if_true]
        omega
      · have hnone : keys.count a = 0 := by
          rw [List.count_eq_zero]
          intro hmem
          exact heq (le_antisymm (hk a hmem) (hleast k List.mem_cons_self))
        simp [heq, hnone]

end Borders

/-! ## Queries -/

section Queries

variable {p} {rows other : List R} {db : Database p rows} {limit fuel n : ℕ} {c : Option C} {r x : R}

def Fixed (p : Paging R C κ) (c : Option C) : Prop := ∀ b ∈ c, p.mark (p.bound b) = p.bound b

theorem fixed_make : Fixed p (some (p.make r)) := by
  intro b hb
  cases hb
  rw [p.bound_make, p.idem]

theorem behind_make : p.behind (some (p.make r)) x = decide (p.mark (p.key r) < p.key x) := by
  rw [← p.bound_make]
  rfl

/-- What is behind the mark of a row is behind the mark that the row is behind. -/
theorem behind_trans (hfixed : Fixed p c) (hr : p.behind c r = true)
    (hx : p.behind (some (p.make r)) x = true) : p.behind c x = true := by
  cases c with
  | none => rfl
  | some b =>
    rw [behind_make, decide_eq_true_eq] at hx
    have hle : p.bound b ≤ p.mark (p.key r) := by
      rw [← hfixed b rfl]
      exact p.mono (le_of_lt (of_decide_eq_true hr))
    exact decide_eq_true (lt_of_le_of_lt hle hx)

/-- The keys of an answer do not depend on the order of equal ones. -/
theorem keys_eq {found : List R} (hfound : found.Perm other)
    (h : (found.map p.key).Pairwise (· ≤ ·)) (h' : (other.map p.key).Pairwise (· ≤ ·)) :
    found.map p.key = other.map p.key :=
  (hfound.map p.key).eq_of_pairwise (fun _ _ _ _ hab hba => le_antisymm hab hba) h h'

theorem Answer.perm_of_behind {found : List R} {c' : Option C} (h : Answer p rows c found)
    (h' : Answer p rows c' other) (hsame : ∀ r, p.behind c r = p.behind c' r) :
    found.Perm other := by
  have hfilter : rows.filter (p.behind c) = rows.filter (p.behind c') :=
    List.filter_congr fun r _ => hsame r
  exact h.perm.trans (hfilter ▸ h'.perm.symm)

/-- The next query finds the rows of this one that are behind the mark. -/
theorem Answer.next {found : List R} (hfixed : Fixed p c) (h : Answer p rows c found)
    (hr : r ∈ found) (h' : Answer p rows (some (p.make r)) other) :
    other.Perm (found.filter (p.behind (some (p.make r)))) := by
  have hbehind : p.behind c r = true := (List.mem_filter.mp (h.perm.mem_iff.mp hr)).2
  have hrows : rows.filter (p.behind (some (p.make r))) =
      (rows.filter (p.behind c)).filter (p.behind (some (p.make r))) := by
    rw [List.filter_filter]
    apply List.filter_congr
    intro x _
    cases hx : p.behind (some (p.make r)) x with
    | false => simp
    | true => simp [behind_trans hfixed hbehind hx]
  exact h'.perm.trans (hrows ▸ (h.perm.filter _).symm)

theorem follow_last (h : (db.ask n c).length ≤ limit) :
    follow p db limit (fuel + 1) n c = some [db.ask n c] := by
  rw [follow]
  simp only [if_neg (Nat.not_lt.mpr h), List.take_of_length_le h]

theorem follow_more {init rest : List R} (hfound : db.ask n c = init ++ [r] ++ rest)
    (hlength : (init ++ [r]).length = limit) (hrest : rest ≠ []) :
    follow p db limit (fuel + 1) n c =
      (follow p db limit fuel (n + 1) (some (p.make r))).map ((init ++ [r]) :: ·) := by
  have hlt : limit < (db.ask n c).length := by
    rw [hfound, List.length_append, hlength]
    exact Nat.lt_add_of_pos_right (List.length_pos_iff.mpr hrest)
  have htake : (db.ask n c).take limit = init ++ [r] := by
    rw [hfound, ← hlength, List.take_left]
  rw [follow]
  simp only [if_pos hlt, htake, List.getLast?_concat]

theorem exists_page {found : List R} (hpos : 0 < limit) (h : limit < found.length) :
    ∃ init r next rest, found = init ++ [r] ++ next :: rest ∧ (init ++ [r]).length = limit := by
  have htake : (found.take limit).length = limit := List.length_take_of_le (Nat.le_of_lt h)
  have hne : found.take limit ≠ [] := List.ne_nil_of_length_pos (by omega)
  have hdrop : found.drop limit ≠ [] := List.ne_nil_of_length_pos (by rw [List.length_drop]; omega)
  obtain ⟨next, rest, hrest⟩ := List.exists_cons_of_ne_nil hdrop
  have hlast := List.dropLast_append_getLast hne
  refine ⟨(found.take limit).dropLast, (found.take limit).getLast hne, next, rest, ?_, ?_⟩
  · rw [hlast, ← hrest, List.take_append_drop]
  · rw [hlast, htake]

theorem behind_of_follow {pages : List (List R)} (hfixed : Fixed p c)
    (h : follow p db limit fuel n c = some pages) : ∀ r ∈ pages.flatten, p.behind c r = true := by
  induction fuel generalizing n c pages with
  | zero => cases h
  | succ fuel ih =>
    have hall : ∀ r ∈ (db.ask n c).take limit, p.behind c r = true := by
      intro r hr
      exact (List.mem_filter.mp ((db.answer n c).perm.mem_iff.mp (List.mem_of_mem_take hr))).2
    rw [follow] at h
    split at h
    · cases h
      simpa using hall
    next last hlast =>
      obtain ⟨later, hlater, rfl⟩ := Option.map_eq_some_iff.mp h
      have hmem : last ∈ (db.ask n c).take limit := by
        split at hlast
        · exact List.mem_of_getLast? hlast
        · cases hlast
      intro r hr
      rw [List.flatten_cons, List.mem_append] at hr
      rcases hr with hr | hr
      · exact hall r hr
      · exact behind_trans hfixed (hall last hmem) (ih fixed_make hlater r hr)

/-- A page whose last row has the mark that the page was asked with is asked for again and again. -/
theorem follow_stuck {init rest : List R} {next : R} (hfound : db.ask n c = init ++ [r] ++ next :: rest)
    (hlength : (init ++ [r]).length = limit)
    (hmark : ∀ x, p.behind (some (p.make r)) x = p.behind c x) :
    follow p db limit fuel n c = none := by
  induction fuel generalizing n c r init next rest with
  | zero => rfl
  | succ fuel ih =>
    rw [follow_more hfound hlength (by simp), Option.map_eq_none_iff]
    have hperm := (db.answer (n + 1) (some (p.make r))).perm_of_behind (db.answer n c) hmark
    have hkeys := keys_eq hperm (db.answer (n + 1) (some (p.make r))).sorted (db.answer n c).sorted
    have hpos : 0 < limit := by
      rw [← hlength, List.length_append]
      exact Nat.succ_pos _
    obtain ⟨init', r', next', rest', hfound', hlength'⟩ := @exists_page _ limit
      (db.ask (n + 1) (some (p.make r))) hpos (by
        rw [hperm.length_eq, hfound, List.length_append, hlength, List.length_cons]
        omega)
    have hkey : p.key r' = p.key r := by
      have hkeys' := congrArg (fun l => (l.take limit).getLast?) hkeys
      rw [← List.map_take, ← List.map_take, hfound', hfound, List.take_left' hlength',
        List.take_left' hlength, List.map_append, List.map_append] at hkeys'
      simpa using hkeys'
    apply ih hfound' hlength'
    intro x
    rw [behind_make, behind_make, hkey]

end Queries

/-! ## Every row once -/

section Once

variable {p} {rows : List R} {db : Database p rows} {limit fuel n : ℕ} {c : Option C} {r next : R}
  {init rest : List R} {pages : List (List R)}

theorem filter_rest (hsorted : ((init ++ [r] ++ next :: rest).map p.key).Pairwise (· ≤ ·))
    (hborder : p.mark (p.key r) < p.key next) :
    (next :: rest).filter (p.behind (some (p.make r))) = next :: rest := by
  rw [List.map_append] at hsorted
  obtain ⟨hnext, -⟩ := List.pairwise_cons.mp (List.pairwise_append.mp hsorted).2.1
  rw [List.filter_eq_self]
  intro x hx
  rw [behind_make, decide_eq_true_eq]
  rcases List.mem_cons.mp hx with rfl | hx
  · exact hborder
  · exact lt_of_lt_of_le hborder (hnext _ (List.mem_map_of_mem hx))

theorem key_le_last (hsorted : ((init ++ [r]).map p.key).Pairwise (· ≤ ·)) :
    ∀ x ∈ init ++ [r], p.key x ≤ p.key r := by
  intro x hx
  rw [List.map_append] at hsorted
  rcases List.mem_append.mp hx with hx | hx
  · exact (List.pairwise_append.mp hsorted).2.2 _ (List.mem_map_of_mem hx) _ (by simp)
  · rw [List.mem_singleton.mp hx]

theorem filter_page (hsorted : ((init ++ [r]).map p.key).Pairwise (· ≤ ·))
    (hborder : p.key r ≤ p.mark (p.key r)) :
    (init ++ [r]).filter (p.behind (some (p.make r))) = [] := by
  rw [List.filter_eq_nil_iff]
  intro x hx
  rw [behind_make, decide_eq_true_eq, not_lt]
  exact (key_le_last hsorted x hx).trans hborder

/-- With a border after every page the pages are those of the listing. -/
theorem follow_of_separated (hpos : 0 < limit) (m : ℕ) (hfixed : Fixed p c)
    (hlength : (db.ask n c).length ≤ m)
    (hseparated : Separated p.mark limit ((db.ask n c).map p.key)) :
    ∃ fuel pages, follow p db limit fuel n c = some pages ∧ pages.flatten.Perm (db.ask n c) := by
  induction m generalizing n c with
  | zero =>
    refine ⟨1, [db.ask n c], follow_last (by omega), ?_⟩
    rw [List.flatten_singleton]
  | succ m ih =>
    by_cases hshort : (db.ask n c).length ≤ limit
    · refine ⟨1, [db.ask n c], follow_last hshort, ?_⟩
      rw [List.flatten_singleton]
    · obtain ⟨init, r, next, rest, hfound, hpage⟩ := exists_page hpos (Nat.lt_of_not_le hshort)
      have hanswer := db.answer n c
      rw [hfound] at hanswer hseparated hlength ⊢
      rw [List.map_append, List.map_append, List.map_singleton, List.map_cons,
        separated_append (by simpa using hpage)] at hseparated
      obtain ⟨⟨hlast, hnext⟩, hrest⟩ := hseparated
      have hsorted := hanswer.sorted
      have hpagesorted : ((init ++ [r]).map p.key).Pairwise (· ≤ ·) := by
        rw [List.map_append] at hsorted
        exact (List.pairwise_append.mp hsorted).1
      have hrestsorted : ((next :: rest).map p.key).Pairwise (· ≤ ·) := by
        rw [List.map_append] at hsorted
        exact (List.pairwise_append.mp hsorted).2.1
      have hperm : (db.ask (n + 1) (some (p.make r))).Perm (next :: rest) := by
        have hlater := hanswer.next hfixed (by simp) (db.answer (n + 1) (some (p.make r)))
        rwa [List.filter_append, filter_page hpagesorted hlast, filter_rest hsorted hnext,
          List.nil_append] at hlater
      have hkeys := keys_eq hperm (db.answer (n + 1) (some (p.make r))).sorted hrestsorted
      obtain ⟨fuel, pages, hfollow, hpages⟩ := ih (n := n + 1) fixed_make (by
        rw [hperm.length_eq]
        rw [List.length_append, hpage] at hlength
        omega) (by rw [hkeys]; exact hrest)
      refine ⟨fuel + 1, (init ++ [r]) :: pages, ?_, ?_⟩
      · rw [follow_more hfound hpage (by simp), hfollow]
        rfl
      · rw [List.flatten_cons]
        exact (List.perm_append_left_iff _).mpr (hpages.trans hperm)

/-- No walk that ends visits the later rows once when rows of the page are asked for again. -/
theorem not_repeated (hpos : 0 < limit) (hfixed : Fixed p c)
    (hfound : db.ask n c = init ++ [r] ++ next :: rest)
    (hfollow : follow p db limit fuel (n + 1) (some (p.make r)) = some pages)
    (hpages : pages.flatten.Perm (next :: rest)) (hnext : p.mark (p.key r) < p.key next) :
    p.key r ≤ p.mark (p.key r) := by
  by_contra hagain
  have hanswer := db.answer n c
  have hlater := db.answer (n + 1) (some (p.make r))
  rw [hfound] at hanswer
  have hsorted := hanswer.sorted
  have hperm := hanswer.next hfixed (by simp) hlater
  rw [List.filter_append, filter_rest hsorted hnext] at hperm
  have hpagesorted : ((init ++ [r]).map p.key).Pairwise (· ≤ ·) := by
    rw [List.map_append] at hsorted
    exact (List.pairwise_append.mp hsorted).1
  have hlow : ∀ x ∈ next :: rest, p.key r ≤ p.key x := by
    intro x hx
    rw [List.map_append] at hsorted
    exact (List.pairwise_append.mp hsorted).2.2 _ (by simp) _ (List.mem_map_of_mem hx)
  have hr : r ∈ (init ++ [r]).filter (p.behind (some (p.make r))) := by
    rw [List.mem_filter, behind_make, decide_eq_true_eq]
    exact ⟨by simp, lt_of_not_ge hagain⟩
  have hrepeated : 0 < ((init ++ [r]).filter (p.behind (some (p.make r)))).length :=
    List.length_pos_of_mem hr
  have hmore : (next :: rest).length < (db.ask (n + 1) (some (p.make r))).length := by
    rw [hperm.length_eq, List.length_append]
    omega
  cases fuel with
  | zero => cases hfollow
  | succ fuel =>
    by_cases hshort : (db.ask (n + 1) (some (p.make r))).length ≤ limit
    · rw [follow_last hshort] at hfollow
      cases hfollow
      rw [List.flatten_singleton] at hpages
      rw [hpages.length_eq] at hmore
      omega
    · obtain ⟨init', r', next', rest', hfound', hpage'⟩ := exists_page hpos (Nat.lt_of_not_le hshort)
      rw [follow_more hfound' hpage' (by simp)] at hfollow
      obtain ⟨later, -, rfl⟩ := Option.map_eq_some_iff.mp hfollow
      rw [List.flatten_cons] at hpages
      -- the least key of the later query is that of the last row before
      have hleast : ∀ k ∈ (db.ask (n + 1) (some (p.make r))).map p.key, p.key r ≤ k := by
        have hlatersorted := hlater.sorted
        obtain ⟨first, others, hfirst⟩ := List.exists_cons_of_ne_nil (l := init' ++ [r']) (by simp)
        have hmem : first ∈ next :: rest := by
          apply hpages.mem_iff.mp
          rw [hfirst]
          simp
        rw [hfound', hfirst, List.cons_append, List.map_cons] at hlatersorted ⊢
        intro k hk
        rcases List.mem_cons.mp hk with rfl | hk
        · exact hlow first hmem
        · exact (hlow first hmem).trans ((List.pairwise_cons.mp hlatersorted).1 k hk)
      have hcount := count_take limit hlater.sorted hleast
      have htake : ((db.ask (n + 1) (some (p.make r))).map p.key).take limit =
          (init' ++ [r']).map p.key := by
        rw [← List.map_take, hfound', ← hpage', List.take_left]
      have hall : ((db.ask (n + 1) (some (p.make r))).map p.key).count (p.key r) =
          (((init ++ [r]).filter (p.behind (some (p.make r)))).map p.key).count (p.key r) +
            ((next :: rest).map p.key).count (p.key r) := by
        rw [(hperm.map p.key).count_eq, List.map_append, List.count_append]
      have hsome : 0 < (((init ++ [r]).filter (p.behind (some (p.make r)))).map p.key).count
        (p.key r) :=
        List.count_pos_iff.mpr (List.mem_map_of_mem hr)
      have hvisited : ((init' ++ [r']).map p.key).count (p.key r) ≤
          ((next :: rest).map p.key).count (p.key r) := by
        have hsplit : (init' ++ [r'] ++ later.flatten).map p.key =
            (init' ++ [r']).map p.key ++ later.flatten.map p.key := List.map_append
        rw [← (hpages.map p.key).count_eq, hsplit, List.count_append]
        exact Nat.le_add_right _ _
      rw [htake] at hcount
      have hpagecount : ((init' ++ [r']).map p.key).count (p.key r) =
        ((init' ++ [r']).map p.key).length := by
        rw [List.length_map, hpage']
        omega
      have hkey : p.key r = p.key r' :=
        List.count_eq_length.mp hpagecount _ (List.mem_map_of_mem (by simp))
      have hstuck : follow p db limit (fuel + 1) _ _ = none := follow_stuck hfound' hpage' (by
        intro x
        rw [behind_make, behind_make, hkey])
      rw [follow_more hfound' hpage' (by simp)] at hstuck
      rw [hstuck] at hfollow
      cases hfollow

theorem separated_of_follow (hpos : 0 < limit) (hfixed : Fixed p c)
    (hfollow : follow p db limit fuel n c = some pages) (hpages : pages.flatten.Perm (db.ask n c)) :
    Separated p.mark limit ((db.ask n c).map p.key) := by
  induction fuel generalizing n c pages with
  | zero => cases hfollow
  | succ fuel ih =>
    by_cases hshort : (db.ask n c).length ≤ limit
    · exact separated_of_le (by rwa [List.length_map])
    · obtain ⟨init, r, next, rest, hfound, hpage⟩ := exists_page hpos (Nat.lt_of_not_le hshort)
      rw [follow_more hfound hpage (by simp)] at hfollow
      obtain ⟨later, hlater, rfl⟩ := Option.map_eq_some_iff.mp hfollow
      rw [hfound, List.flatten_cons, List.perm_append_left_iff] at hpages
      have hanswer := db.answer n c
      rw [hfound] at hanswer
      have hsorted := hanswer.sorted
      have hnext : p.mark (p.key r) < p.key next := by
        have hbehind := behind_of_follow fixed_make hlater next (hpages.mem_iff.mpr List.mem_cons_self)
        rwa [behind_make, decide_eq_true_eq] at hbehind
      have hlast := not_repeated hpos hfixed hfound hlater hpages hnext
      have hpagesorted : ((init ++ [r]).map p.key).Pairwise (· ≤ ·) := by
        rw [List.map_append] at hsorted
        exact (List.pairwise_append.mp hsorted).1
      have hrestsorted : ((next :: rest).map p.key).Pairwise (· ≤ ·) := by
        rw [List.map_append] at hsorted
        exact (List.pairwise_append.mp hsorted).2.1
      have hperm : (db.ask (n + 1) (some (p.make r))).Perm (next :: rest) := by
        have hafter := hanswer.next hfixed (by simp) (db.answer (n + 1) (some (p.make r)))
        rwa [List.filter_append, filter_page hpagesorted hlast, filter_rest hsorted hnext,
          List.nil_append] at hafter
      have hrest := ih fixed_make hlater (hpages.trans hperm.symm)
      rw [keys_eq hperm (db.answer (n + 1) (some (p.make r))).sorted hrestsorted] at hrest
      rw [hfound, List.map_append, List.map_append, List.map_singleton, List.map_cons,
        separated_append (by simpa using hpage)]
      exact ⟨⟨hlast, hnext⟩, hrest⟩

/-- Every row of the listing is visited once exactly when there is a border after every page. -/
theorem visitsOnce_iff (hpos : 0 < limit) :
    VisitsOnce p db limit ↔ Separated p.mark limit ((db.ask 0 none).map p.key) := by
  have hperm : (db.ask 0 none).Perm rows := by
    have hall : rows.filter (p.behind none) = rows := List.filter_eq_self.mpr fun _ _ => rfl
    have hanswer := (db.answer 0 none).perm
    rwa [hall] at hanswer
  have hfixed : Fixed p none := fun b hb => by cases hb
  constructor
  · rintro ⟨fuel, pages, hfollow, hpages⟩
    exact separated_of_follow hpos hfixed hfollow (hpages.trans hperm.symm)
  · intro hseparated
    obtain ⟨fuel, pages, hfollow, hpages⟩ :=
      follow_of_separated hpos (db.ask 0 none).length hfixed (Nat.le_refl _) hseparated
    exact ⟨fuel, pages, hfollow, hpages.trans hperm⟩

/-- The pages of a walk, one after the other, are in order. -/
theorem sorted_of_follow (h : follow p db limit fuel n c = some pages) (hmark : ∀ k, k ≤ p.mark k) :
    (pages.flatten.map p.key).Pairwise (· ≤ ·) := by
  induction fuel generalizing n c pages with
  | zero => cases h
  | succ fuel ih =>
    have hdata : (((db.ask n c).take limit).map p.key).Pairwise (· ≤ ·) := by
      rw [List.map_take]
      exact ((db.answer n c).sorted).sublist (List.take_sublist _ _)
    rw [follow] at h
    split at h
    · cases h
      simpa using hdata
    next last hlast =>
      obtain ⟨later, hlater, rfl⟩ := Option.map_eq_some_iff.mp h
      have hend : ((db.ask n c).take limit).getLast? = some last := by
        split at hlast
        · exact hlast
        · cases hlast
      obtain ⟨init, hinit⟩ : ∃ init, (db.ask n c).take limit = init ++ [last] :=
        List.getLast?_eq_some_iff.mp hend
      rw [List.flatten_cons, List.map_append, List.pairwise_append]
      refine ⟨hdata, ih hlater, ?_⟩
      intro a ha b hb
      obtain ⟨x, hx, rfl⟩ := List.mem_map.mp ha
      obtain ⟨y, hy, rfl⟩ := List.mem_map.mp hb
      have hbehind := behind_of_follow fixed_make hlater y hy
      rw [behind_make, decide_eq_true_eq] at hbehind
      rw [hinit] at hdata hx
      exact (key_le_last hdata x hx).trans ((hmark _).trans (le_of_lt hbehind))

end Once

end Insula.CursorPages
