import Insula.ResticRetention
import Mathlib.Data.List.Sort

/-!
# The size of a tenant's repository

Each component of a tenant has a row with the size of its repository. A capture adds what it stored
to the row's total, once there is one. A sweep measures the repositories of the rows that it pruned
and of those without a total, each repository once: its size goes to the first row, the others get
nothing.
-/

namespace Insula.TenantBundles

open Javascript

inductive RepoTotalSource
  | measured
  | tracked
  deriving DecidableEq

/-- A row of `tenant_restic_repo_state` with its total. -/
structure RepoTotalRow extends TenantResticRepoState where
  lastSnapshotAt : Option ℤ
  repoTotalBytes : Option ℕ := none
  repoTotalSource : Option RepoTotalSource := none
  repoTotalAt : Option ℤ := none
  repoStatsAt : Option ℤ := none
  deriving DecidableEq

namespace RepoTotalRow

variable (r : RepoTotalRow)

def key : RepoRow := ⟨r.tenantId, r.component⟩

def total : ℕ := r.repoTotalBytes.getD 0

def anchor (totalBytes : ℕ) (measuredAt : ℤ) : RepoTotalRow :=
  { r with
    repoTotalBytes := some totalBytes
    repoStatsAt := some measuredAt
    repoTotalAt := some measuredAt
    repoTotalSource := some .measured }

end RepoTotalRow

structure RepoTotals where
  rows : List RepoTotalRow
  nodup : (rows.map RepoTotalRow.key).Nodup
  restic : ∀ r ∈ rows, r.component ∈ resticComponents

structure ResticSnapshot where
  tenantId : String
  component : String
  repoUri : String
  snapshotAt : ℤ
  dataAddedPacked : Option ℕ
  restic : component ∈ resticComponents

namespace ResticSnapshot

variable (s : ResticSnapshot)

def key : RepoRow := ⟨s.tenantId, s.component⟩

def overwrite (r : RepoTotalRow) : RepoTotalRow :=
  let written := { r with repoUri := s.repoUri, lastSnapshotAt := some s.snapshotAt }
  match r.repoTotalBytes, s.dataAddedPacked with
  | some total, some added =>
    { written with
      repoTotalBytes := some (total + added)
      repoTotalSource := some .tracked
      repoTotalAt := some s.snapshotAt }
  | _, _ => written

def row : RepoTotalRow where
  tenantId := s.tenantId
  component := s.component
  repoUri := s.repoUri
  lastSnapshotAt := some s.snapshotAt

theorem key_overwrite (r : RepoTotalRow) : (s.overwrite r).key = r.key := by
  unfold overwrite
  cases r.repoTotalBytes <;> cases s.dataAddedPacked <;> rfl

end ResticSnapshot

namespace RepoTotals

variable (table : RepoTotals)

def update (key : RepoRow) (set : RepoTotalRow → RepoTotalRow) (h : ∀ r, (set r).key = r.key) :
    RepoTotals where
  rows := table.rows.map fun r => if r.key = key then set r else r
  nodup := by
    have hkeys : RepoTotalRow.key ∘ (fun r => if r.key = key then set r else r) = RepoTotalRow.key := by
      funext r
      simp only [Function.comp_apply]
      split
      · exact h r
      · rfl
    rw [List.map_map, hkeys]
    exact table.nodup
  restic r hr := by
    obtain ⟨x, hx, rfl⟩ := List.mem_map.mp hr
    split
    · have hcomponent : (set x).component = x.component := congrArg RepoRow.component (h x)
      rw [hcomponent]
      exact table.restic x hx
    · exact table.restic x hx

def recordResticSnapshot (s : ResticSnapshot) : RepoTotals :=
  if h : s.key ∈ table.rows.map RepoTotalRow.key then table.update s.key s.overwrite s.key_overwrite
  else
    { rows := table.rows ++ [s.row]
      nodup := by
        rw [List.map_append, List.nodup_append]
        refine ⟨table.nodup, List.nodup_singleton _, ?_⟩
        intro x hx y hy heq
        rw [List.map_singleton, List.mem_singleton] at hy
        rw [heq, hy] at hx
        exact h hx
      restic := by
        intro r hr
        rcases List.mem_append.mp hr with hr | hr
        · exact table.restic r hr
        · rw [List.mem_singleton.mp hr]
          exact s.restic }

def anchorResticRepoTotal (key : RepoRow) (totalBytes : ℕ) (measuredAt : ℤ) : RepoTotals :=
  table.update key (·.anchor totalBytes measuredAt) fun _ => rfl

def repoLayoutForStateRow (key : RepoRow) : ResticRepoLayout :=
  match table.rows.find? fun r => r.key = key with
  | some r => layoutFromRepoUri r.repoUri key.tenantId
  | none => defaultRepoLayout

def tenantTotal (tenantId : String) : ℕ :=
  ((table.rows.filter fun r => r.tenantId = tenantId).map RepoTotalRow.total).sum

end RepoTotals

/-! ## The anchor pass -/

def SnapshotFirst (a b : RepoTotalRow) : Prop :=
  match a.lastSnapshotAt, b.lastSnapshotAt with
  | _, none => True
  | none, some _ => False
  | some x, some y => y ≤ x

/-- How the database brings the rows without a total in order. -/
structure SeedOrder where
  arrange : List RepoTotalRow → List RepoTotalRow
  perm : ∀ rows, (arrange rows).Perm rows
  ordered : ∀ rows, (arrange rows).Pairwise SnapshotFirst

structure AnchorSweep where
  dryRun : Bool
  tenantId : Option String
  maxRepoAnchors : Option ℕ
  target : ShimTarget
  justPruned : List RepoRow
  order : SeedOrder
  /-- What `restic stats` of a repository answers, or `none` when it fails. -/
  stats : String → Option ℕ
  /-- The clock at each total that is written. -/
  now : ℕ → ℤ

def defaultMaxRepoAnchors : ℕ := 10

def enqueue (full : Bool) (queue : List RepoRow) (key : RepoRow) : List RepoRow :=
  if key ∈ queue then queue else if full then queue else queue ++ [key]

namespace AnchorSweep

variable (sweep : AnchorSweep) (table : RepoTotals)

def unseeded : List RepoRow :=
  (sweep.order.arrange (table.rows.filter fun r =>
    r.repoTotalBytes = none ∧ r.repoUri ≠ "" ∧
      (truthy sweep.tenantId = false ∨ sweep.tenantId = some r.tenantId))).map RepoTotalRow.key

/-- The pruned rows, and of those without a total as many as there is room for. -/
def queue : List RepoRow :=
  (sweep.unseeded table).foldl
    (fun queue key =>
      enqueue (sweep.maxRepoAnchors.getD defaultMaxRepoAnchors ≤ queue.length) queue key)
    (sweep.justPruned.foldl (enqueue false) [])

end AnchorSweep

structure AnchorState where
  table : RepoTotals
  measuredRepos : List String
  reposAnchored : ℕ
  /-- The sizes that `restic stats` answered. -/
  measurements : List (String × ℕ)

namespace AnchorState

def write (st : AnchorState) (sweep : AnchorSweep) (key : RepoRow) (totalBytes : ℕ) : AnchorState :=
  { st with
    table := st.table.anchorResticRepoTotal key totalBytes (sweep.now st.reposAnchored)
    reposAnchored := st.reposAnchored + 1 }

def measure (st : AnchorState) (sweep : AnchorSweep) (key : RepoRow) : AnchorState :=
  if key.component ∉ resticComponents then st
  else
    match buildResticRepoUri sweep.target key.tenantId key.component
        (st.table.repoLayoutForStateRow key) with
    | none => st
    | some repoUri =>
      if repoUri ∈ st.measuredRepos then st.write sweep key 0
      else
        let tried := { st with measuredRepos := repoUri :: st.measuredRepos }
        match sweep.stats repoUri with
        | none => tried
        | some size =>
          { tried.write sweep key size with measurements := (repoUri, size) :: st.measurements }

end AnchorState

namespace AnchorSweep

def run (sweep : AnchorSweep) (table : RepoTotals) : AnchorState :=
  let start : AnchorState := ⟨table, [], 0, []⟩
  if sweep.dryRun then start else (sweep.queue table).foldl (·.measure sweep) start

end AnchorSweep

/-! ## What a sweep does to the total of a tenant -/

/-- A list of which one member, found by its key, is worth something else. -/
theorem sum_map_replace {α β : Type*} [DecidableEq β] {f : α → β} {l : List α} (h : (l.map f).Nodup)
    {k : β} (hk : k ∈ l.map f) (g : α → ℕ) (n : ℕ) :
    (l.map fun a => if f a = k then n else g a).sum =
      n + (l.map fun a => if f a = k then 0 else g a).sum := by
  induction l with
  | nil => cases hk
  | cons a l ih =>
    rw [List.map_cons, List.nodup_cons] at h
    by_cases ha : f a = k
    · have hothers : ∀ m, (l.map fun x => if f x = k then m else g x) = l.map g := by
        intro m
        refine List.map_congr_left fun x hx => if_neg ?_
        intro hx'
        exact h.1 (by rw [ha, ← hx']; exact List.mem_map_of_mem hx)
      simp [ha, hothers]
    · have hrest := ih h.2 ((List.mem_cons.mp hk).resolve_left (Ne.symm ha))
      simp only [List.map_cons, List.sum_cons, if_neg ha, hrest]
      omega

namespace RepoTotals

variable (table : RepoTotals) (tenantId : String)

def totalBut (keys : List RepoRow) : ℕ :=
  (table.rows.map fun r => if r.tenantId = tenantId ∧ r.key ∉ keys then r.total else 0).sum

def HasKey (key : RepoRow) : Prop := key ∈ table.rows.map RepoTotalRow.key

variable {table tenantId} {key : RepoRow} {keys : List RepoRow} {size : ℕ} {measuredAt : ℤ}

theorem totalBut_nil : table.totalBut tenantId [] = table.tenantTotal tenantId := by
  unfold totalBut tenantTotal
  induction table.rows with
  | nil => rfl
  | cons r rows ih =>
    by_cases htenant : r.tenantId = tenantId <;> simp_all

theorem totalBut_congr {keys' : List RepoRow}
    (h : ∀ k, table.HasKey k → k.tenantId = tenantId → (k ∈ keys ↔ k ∈ keys')) :
    table.totalBut tenantId keys = table.totalBut tenantId keys' := by
  unfold totalBut
  congr 1
  refine List.map_congr_left fun r hr => ?_
  by_cases htenant : r.tenantId = tenantId
  · simp only [htenant, true_and, h r.key (List.mem_map_of_mem hr) htenant]
  · simp only [htenant, false_and]

theorem totalBut_cons (h : ¬ (table.HasKey key ∧ key.tenantId = tenantId)) :
    table.totalBut tenantId (key :: keys) = table.totalBut tenantId keys := by
  refine totalBut_congr fun k hk htenant => ?_
  have hne : k ≠ key := by
    rintro rfl
    exact h ⟨hk, htenant⟩
  simp [hne]

theorem totalBut_eq_zero : table.totalBut tenantId keys = 0 ↔
      ∀ r ∈ table.rows, r.tenantId = tenantId → r.total ≠ 0 → r.key ∈ keys := by
  rw [totalBut, List.sum_eq_zero_iff_forall_eq_nat, List.forall_mem_map]
  refine forall₂_congr fun r _ => ?_
  rw [ite_eq_right_iff]
  tauto

theorem anchor_rows : (table.anchorResticRepoTotal key size measuredAt).totalBut tenantId keys =
      (table.rows.map fun r => if r.key = key then
        (if key.tenantId = tenantId ∧ key ∉ keys then size else 0)
        else if r.tenantId = tenantId ∧ r.key ∉ keys then r.total else 0).sum := by
  simp only [totalBut, anchorResticRepoTotal, update, List.map_map]
  congr 1
  refine List.map_congr_left fun r _ => ?_
  by_cases hr : r.key = key
  · subst hr
    simp only [Function.comp_apply, ↓reduceIte]
    rfl
  · simp only [Function.comp_apply, if_neg hr]

/-- A total that is written replaces the one of its row. -/
theorem totalBut_anchor (hkey : table.HasKey key) (htenant : key.tenantId = tenantId)
    (hnot : key ∉ keys) : (table.anchorResticRepoTotal key size measuredAt).totalBut tenantId keys =
      size + table.totalBut tenantId (key :: keys) := by
  rw [anchor_rows, if_pos ⟨htenant, hnot⟩, sum_map_replace table.nodup hkey, totalBut]
  congr 2
  refine List.map_congr_left fun r _ => ?_
  by_cases hr : r.key = key
  · simp [hr]
  · simp [hr]

/-- Nothing written on a row is nothing more than the total without it. -/
theorem totalBut_anchor_zero :
    (table.anchorResticRepoTotal key 0 measuredAt).totalBut tenantId keys =
      table.totalBut tenantId (key :: keys) := by
  rw [anchor_rows, totalBut]
  congr 1
  refine List.map_congr_left fun r _ => ?_
  by_cases hr : r.key = key
  · simp [hr]
  · simp [hr]

theorem totalBut_anchor_other (h : key ∈ keys ∨ key.tenantId ≠ tenantId ∨ ¬ table.HasKey key) :
    (table.anchorResticRepoTotal key size measuredAt).totalBut tenantId keys =
      table.totalBut tenantId keys := by
  rw [anchor_rows, totalBut]
  congr 1
  refine List.map_congr_left fun r hr => ?_
  by_cases hkey : r.key = key
  · have hcond : ¬ (key.tenantId = tenantId ∧ key ∉ keys) := by
      have hhas : table.HasKey key := hkey ▸ List.mem_map_of_mem hr
      tauto
    have htenant : r.tenantId = key.tenantId := congrArg RepoRow.tenantId hkey
    rw [if_pos hkey, if_neg hcond, hkey, htenant, if_neg hcond]
  · rw [if_neg hkey]

/-! ### The repository of a tenant -/

variable (table tenantId) in
def Merged : Prop :=
  ∀ r ∈ table.rows, r.tenantId = tenantId → layoutFromRepoUri r.repoUri tenantId = .perTenant

theorem hasKey_anchor {k : RepoRow} :
    (table.anchorResticRepoTotal key size measuredAt).HasKey k ↔ table.HasKey k := by
  unfold HasKey anchorResticRepoTotal update
  dsimp only
  have hkeys : RepoTotalRow.key ∘ (fun r => if r.key = key then r.anchor size measuredAt else r) =
      RepoTotalRow.key := by
    funext r
    simp only [Function.comp_apply]
    split <;> rfl
  rw [List.map_map, hkeys]

theorem Merged.anchor (h : table.Merged tenantId) :
    (table.anchorResticRepoTotal key size measuredAt).Merged tenantId := by
  intro r hr htenant
  obtain ⟨x, hx, rfl⟩ := List.mem_map.mp hr
  by_cases hkey : x.key = key
  · rw [if_pos hkey] at htenant ⊢
    exact h x hx htenant
  · rw [if_neg hkey] at htenant ⊢
    exact h x hx htenant

theorem layout_of_hasKey (h : table.Merged tenantId) (hkey : table.HasKey key)
    (htenant : key.tenantId = tenantId) : table.repoLayoutForStateRow key = .perTenant := by
  unfold repoLayoutForStateRow
  cases hfind : table.rows.find? fun r => r.key = key with
  | some r =>
    have hr : r.key = key := by simpa using List.find?_some hfind
    have hrow : r.tenantId = tenantId := by
      rw [← htenant, ← hr]
      rfl
    dsimp only
    rw [htenant]
    exact h r (List.mem_of_find?_eq_some hfind) hrow
  | none =>
    obtain ⟨r, hr, heq⟩ := List.mem_map.mp hkey
    exact absurd heq (by simpa using List.find?_eq_none.mp hfind r hr)

theorem layout_of_not_hasKey (h : ¬ table.HasKey key) :
    table.repoLayoutForStateRow key = .perComponent := by
  unfold repoLayoutForStateRow
  cases hfind : table.rows.find? fun r => r.key = key with
  | some r =>
    have hr : r.key = key := by simpa using List.find?_some hfind
    exact absurd (hr ▸ List.mem_map_of_mem (List.mem_of_find?_eq_some hfind)) h
  | none => rfl

end RepoTotals

def mergedRepoUri (target : ShimTarget) (tenantId : String) : Option String :=
  buildResticRepoUri target tenantId "files" .perTenant

section Address

variable {target : ShimTarget} {tenantId uri : String} {key : RepoRow} {layout : ResticRepoLayout}

theorem buildResticRepoUri_eq_merged (huri : mergedRepoUri target tenantId = some uri)
    (h : buildResticRepoUri target key.tenantId key.component layout = some uri) :
    key.tenantId = tenantId ∧ layout = .perTenant := by
  have hmerged : uri = "s3:" ++ stripTrailingSlash target.endpoint ++ "/" ++ target.bucket ++ "/" ++
      repoPathSegments tenantId "files" .perTenant := by
    unfold mergedRepoUri buildResticRepoUri at huri
    split at huri
    · exact (Option.some.inj huri).symm
    · cases huri
  unfold buildResticRepoUri at h
  split at h
  · have hpath := congrArg String.toList (Option.some.inj h)
    simp only [hmerged, String.toList_append, List.append_assoc, List.append_cancel_left_eq] at hpath
    cases layout with
    | perTenant =>
      simp only [repoPathSegments, String.toList_append, List.append_cancel_left_eq] at hpath
      exact ⟨String.toList_injective hpath, rfl⟩
    | perComponent => simp [repoPathSegments] at hpath
  · cases h

theorem buildResticRepoUri_merged (huri : mergedRepoUri target tenantId = some uri)
    (hcomponent : key.component ∈ resticComponents) (htenant : key.tenantId = tenantId) :
    buildResticRepoUri target key.tenantId key.component .perTenant = some uri := by
  unfold mergedRepoUri buildResticRepoUri at huri
  unfold buildResticRepoUri
  split at huri
  · next hok => rw [if_pos ⟨hcomponent, htenant ▸ hok.2⟩, htenant, ← huri]; rfl
  · cases huri

end Address

section Pass

variable {sweep : AnchorSweep} {tenantId uri : String} {st : AnchorState} {key : RepoRow}
variable {keys l : List RepoRow}

/-- A row of the queue that belongs to a tenant. -/
def AnchorState.Owns (st : AnchorState) (tenantId : String) (key : RepoRow) : Prop :=
  st.table.HasKey key ∧ key.tenantId = tenantId

/-- What one row of the queue does, as the repository of one tenant sees it. -/
inductive Measured (sweep : AnchorSweep) (tenantId uri : String) (st : AnchorState) (key : RepoRow)
    (st' : AnchorState) : Prop
  | other (hnot : ¬ st.Owns tenantId key)
      (htotal : ∀ keys, st'.table.totalBut tenantId keys = st.table.totalBut tenantId keys)
      (htried : uri ∈ st'.measuredRepos ↔ uri ∈ st.measuredRepos)
      (hsizes : ∀ size, (uri, size) ∈ st'.measurements ↔ (uri, size) ∈ st.measurements)
  | again (htried : uri ∈ st.measuredRepos ∧ uri ∈ st'.measuredRepos)
      (htotal : ∀ keys, st'.table.totalBut tenantId keys = st.table.totalBut tenantId (key :: keys))
      (hsizes : ∀ size, (uri, size) ∈ st'.measurements ↔ (uri, size) ∈ st.measurements)
  | failed (hstats : sweep.stats uri = none)
      (htried : uri ∉ st.measuredRepos ∧ uri ∈ st'.measuredRepos)
      (hsizes : ∀ size, (uri, size) ∈ st'.measurements ↔ (uri, size) ∈ st.measurements)
  | sized (size : ℕ) (howns : st.Owns tenantId key) (hstats : sweep.stats uri = some size)
      (htried : uri ∉ st.measuredRepos ∧ uri ∈ st'.measuredRepos)
      (htotal : ∀ keys, key ∉ keys →
        st'.table.totalBut tenantId keys = size + st.table.totalBut tenantId (key :: keys))
      (hsizes : ∀ n, (uri, n) ∈ st'.measurements ↔ n = size ∨ (uri, n) ∈ st.measurements)

theorem measure_table (sweep : AnchorSweep) (st : AnchorState) (key : RepoRow) :
    (st.measure sweep key).table = st.table ∨ ∃ size measuredAt, (st.measure sweep key).table =
        st.table.anchorResticRepoTotal key size measuredAt := by
  unfold AnchorState.measure
  split
  · exact .inl rfl
  · split
    · exact .inl rfl
    · split
      · exact .inr ⟨_, _, rfl⟩
      · dsimp only
        split
        · exact .inl rfl
        · exact .inr ⟨_, _, rfl⟩

theorem measured_of_not_owns (huri : mergedRepoUri sweep.target tenantId = some uri)
    (hnot : ¬ st.Owns tenantId key) : Measured sweep tenantId uri st key (st.measure sweep key) := by
  have hother : key.tenantId ≠ tenantId ∨ ¬ st.table.HasKey key := by
    unfold AnchorState.Owns at hnot
    tauto
  unfold AnchorState.measure
  split
  · exact .other hnot (fun _ => rfl) .rfl fun _ => .rfl
  · split
    · exact .other hnot (fun _ => rfl) .rfl fun _ => .rfl
    · next repoUri hbuild =>
      have hne : uri ≠ repoUri := by
        rintro rfl
        obtain ⟨htenant, hlayout⟩ := buildResticRepoUri_eq_merged huri hbuild
        rw [RepoTotals.layout_of_not_hasKey fun hkey => hnot ⟨hkey, htenant⟩] at hlayout
        cases hlayout
      split
      · exact .other hnot (fun _ => RepoTotals.totalBut_anchor_other (.inr hother)) .rfl fun _ => .rfl
      · dsimp only
        split
        · refine .other hnot (fun _ => rfl) ?_ fun _ => .rfl
          simp [hne]
        · refine .other hnot (fun _ => RepoTotals.totalBut_anchor_other (.inr hother)) ?_ ?_
          · simp [AnchorState.write, hne]
          · simp [hne]

variable (key) in
theorem measured_measure (huri : mergedRepoUri sweep.target tenantId = some uri)
    (hmerged : st.table.Merged tenantId) :
    Measured sweep tenantId uri st key (st.measure sweep key) := by
  by_cases howns : st.Owns tenantId key
  · obtain ⟨hkey, htenant⟩ := howns
    have hcomponent : key.component ∈ resticComponents := by
      obtain ⟨r, hr, rfl⟩ := List.mem_map.mp hkey
      exact st.table.restic r hr
    have hbuild : buildResticRepoUri sweep.target key.tenantId key.component
        (st.table.repoLayoutForStateRow key) = some uri := by
      rw [RepoTotals.layout_of_hasKey hmerged hkey htenant]
      exact buildResticRepoUri_merged huri hcomponent htenant
    unfold AnchorState.measure
    rw [if_neg (not_not_intro hcomponent), hbuild]
    dsimp only
    by_cases htried : uri ∈ st.measuredRepos
    · rw [if_pos htried]
      exact .again ⟨htried, htried⟩ (fun _ => RepoTotals.totalBut_anchor_zero) fun _ => .rfl
    · rw [if_neg htried]
      cases hstats : sweep.stats uri with
      | none => exact .failed hstats ⟨htried, List.mem_cons_self⟩ fun _ => .rfl
      | some size =>
        refine .sized size ⟨hkey, htenant⟩ hstats ⟨htried, List.mem_cons_self⟩ ?_ ?_
        · exact fun _ hnot => RepoTotals.totalBut_anchor hkey htenant hnot
        · intro n
          simp
  · exact measured_of_not_owns huri howns

theorem merged_measure (h : st.table.Merged tenantId) :
    (st.measure sweep key).table.Merged tenantId := by
  rcases measure_table sweep st key with heq | ⟨size, measuredAt, heq⟩
  · rw [heq]
    exact h
  · rw [heq]
    exact h.anchor

variable (l keys) in
theorem totalBut_foldl_tried (huri : mergedRepoUri sweep.target tenantId = some uri)
    (hmerged : st.table.Merged tenantId) (htried : uri ∈ st.measuredRepos) :
    (l.foldl (·.measure sweep) st).table.totalBut tenantId keys =
        st.table.totalBut tenantId (l ++ keys) ∧
      ∀ size, (uri, size) ∈ (l.foldl (·.measure sweep) st).measurements ↔
        (uri, size) ∈ st.measurements := by
  induction l generalizing st with
  | nil => exact ⟨rfl, fun _ => .rfl⟩
  | cons key l ih =>
    have hstep := measured_measure key huri hmerged
    rw [List.foldl_cons, List.cons_append]
    cases hstep with
    | other hnot htotal hsame hsizes =>
      obtain ⟨hrest, hmeasured⟩ := ih (merged_measure hmerged) (hsame.mpr htried)
      refine ⟨?_, fun size => (hmeasured size).trans (hsizes size)⟩
      rw [hrest, htotal, RepoTotals.totalBut_cons hnot]
    | again hboth htotal hsizes =>
      obtain ⟨hrest, hmeasured⟩ := ih (merged_measure hmerged) hboth.2
      refine ⟨?_, fun size => (hmeasured size).trans (hsizes size)⟩
      rw [hrest, htotal]
    | failed _ hboth => exact absurd htried hboth.1
    | sized _ _ _ hboth => exact absurd htried hboth.1

variable (st) in
/-- A repository that is measured counts once, with what the rows hold that do not come up. -/
theorem totalBut_foldl (huri : mergedRepoUri sweep.target tenantId = some uri)
    (hmerged : st.table.Merged tenantId) (hl : l.Nodup) (htried : uri ∉ st.measuredRepos) {size : ℕ}
    (hsize : (uri, size) ∈ (l.foldl (·.measure sweep) st).measurements)
    (hnew : (uri, size) ∉ st.measurements) :
    (l.foldl (·.measure sweep) st).table.totalBut tenantId [] =
      size + st.table.totalBut tenantId l := by
  induction l generalizing st with
  | nil => exact absurd hsize hnew
  | cons key l ih =>
    have hstep := measured_measure key huri hmerged
    rw [List.nodup_cons] at hl
    rw [List.foldl_cons] at hsize ⊢
    cases hstep with
    | other hnot htotal hsame hsizes =>
      have hrest := ih _ (merged_measure hmerged) hl.2 (fun h => htried (hsame.mp h)) hsize
        (fun h => hnew ((hsizes size).mp h))
      rw [hrest, htotal, RepoTotals.totalBut_cons hnot]
    | again hboth => exact absurd hboth.1 htried
    | failed _ hboth hsizes =>
      have hmeasured := (totalBut_foldl_tried [] l huri
        (merged_measure hmerged) hboth.2).2 size
      exact absurd ((hsizes size).mp (hmeasured.mp hsize)) hnew
    | sized n _ _ hboth htotal hsizes =>
      obtain ⟨hrest, hmeasured⟩ := totalBut_foldl_tried [] l huri
        (merged_measure hmerged) hboth.2
      have hn : size = n := ((hsizes size).mp ((hmeasured size).mp hsize)).resolve_right hnew
      rw [hrest, List.append_nil, htotal l hl.1, hn]

theorem owns_measure {k : RepoRow} : (st.measure sweep key).Owns tenantId k ↔ st.Owns tenantId k := by
  unfold AnchorState.Owns
  rcases measure_table sweep st key with heq | ⟨size, measuredAt, heq⟩
  · rw [heq]
  · rw [heq, RepoTotals.hasKey_anchor]

variable (st) in
/-- A repository is measured when a row of its tenant comes up and `restic stats` answers. -/
theorem measured_foldl_iff (huri : mergedRepoUri sweep.target tenantId = some uri)
    (hmerged : st.table.Merged tenantId) (htried : uri ∉ st.measuredRepos) {size : ℕ}
    (hnew : ∀ n, (uri, n) ∉ st.measurements) :
    (uri, size) ∈ (l.foldl (·.measure sweep) st).measurements ↔
      sweep.stats uri = some size ∧ ∃ key ∈ l, st.Owns tenantId key := by
  induction l generalizing st with
  | nil => simp [hnew]
  | cons key l ih =>
    have hstep := measured_measure key huri hmerged
    have hdone : uri ∈ (st.measure sweep key).measuredRepos →
        ((uri, size) ∈ (l.foldl (·.measure sweep) (st.measure sweep key)).measurements ↔
          (uri, size) ∈ (st.measure sweep key).measurements) := fun h =>
      (totalBut_foldl_tried [] l huri (merged_measure hmerged) h).2 size
    rw [List.foldl_cons]
    cases hstep with
    | other hnot htotal hsame hsizes =>
      rw [ih _ (merged_measure hmerged) (fun h => htried (hsame.mp h))
        (fun n h => hnew n ((hsizes n).mp h))]
      simp only [owns_measure, List.exists_mem_cons_iff, hnot, false_or]
    | again hboth => exact absurd hboth.1 htried
    | failed hstats hboth hsizes =>
      rw [hdone hboth.2, hsizes, hstats]
      simp [hnew]
    | sized n howns hstats hboth htotal hsizes =>
      rw [hdone hboth.2, hsizes, hstats]
      simp [hnew, howns, eq_comm]

end Pass

section Queue

variable {sweep : AnchorSweep} {table : RepoTotals} {key : RepoRow} {queue l : List RepoRow}
variable {tenantId : String}

variable (key) in
theorem nodup_enqueue (full : Bool) (h : queue.Nodup) : (enqueue full queue key).Nodup := by
  unfold enqueue
  split
  · exact h
  · split
    · exact h
    · next hnot _ =>
      rw [List.nodup_append_comm]
      exact List.nodup_cons.mpr ⟨hnot, h⟩

theorem mem_enqueue {full : Bool} {k : RepoRow} :
    k ∈ enqueue full queue key ↔ k ∈ queue ∨ full = false ∧ k = key := by
  unfold enqueue
  split
  · next hmem =>
    refine (or_iff_left_of_imp ?_).symm
    rintro ⟨-, rfl⟩
    exact hmem
  · cases full <;> simp

theorem foldl_enqueue (full : List RepoRow → Bool) (h : queue.Nodup) :
    (l.foldl (fun queue key => enqueue (full queue) queue key) queue).Nodup ∧
      (∀ k ∈ queue, k ∈ l.foldl (fun queue key => enqueue (full queue) queue key) queue) ∧
      ∀ k ∈ l.foldl (fun queue key => enqueue (full queue) queue key) queue, k ∈ queue ∨ k ∈ l := by
  induction l generalizing queue with
  | nil => exact ⟨h, fun _ hk => hk, fun _ hk => .inl hk⟩
  | cons key l ih =>
    obtain ⟨hnodup, hkept, hcomes⟩ := ih (nodup_enqueue key (full queue) h)
    refine ⟨hnodup, fun k hk => hkept k (mem_enqueue.mpr (.inl hk)), fun k hk => ?_⟩
    rcases hcomes k hk with hk | hk
    · rcases mem_enqueue.mp hk with hk | ⟨-, rfl⟩
      · exact .inl hk
      · exact .inr List.mem_cons_self
    · exact .inr (List.mem_cons_of_mem _ hk)

theorem mem_foldl_enqueue_false {k : RepoRow} :
    k ∈ l.foldl (enqueue false) queue ↔ k ∈ queue ∨ k ∈ l := by
  induction l generalizing queue with
  | nil => simp
  | cons key l ih =>
    rw [List.foldl_cons, ih, mem_enqueue]
    simp [or_assoc]

theorem nodup_queue : (sweep.queue table).Nodup :=
  (foldl_enqueue _ (foldl_enqueue (fun _ => false) List.nodup_nil).1).1

theorem mem_queue_of_pruned (h : key ∈ sweep.justPruned) : key ∈ sweep.queue table :=
  (foldl_enqueue _ (foldl_enqueue (fun _ => false) List.nodup_nil).1).2.1 key
    (mem_foldl_enqueue_false.mpr (.inr h))

theorem of_mem_queue (h : key ∈ sweep.queue table) :
    key ∈ sweep.justPruned ∨ ∃ r ∈ table.rows, r.key = key ∧ r.repoTotalBytes = none := by
  rcases (foldl_enqueue _ (foldl_enqueue (fun _ => false) List.nodup_nil).1).2.2 key h with h | h
  · left
    simpa using mem_foldl_enqueue_false.mp h
  · right
    obtain ⟨r, hr, rfl⟩ := List.mem_map.mp h
    have hr := (sweep.order.perm _).mem_iff.mp hr
    simp only [List.mem_filter, decide_eq_true_eq] at hr
    exact ⟨r, hr.1, rfl, hr.2.1⟩

theorem totalBut_queue : table.totalBut tenantId (sweep.queue table) = 0 ↔
      ∀ r ∈ table.rows, r.tenantId = tenantId → r.total ≠ 0 → r.key ∈ sweep.justPruned := by
  rw [RepoTotals.totalBut_eq_zero]
  constructor
  · intro h r hr htenant htotal
    apply (of_mem_queue (h r hr htenant htotal)).resolve_right
    rintro ⟨x, hx, hkey, hnone⟩
    obtain rfl := List.inj_on_of_nodup_map table.nodup hx hr hkey
    exact htotal (by rw [RepoTotalRow.total, hnone]; rfl)
  · exact fun h r hr htenant htotal => mem_queue_of_pruned (h r hr htenant htotal)

end Queue

/-! ## Captures and sweeps -/

inductive RepoEvent
  | capture (s : ResticSnapshot)
  | sweep (s : AnchorSweep)

def sweptTables : RepoTotals → List RepoEvent → List (RepoTotals × AnchorSweep)
  | _, [] => []
  | table, .capture s :: events => sweptTables (table.recordResticSnapshot s) events
  | table, .sweep s :: events => (table, s) :: sweptTables (s.run table).table events

def CountedOnce (tenantId : String) (table : RepoTotals) (sweep : AnchorSweep) : Prop :=
  table.Merged tenantId → ∀ uri, mergedRepoUri sweep.target tenantId = some uri →
    ∀ size, (uri, size) ∈ (sweep.run table).measurements →
      (sweep.run table).table.tenantTotal tenantId = size

/-- A row of the tenant comes up, and `restic stats` of the merged repository answers. -/
def Reaches (tenantId : String) (table : RepoTotals) (sweep : AnchorSweep) : Prop :=
  table.Merged tenantId ∧ sweep.dryRun = false ∧
    (∃ uri, mergedRepoUri sweep.target tenantId = some uri ∧ (sweep.stats uri).isSome) ∧
    ∃ key ∈ sweep.queue table, table.HasKey key ∧ key.tenantId = tenantId

def AllPruned (tenantId : String) (table : RepoTotals) (sweep : AnchorSweep) : Prop :=
  ∀ r ∈ table.rows, r.tenantId = tenantId → r.total ≠ 0 → r.key ∈ sweep.justPruned

theorem countedOnce_iff {tenantId : String} {table : RepoTotals} {sweep : AnchorSweep} :
    CountedOnce tenantId table sweep ↔
      (Reaches tenantId table sweep → AllPruned tenantId table sweep) := by
  unfold CountedOnce Reaches AllPruned AnchorSweep.run
  cases hdry : sweep.dryRun with
  | true => simp
  | false =>
    simp only [Bool.false_eq_true, ↓reduceIte, true_and]
    constructor
    · rintro h ⟨hmerged, ⟨uri, huri, hstats⟩, howns⟩
      obtain ⟨size, hsize⟩ := Option.isSome_iff_exists.mp hstats
      have hmeasured := (measured_foldl_iff ⟨table, [], 0, []⟩ huri hmerged List.not_mem_nil
        fun _ => List.not_mem_nil).mpr ⟨hsize, howns⟩
      have htotal := totalBut_foldl ⟨table, [], 0, []⟩ huri hmerged nodup_queue
        List.not_mem_nil hmeasured List.not_mem_nil
      rw [RepoTotals.totalBut_nil, h hmerged uri huri size hmeasured] at htotal
      exact totalBut_queue.mp (Nat.add_eq_left.mp htotal.symm)
    · intro h hmerged uri huri size hmeasured
      obtain ⟨hsize, howns⟩ := (measured_foldl_iff ⟨table, [], 0, []⟩ huri hmerged
        List.not_mem_nil fun _ => List.not_mem_nil).mp hmeasured
      have hnone := totalBut_queue.mpr
        (h ⟨hmerged, ⟨uri, huri, Option.isSome_iff_exists.mpr ⟨size, hsize⟩⟩, howns⟩)
      have htotal := totalBut_foldl ⟨table, [], 0, []⟩ huri hmerged nodup_queue
        List.not_mem_nil hmeasured List.not_mem_nil
      rw [← RepoTotals.totalBut_nil, htotal]
      dsimp only
      rw [hnone, Nat.add_zero]

/-- In a run every sweep counts the merged repository of a tenant once, exactly when every sweep
that measures it has pruned all rows of the tenant that hold something. -/
theorem repository_size_counted_once_iff (table : RepoTotals) (events : List RepoEvent)
    (tenantId : String) : (∀ x ∈ sweptTables table events, CountedOnce tenantId x.1 x.2) ↔
      ∀ x ∈ sweptTables table events, Reaches tenantId x.1 x.2 → AllPruned tenantId x.1 x.2 :=
  forall₂_congr fun _ _ => countedOnce_iff

/-! ### Two rows that are measured by two sweeps -/

def shim : ShimTarget := ⟨"http://shim:9000", "tenant"⟩

def capture (component : String) (snapshotAt : ℤ) (h : component ∈ resticComponents) :
    ResticSnapshot where
  tenantId := "acme"
  component := component
  repoUri := "s3:http://shim:9000/tenant/restic/acme"
  snapshotAt := snapshotAt
  dataAddedPacked := some 10
  restic := h

instance (a b : RepoTotalRow) : Decidable (SnapshotFirst a b) := by
  unfold SnapshotFirst
  split <;> infer_instance

def snapshotOrder : SeedOrder where
  arrange := List.insertionSort SnapshotFirst
  perm := List.perm_insertionSort SnapshotFirst
  ordered := by
    have : Std.Total SnapshotFirst := by
      constructor
      intro a b
      unfold SnapshotFirst
      cases a.lastSnapshotAt <;> cases b.lastSnapshotAt <;> simp [Int.le_total]
    have : IsTrans RepoTotalRow SnapshotFirst := by
      constructor
      intro a b c hab hbc
      unfold SnapshotFirst at hab hbc ⊢
      cases ha : a.lastSnapshotAt <;> cases hb : b.lastSnapshotAt <;> cases hc : c.lastSnapshotAt <;>
        simp_all; omega
    exact List.pairwise_insertionSort SnapshotFirst

def plainSweep : AnchorSweep where
  dryRun := false
  tenantId := none
  maxRepoAnchors := none
  target := shim
  justPruned := []
  order := snapshotOrder
  stats _ := some 100
  now _ := 0

def noTotals : RepoTotals := ⟨[], List.nodup_nil, fun _ h => absurd h List.not_mem_nil⟩

def filesFirst : RepoTotals := noTotals.recordResticSnapshot (capture "files" 1 (by decide))

def mailboxesLater : RepoTotals :=
  (plainSweep.run filesFirst).table.recordResticSnapshot (capture "mailboxes" 2 (by decide))

theorem repository_counted_twice :
    ¬ ∀ (table : RepoTotals) (events : List RepoEvent) (tenantId : String),
      ∀ x ∈ sweptTables table events, CountedOnce tenantId x.1 x.2 := by
  intro h
  have hsecond : (mailboxesLater, plainSweep) ∈ sweptTables noTotals
      [.capture (capture "files" 1 (by decide)), .sweep plainSweep,
        .capture (capture "mailboxes" 2 (by decide)), .sweep plainSweep] :=
    List.mem_cons_of_mem _ List.mem_cons_self
  have hmerged : mailboxesLater.Merged "acme" := by
    have hall : (mailboxesLater.rows.all fun r => layoutFromRepoUri r.repoUri "acme" = .perTenant) = true := by
      rfl
    intro r hr _
    simpa using List.all_eq_true.mp hall r hr
  have htotal := h noTotals _ "acme" _ hsecond hmerged "s3:http://shim:9000/tenant/restic/acme"
    (by decide) 100 (by decide)
  have htwice : (plainSweep.run mailboxesLater).table.tenantTotal "acme" = 200 := by decide
  rw [htotal] at htwice
  cases htwice

end Insula.TenantBundles
