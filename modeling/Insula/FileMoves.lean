import Insula.FileTree

/-!
# Removing, moving and making in a tree of files

A removal may stop before its end, and then what it did not get to stays with the directories above
it. A move takes what stands below a place to another place. Directories are made one after the
other, and those that were made before an error stay.
-/

namespace Insula.FileTree

open Paths

variable {α : Type}

def entryAt (t : FsTree α) (path : Text) : Option Loc :=
  match walk t maxLinks [] (parts path).dropLast with
  | .found dir =>
    if t.kind dir = some .dir then (parts path).getLast?.map fun name => dir ++ [name] else none
  | _ => none

def stands (t : FsTree α) (path : Text) : Bool :=
  match realpath t path with
  | .ok _ => true
  | .error _ => false

namespace FsTree

variable (t : FsTree α)

/-- What stands at a place or below it is removed, but for what is kept and what is above that. -/
def removed (target : Loc) (kept : List Loc) (loc : Loc) : Prop :=
  target ≠ [] ∧ target <+: loc ∧ ∀ k ∈ kept, ¬ loc <+: k

instance (target : Loc) (kept : List Loc) (loc : Loc) : Decidable (removed target kept loc) :=
  inferInstanceAs (Decidable (_ ∧ _))

def remove (target : Loc) (kept : List Loc) : FsTree α where
  node loc := if removed target kept loc then none else t.node loc
  root := by
    have hroot : ¬ removed target kept [] := fun h => h.1 (List.prefix_nil.mp h.2.1)
    rw [if_neg hroot]
    exact t.root
  parent loc name h := by
    split_ifs at h with hgone
    · exact absurd rfl h
    · have hstays : ¬ removed target kept loc := by
        rintro ⟨hne, hbelow, hall⟩
        refine hgone ⟨hne, hbelow.trans (List.prefix_append _ _), ?_⟩
        intro k hk habove
        exact hall k hk ((List.prefix_append _ _).trans habove)
      rw [if_neg hstays]
      exact t.parent loc name h
  plain loc h := by
    split_ifs at h
    · exact absurd rfl h
    · exact t.plain loc h

theorem node_remove (target : Loc) (kept : List Loc) (loc : Loc) :
    (t.remove target kept).node loc = if removed target kept loc then none else t.node loc := rfl

/-- What can be moved: it is there, neither place is below the other, and there is a directory to
move it to. -/
structure Movable (src dst : Loc) : Prop where
  there : (t.node src).isSome = true
  down : ¬ src <+: dst
  up : ¬ dst <+: src
  dir : t.kind dst.dropLast = some .dir
  plain : ∀ name ∈ dst, Plain name

instance (src dst : Loc) : Decidable (t.Movable src dst) :=
  decidable_of_iff ((t.node src).isSome = true ∧ ¬ src <+: dst ∧ ¬ dst <+: src ∧
      t.kind dst.dropLast = some .dir ∧ ∀ name ∈ dst, Plain name)
    ⟨fun ⟨h₁, h₂, h₃, h₄, h₅⟩ => ⟨h₁, h₂, h₃, h₄, h₅⟩, fun ⟨h₁, h₂, h₃, h₄, h₅⟩ => ⟨h₁, h₂, h₃, h₄, h₅⟩⟩

variable {t} {src dst : Loc}

theorem append_drop_of_prefix {a l : Loc} (h : a <+: l) : a ++ l.drop a.length = l := by
  obtain ⟨r, rfl⟩ := h
  rw [List.drop_left]

/-- What stands at the one place and below it stands at the other and below that. -/
def move (t : FsTree α) (src dst : Loc) (h : t.Movable src dst) : FsTree α where
  node loc :=
    if dst <+: loc then t.node (src ++ loc.drop dst.length) else if src <+:
    loc then none else t.node loc
  root := by
    have hdst : ¬ dst <+: [] := fun hnil => h.up (List.prefix_nil.mp hnil ▸ List.nil_prefix)
    have hsrc : ¬ src <+: [] := fun hnil => h.down (List.prefix_nil.mp hnil ▸ List.nil_prefix)
    rw [if_neg hdst, if_neg hsrc]
    exact t.root
  parent loc name hnode := by
    have hconcat : ∀ a : Loc, a <+: loc → a <+: loc ++ [name] := fun _ ha =>
      ha.trans (List.prefix_append _ _)
    by_cases hbelow : dst <+: loc ++ [name]
    · rw [if_pos hbelow] at hnode
      by_cases hloc : dst <+: loc
      · have hdrop : (loc ++ [name]).drop dst.length = loc.drop dst.length ++ [name] :=
          List.drop_append_of_le_length hloc.length_le
        rw [hdrop, ← List.append_assoc] at hnode
        rw [if_pos hloc]
        exact t.parent _ name hnode
      · have heq : dst = loc ++ [name] := by
          rcases List.prefix_concat_iff.mp hbelow with heq | habove
          · exact heq
          · exact absurd habove hloc
        have hdir := h.dir
        have hsrc : ¬ src <+: loc := fun habove => h.down (heq ▸ hconcat src habove)
        rw [heq, List.dropLast_concat] at hdir
        rw [if_neg hloc, if_neg hsrc]
        exact hdir
    · have hdst : ¬ dst <+: loc := fun habove => hbelow (hconcat dst habove)
      rw [if_neg hbelow] at hnode
      by_cases hgone : src <+: loc ++ [name]
      · rw [if_pos hgone] at hnode
        exact absurd rfl hnode
      · have hsrc : ¬ src <+: loc := fun habove => hgone (hconcat src habove)
        rw [if_neg hgone] at hnode
        rw [if_neg hdst, if_neg hsrc]
        exact t.parent loc name hnode
  plain loc hnode := by
    by_cases hbelow : dst <+: loc
    · rw [if_pos hbelow] at hnode
      intro name hname
      rw [← append_drop_of_prefix hbelow] at hname
      rcases List.mem_append.mp hname with hname | hname
      · exact h.plain name hname
      · exact t.plain _ hnode name (List.mem_append_right _ hname)
    · rw [if_neg hbelow] at hnode
      by_cases hgone : src <+: loc
      · rw [if_pos hgone] at hnode
        exact absurd rfl hnode
      · rw [if_neg hgone] at hnode
        exact t.plain loc hnode

def setData (t : FsTree α) (target : Loc) (f : α → α) : FsTree α where
  node loc := if loc = target then (t.node loc).map fun n => ⟨n.kind, f n.data⟩ else t.node loc
  root := by
    split_ifs
    · rw [Option.map_map]
      exact t.root
    · exact t.root
  parent loc name hnode := by
    have hold : t.node (loc ++ [name]) ≠ none := by
      split_ifs at hnode
      · exact fun hnone => hnode (by rw [hnone]; rfl)
      · exact hnode
    have hdir := t.parent loc name hold
    split_ifs
    · rw [Option.map_map]
      exact hdir
    · exact hdir
  plain loc hnode := by
    have hold : t.node loc ≠ none := by
      split_ifs at hnode
      · exact fun hnone => hnode (by rw [hnone]; rfl)
      · exact hnode
    exact t.plain loc hold

/-- What a move would put out of its place: nothing, an empty directory that a directory replaces,
or no directory that no directory replaces. The places of the tree are among those listed. -/
def Replaces (t : FsTree α) (locs : List Loc) (src dst : Loc) : Prop :=
  match t.kind dst with
  | none => True
  | some .dir => t.kind src = some .dir ∧ ∀ loc ∈ locs, dst <+: loc → loc = dst ∨ (t.node loc).isNone = true
  | some _ => t.kind src ≠ some .dir

instance (t : FsTree α) (locs : List Loc) (src dst : Loc) : Decidable (t.Replaces locs src dst) := by
  unfold Replaces
  split <;> infer_instance

def rename (t : FsTree α) (locs : List Loc) (src dst : Loc) : Option (FsTree α) :=
  if h : t.Movable src dst ∧ t.Replaces locs src dst then some (t.move src dst h.1) else none

end FsTree

def renamePath (t : FsTree α) (locs : List Loc) (old new : Text) : Option (FsTree α) :=
  match entryAt t old, entryAt t new with
  | some src, some dst => t.rename locs src dst
  | _, _ => none

/-- `rm` with `recursive` and `force`: what it could not remove is kept, and it fails then. -/
def removePath (t : FsTree α) (kept : List Loc) (path : Text) : FsTree α :=
  match entryAt t path with
  | some target => t.remove target kept
  | none => t

def unlinkPath (t : FsTree α) (path : Text) : FsTree α :=
  match entryAt t path with
  | some target => if t.kind target = some .dir then t else t.remove target []
  | none => t

def chownPath (t : FsTree α) (own : α → α) (path : Text) : FsTree α :=
  match resolve t path with
  | .found loc => t.setData loc own
  | _ => t

/-- `mkdir` with `recursive`, and whether it came to its end. -/
def mkdirs (t : FsTree α) (data : α) (above : List Text) : List Text → FsTree α × Bool
  | [] => (t, true)
  | part :: rest =>
    match makeDir t data above part with
    | none => (t, false)
    | some t => mkdirs t data (above ++ [part]) rest

/-! ## Places of paths -/

section Places

variable {t : FsTree α} {dir : Loc} {name : Text}

theorem FsTree.isSome_node {loc : Loc} : (t.node loc).isSome = true ↔ t.node loc ≠ none := by
  rw [Option.isSome_iff_ne_none]

theorem FsTree.kind_congr {t' : FsTree α} {loc : Loc} (h : t'.node loc = t.node loc) :
    t'.kind loc = t.kind loc := by
  rw [FsTree.kind, FsTree.kind, h]

theorem entryAt_render (hdir : t.kind dir = some .dir) (hname : Plain name) :
    entryAt t (render (dir ++ [name])) = some (dir ++ [name]) := by
  have hplain : ∀ x ∈ dir ++ [name], Plain x := by
    intro x hx
    rcases List.mem_append.mp hx with hx | hx
    · exact FsTree.plain_of_kind hdir x hx
    · rw [List.mem_singleton] at hx
      exact hx ▸ hname
  unfold entryAt
  rw [parts_render hplain, List.dropLast_concat, walk_self (.inl hdir), List.getLast?_concat]
  exact if_pos hdir

end Places

/-! ## Directories that are made -/

section Mkdirs

/-- Nothing was lost, and what is new is a directory on the way. -/
structure Grows (t t' : FsTree α) (names : Loc) : Prop where
  kept : ∀ loc, t.node loc ≠ none → t'.node loc = t.node loc
  new : ∀ loc, t.node loc = none → t'.node loc ≠ none → loc <+: names ∧ t'.kind loc = some .dir

variable {t : FsTree α} {data : α} {above : Loc}

theorem Grows.refl (t : FsTree α) (names : Loc) : Grows t t names :=
  ⟨fun _ _ => rfl, fun _ hnone hsome => absurd hnone hsome⟩

theorem mkdirs_dirs (names : List Text) (h : t.kind (above ++ names) = some .dir) (rest : List Text) :
    mkdirs t data above (names ++ rest) = mkdirs t data (above ++ names) rest := by
  induction names generalizing above with
  | nil => simp
  | cons part names ih =>
    have hassoc : above ++ part :: names = above ++ [part] ++ names := by simp
    rw [hassoc] at h ⊢
    have hdir : t.kind (above ++ [part]) = some .dir := by
      by_cases hnil : names = []
      · subst hnil
        simpa using h
      · exact FsTree.kind_of_append h hnil
    rw [List.cons_append, mkdirs, makeDir_of_dir hdir]
    exact ih h

theorem mkdirs_of_dir {t : FsTree α} (data : α) {names : Loc} (h : t.kind names = some .dir) :
    mkdirs t data [] names = (t, true) := by
  have hdirs := @mkdirs_dirs _ t data [] names h []
  rwa [List.append_nil, List.nil_append] at hdirs

theorem mkdirs_grows {names : List Text} (habove : t.kind above = some .dir)
    (hplain : ∀ name ∈ names, Plain name)
    (hfirst : ∀ name ∈ names.head?, t.node (above ++ [name]) = none ∨
      makeDir t data above name = none) :
    Grows t (mkdirs t data above names).1 (above ++ names) ∧ ((mkdirs t data above names).2 = true →
        (mkdirs t data above names).1.kind (above ++ names) = some .dir) := by
  induction names generalizing t above with
  | nil =>
    rw [List.append_nil]
    exact ⟨.refl t above, fun _ => habove⟩
  | cons part names ih =>
    rw [mkdirs]
    rcases hfirst part rfl with hmissing | hnot
    · have hnew : t.kind above = some .dir ∧ t.node (above ++ [part]) = none ∧ Plain part :=
        ⟨habove, hmissing, hplain part List.mem_cons_self⟩
      have hmake : makeDir t data above part =
          some (t.make above part ⟨.dir, data⟩ hnew.1 hnew.2.1 hnew.2.2) := by
        unfold makeDir
        rw [walk_self (.inl habove)]
        simp only [dif_pos hnew]
      have hdir : (t.make above part ⟨.dir, data⟩ hnew.1 hnew.2.1 hnew.2.2).kind (above ++ [part]) =
          some .dir := FsTree.kind_make_self hnew.1 hnew.2.1 hnew.2.2
      have hold : ∀ loc, loc ≠ above ++ [part] →
          (t.make above part ⟨.dir, data⟩ hnew.1 hnew.2.1 hnew.2.2).node loc = t.node loc :=
          fun loc hne =>
        FsTree.node_make_of_ne hnew.1 hnew.2.1 hnew.2.2 hne
      generalize t.make above part ⟨.dir, data⟩ hnew.1 hnew.2.1 hnew.2.2 = t₁ at hmake hdir hold
      have hbelow : ∀ name, t₁.node (above ++ [part] ++ [name]) = none := by
        intro name
        rw [hold _ (FsTree.append_singleton_ne_self _ _).symm]
        by_contra hsome
        have hparent := t.parent (above ++ [part]) name hsome
        rw [hmissing] at hparent
        cases hparent
      obtain ⟨hgrows, hdirs⟩ := ih hdir (fun name hname => hplain name (List.mem_cons_of_mem _ hname))
        fun name _ => .inl (hbelow name)
      rw [hmake]
      dsimp only
      have hassoc : above ++ part :: names = above ++ [part] ++ names := by simp
      rw [hassoc]
      refine ⟨⟨?_, ?_⟩, hdirs⟩
      · intro loc hloc
        have hne : loc ≠ above ++ [part] := by
          rintro rfl
          exact hloc hmissing
        rw [hgrows.kept loc (by rw [hold loc hne]; exact hloc), hold loc hne]
      · intro loc hnone hsome
        by_cases heq : loc = above ++ [part]
        · subst heq
          refine ⟨List.prefix_append _ _, ?_⟩
          rw [FsTree.kind_congr (hgrows.kept _ (FsTree.node_ne_none hdir))]
          exact hdir
        · exact hgrows.new loc (by rw [hold loc heq]; exact hnone) hsome
    · rw [hnot]
      exact ⟨.refl t _, fun h => by cases h⟩

theorem Grows.mono {t' : FsTree α} {names more : Loc} (h : Grows t t' names) (hmore : names <+: more) :
    Grows t t' more :=
  ⟨h.kept, fun loc hnone hsome => ⟨(h.new loc hnone hsome).1.trans hmore, (h.new loc hnone hsome).2⟩⟩

theorem mkdirs_way {loc way names : Loc} (hdir : t.kind loc = some .dir) (hplain : ∀ x ∈ way, Plain x)
    (hfirst : ∀ name ∈ way.head?, t.node (loc ++ [name]) = none ∨ makeDir t data loc name = none)
    (hnames : names <+: loc ++ way) : Grows t (mkdirs t data [] names).1 names ∧
      ((mkdirs t data [] names).2 = true → (mkdirs t data [] names).1.kind names = some .dir) := by
  rcases List.prefix_or_prefix_of_prefix hnames (List.prefix_append loc way) with hshort | hlong
  · have hkind : t.kind names = some .dir := by
      obtain ⟨below, rfl⟩ := hshort
      by_cases hnil : below = []
      · subst hnil
        rwa [List.append_nil] at hdir
      · exact FsTree.kind_of_append hdir hnil
    rw [mkdirs_of_dir data hkind]
    exact ⟨.refl t names, fun _ => hkind⟩
  · obtain ⟨extra, rfl⟩ := hlong
    rw [List.prefix_append_right_inj] at hnames
    have hmade : mkdirs t data [] (loc ++ extra) = mkdirs t data loc extra :=
      @mkdirs_dirs _ t data [] loc hdir extra
    rw [hmade]
    apply mkdirs_grows hdir (fun x hx => hplain x (hnames.subset hx))
    intro name hname
    apply hfirst
    obtain ⟨rest, rfl⟩ := hnames
    rw [List.head?_append, Option.mem_def.mp hname]
    rfl

end Mkdirs

/-! ## What moves leave -/

namespace FsTree

variable {t : FsTree α} {src dst loc : Loc}

theorem kind_setData (t : FsTree α) (target : Loc) (f : α → α) (loc : Loc) :
    (t.setData target f).kind loc = t.kind loc := by
  unfold FsTree.kind setData
  dsimp only
  split_ifs
  · rw [Option.map_map]
    rfl
  · rfl

theorem node_setData_of_ne {target : Loc} {f : α → α} (h : loc ≠ target) :
    (t.setData target f).node loc = t.node loc := if_neg h

theorem node_setData_self {target : Loc} {f : α → α} :
    (t.setData target f).node target = (t.node target).map fun n => ⟨n.kind, f n.data⟩ := if_pos rfl

theorem node_move_below (h : t.Movable src dst) (rel : Loc) :
    (t.move src dst h).node (dst ++ rel) = t.node (src ++ rel) := by
  have hpos : dst <+: dst ++ rel := List.prefix_append _ _
  change (if dst <+: dst ++ rel then t.node (src ++ (dst ++ rel).drop dst.length) else _) = _
  rw [if_pos hpos, List.drop_left]

theorem node_move_source (h : t.Movable src dst) (rel : Loc) :
    (t.move src dst h).node (src ++ rel) = none := by
  have hneg : ¬ dst <+: src ++ rel := by
    intro hbegins
    rcases List.prefix_or_prefix_of_prefix hbegins (List.prefix_append src rel) with hup | hdown
    · exact h.up hup
    · exact h.down hdown
  change (if dst <+: src ++ rel then _ else if src <+: src ++ rel then none else _) = none
  rw [if_neg hneg, if_pos (List.prefix_append _ _)]

theorem node_move_else (h : t.Movable src dst) (hdst : ¬ dst <+: loc) (hsrc : ¬ src <+: loc) :
    (t.move src dst h).node loc = t.node loc := by
  change (if dst <+: loc then _ else if src <+: loc then none else _) = _
  rw [if_neg hdst, if_neg hsrc]

/-- A move is told by what stands at the two places and below the target. -/
theorem replaces_congr {t' : FsTree α} {locs : List Loc} (hsrc : t'.kind src = t.kind src)
    (hdst : ∀ loc, dst <+: loc → t'.node loc = t.node loc) :
    t'.Replaces locs src dst ↔ t.Replaces locs src dst := by
  unfold Replaces
  rw [kind_congr (hdst dst (List.prefix_refl _)), hsrc]
  cases t.kind dst with
  | none => rfl
  | some kind =>
    cases kind with
    | dir =>
      apply and_congr_right
      intro _
      apply forall₂_congr
      intro loc _
      apply imp_congr_right
      intro hbelow
      rw [hdst loc hbelow]
    | file => rfl
    | link => rfl

end FsTree

theorem node_unlinkPath (t : FsTree α) (path : Text) (loc : Loc) :
    (unlinkPath t path).node loc = t.node loc ∨
      entryAt t path = some loc ∧ t.kind loc ≠ some .dir ∧ (unlinkPath t path).node loc = none := by
  unfold unlinkPath
  cases hentry : entryAt t path with
  | none => exact .inl rfl
  | some target =>
    dsimp only
    split
    · exact .inl rfl
    next hkind =>
      rw [FsTree.node_remove]
      split
      next hgone =>
        by_cases heq : target = loc
        · subst heq
          exact .inr ⟨rfl, hkind, rfl⟩
        · left
          by_contra hthere
          obtain ⟨below, rfl⟩ := hgone.2.1
          obtain ⟨n, hn⟩ := Option.ne_none_iff_exists'.mp (Ne.symm hthere)
          apply hkind
          have hbelow : t.kind (target ++ below) = some n.kind := by
            rw [FsTree.kind, hn]
            rfl
          apply FsTree.kind_of_append hbelow
          rintro rfl
          exact heq (List.append_nil _).symm
      next => exact .inl rfl

theorem node_unlinkPath_self {t : FsTree α} {path : Text} {loc : Loc}
    (hentry : entryAt t path = some loc)
    (hkind : t.kind loc ≠ some .dir) : (unlinkPath t path).node loc = none := by
  have hne : loc ≠ [] := by
    rintro rfl
    exact hkind t.root
  unfold unlinkPath
  rw [hentry]
  dsimp only
  rw [if_neg hkind, FsTree.node_remove, if_pos ⟨hne, List.prefix_refl _, by simp⟩]

end Insula.FileTree
