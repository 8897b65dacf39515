import Insula.TrashRestoreOutcome

/-!
# When a restore is all or nothing

The property speaks about the payload, the places outside the bin and the place of the target. It
holds exactly when a replacement is not broken off after the removal, when the move replaces nothing
that it may not replace, when it does not fail after the owner of a directory was changed, and when
the path of the metadata does not lead to another file.
-/

namespace Insula.FileManager

open Paths FileTree

variable {α : Type}

/-! ## The property -/

section Property

variable (t : FsTree α) (faults : Faults) (derived : Option Text) (shards : List Text)
  (info : Text → Recorded) (opts : RestoreOptions) (id : Text)

def OfPayload (loc : Loc) : Prop :=
  ∃ shard payload, locate t faults derived shards id = some (shard, payload) ∧ parts payload <+: loc

def OfInfo (loc : Loc) : Prop :=
  ∃ shard payload, locate t faults derived shards id = some (shard, payload) ∧ loc = metaLoc shard id

def AimsAt (dst : Loc) : Prop :=
  ∃ shard payload target relTarget replace,
    planRestore t faults derived shards info opts id = .go shard payload target relTarget replace ∧
      dst = parts target

structure AllOrNothing (o : Restored α) : Prop where
  /-- With status 200 the payload is at the path that is reported, and no longer in the bin. -/
  done : o.status = some 200 → ∃ shard payload target,
    locate t faults derived shards id = some (shard, payload) ∧ safePath t o.restoredTo = some target ∧
      (∀ rel, o.tree.node (parts target ++ rel) = t.node (parts payload ++ rel)) ∧
      ∀ rel, o.tree.node (parts payload ++ rel) = none
  /-- Otherwise the payload and everything outside the bin is as before. -/
  undone : o.status ≠ some 200 → ∀ loc, t.node loc ≠ none →
    OfPayload t faults derived shards id loc ∨ ¬ trashLoc <+: loc → o.tree.node loc = t.node loc
  /-- What is new then is a directory above the target. -/
  new : o.status ≠ some 200 → ∀ loc, ¬ trashLoc <+: loc → t.node loc = none → o.tree.node loc ≠ none →
    o.tree.kind loc = some .dir ∧
      ∃ dst, AimsAt t faults derived shards info opts id dst ∧ loc <+: dst.dropLast
  /-- Without `overwrite` nothing that was there is removed or replaced. -/
  spared : opts.overwrite = false → ∀ loc, t.node loc ≠ none →
    ¬ OfPayload t faults derived shards id loc → ¬ OfInfo t faults derived shards id loc →
      o.tree.node loc ≠ none ∧
        (o.status = some 200 → ∀ target, safePath t o.restoredTo = some target → loc ≠ parts target)
  /-- With `overwrite` nothing is removed but what stands at the target. -/
  only : opts.overwrite = true → ∀ loc, t.node loc ≠ none →
    ¬ OfPayload t faults derived shards id loc → ¬ OfInfo t faults derived shards id loc →
      (∀ dst, AimsAt t faults derived shards info opts id dst → ¬ dst <+: loc) → o.tree.node loc ≠ none

end Property

/-! ## The condition -/

section Condition

variable (faults : Faults) (locs : List Loc) (data : α) (own : α → α)

/-- The path of the metadata leads to a file or a link that is not at the place of the metadata. -/
def Strays (t : FsTree α) (shard id : Text) : Prop :=
  ∃ loc, entryAt t (infoPath shard id) = some loc ∧ loc ≠ metaLoc shard id ∧
    t.kind loc ≠ none ∧ t.kind loc ≠ some .dir

/-- The metadata is left, or nothing else is removed in its stead once the payload is at its
target. -/
def Tidy (id shard payload target : Text) (t : FsTree α) : Prop :=
  faults.unlink = true ∨ ∀ moved, renamePayload faults locs payload target
    (chownParent faults own (makeParents faults data t target).1 target) = some moved →
      ¬ Strays moved shard id

def Unbroken (opts : RestoreOptions) (id : Text) (t : FsTree α) : RestorePlan → Prop
  | .refuse _ _ => True
  | .go shard payload target _ true =>
    match faults.rm with
    | none => parts target ≠ volume ∧ faults.mkdir = none ∧ faults.rename = false ∧
        Tidy faults locs data own id shard payload target (removePath t [] target)
    | some kept => ∀ loc, t.node loc ≠ none → parts payload <+: loc ∨ ¬ trashLoc <+: loc →
        ¬ FsTree.removed (parts target) kept loc
  | .go shard payload target _ false =>
    (makeParents faults data t target).2 = true →
      if faults.rename = false ∧ parts target ≠ volume ∧
          t.Replaces locs (parts payload) (parts target) then
        (opts.overwrite = true ∨ t.node (parts target) = none) ∧
          Tidy faults locs data own id shard payload target t
      else faults.chown = true ∨ ∀ n, t.node (parts target).dropLast = some n → own n.data = n.data

end Condition

/-! ## What stands after the calls -/

section Calls

variable {t t' moved : FsTree α} {faults : Faults} {locs : List Loc} {own : α → α}
  {payload target : Text}
  {dir above src dst loc : Loc} {leaf name : Text}

/-- The directories above the target are there, and the lowest has its owner. -/
structure Prepared (t t' : FsTree α) (above : Loc) : Prop where
  same : ∀ loc, t.node loc ≠ none → loc ≠ above → t'.node loc = t.node loc
  kinds : ∀ loc, t.node loc ≠ none → t'.kind loc = t.kind loc
  new : ∀ loc, t.node loc = none → t'.node loc ≠ none → loc <+: above ∧ t'.kind loc = some .dir
  dir : t'.kind above = some .dir

theorem Prepared.node_eq (h : Prepared t t' above) (hloc : ¬ loc <+: above) :
    t'.node loc = t.node loc := by
  by_cases hnode : t.node loc = none
  · rw [hnode]
    by_contra hsome
    exact hloc (h.new loc hnode hsome).1
  · apply h.same loc hnode
    rintro rfl
    exact hloc (List.prefix_refl _)

variable (faults own) in
theorem chownParent_eq (htarget : target = render (above ++ [name])) (hname : Plain name)
    (hdir : t.kind above = some .dir) :
    chownParent faults own t target = if faults.chown then t else t.setData above own := by
  have hplain : ∀ x ∈ above ++ [name], Plain x := by
    intro x hx
    rcases List.mem_append.mp hx with hx | hx
    · exact FsTree.plain_of_kind hdir x hx
    · exact List.mem_singleton.mp hx ▸ hname
  have hparent : dirname target = render above := by
    rw [dirname, htarget, parts_render hplain, List.dropLast_concat]
  unfold chownParent chownPath
  rw [hparent, resolve_render (FsTree.plain_of_kind hdir), walk_self (.inl hdir)]

variable (faults own) in
theorem prepared_chownParent (hgrows : Grows t t' above) (hdir : t'.kind above = some .dir)
    (htarget : target = render (above ++ [name])) (hname : Plain name) :
    Prepared t (chownParent faults own t' target) above := by
  have hkind : ∀ loc, (chownParent faults own t' target).kind loc = t'.kind loc := by
    intro loc
    rw [chownParent_eq faults own htarget hname hdir]
    split
    · rfl
    · exact FsTree.kind_setData t' above own loc
  have hnode : ∀ loc, loc ≠ above → (chownParent faults own t' target).node loc = t'.node loc := by
    intro loc hloc
    rw [chownParent_eq faults own htarget hname hdir]
    split
    · rfl
    · exact FsTree.node_setData_of_ne hloc
  constructor
  · intro loc hthere hloc
    rw [hnode loc hloc, hgrows.kept loc hthere]
  · intro loc hthere
    rw [hkind loc, FsTree.kind_congr (hgrows.kept loc hthere)]
  · intro loc hnone hthere
    rw [hkind loc]
    apply hgrows.new loc hnone
    intro hgone
    exact hthere (FsTree.kind_eq_none.mp (by rw [hkind loc]; exact FsTree.kind_eq_none.mpr hgone))
  · rw [hkind above]
    exact hdir

/-- The payload stands at the target, and elsewhere there are new directories at most. -/
structure Landed (t moved : FsTree α) (src dst : Loc) : Prop where
  placed : ∀ rel, moved.node (dst ++ rel) = t.node (src ++ rel)
  gone : ∀ rel, moved.node (src ++ rel) = none
  kept : ∀ loc, ¬ dst <+: loc → ¬ src <+: loc → t.node loc ≠ none → moved.node loc ≠ none
  new : ∀ loc, ¬ dst <+: loc → ¬ src <+: loc → t.node loc = none → moved.node loc ≠ none →
    moved.kind loc = some .dir

theorem landed_move (hprep : Prepared t t' above) (hsrc : ∀ rel, ¬ src ++ rel <+: above)
    (hmove : t'.Movable src dst) : Landed t (t'.move src dst hmove) src dst := by
  constructor
  · intro rel
    rw [FsTree.node_move_below hmove, hprep.node_eq (hsrc rel)]
  · exact FsTree.node_move_source hmove
  · intro loc hdst hout hthere
    rw [FsTree.node_move_else hmove hdst hout]
    have hkind := hprep.kinds loc hthere
    intro hgone
    rw [FsTree.kind_eq_none.mpr hgone] at hkind
    exact hthere (FsTree.kind_eq_none.mp hkind.symm)
  · intro loc hdst hout hnone hsome
    have hnode := FsTree.node_move_else hmove hdst hout
    rw [hnode] at hsome
    rw [FsTree.kind_congr hnode]
    exact (hprep.new loc hnone hsome).2

variable (faults locs) in
theorem renamePayload_landed (hbin : InBin t payload dir leaf) (hprep : Prepared t t' above)
    (htarget : target = render (above ++ [name])) (hname : Plain name)
    (hout : ¬ trashLoc <+: above ++ [name]) :
    (∀ moved, renamePayload faults locs payload target t' = some moved →
      Landed t moved (dir ++ [leaf]) (above ++ [name])) ∧
      ((renamePayload faults locs payload target t').isSome = true ↔
        faults.rename = false ∧ ¬ above ++ [name] <+: dir ++ [leaf] ∧
          t.Replaces locs (dir ++ [leaf]) (above ++ [name])) := by
  have hbelow : ∀ rel, ¬ dir ++ [leaf] ++ rel <+: above ++ [name] := by
    intro rel hbegins
    apply hout
    rw [List.append_assoc] at hbegins
    exact (hbin.within.trans (List.prefix_append _ _)).trans hbegins
  have habove : ∀ rel, ¬ dir ++ [leaf] ++ rel <+: above := fun rel hbegins =>
    hbelow rel (hbegins.trans (List.prefix_append _ _))
  have hdown : ¬ dir ++ [leaf] <+: above ++ [name] := by
    have hnil := hbelow []
    rwa [List.append_nil] at hnil
  have hholder : t'.kind dir = some .dir := by
    rw [hprep.kinds dir (FsTree.node_ne_none hbin.holder)]
    exact hbin.holder
  have hsrckind := hprep.kinds (dir ++ [leaf]) hbin.there
  have hsrc : (t'.node (dir ++ [leaf])).isSome = true := by
    rw [FsTree.isSome_node]
    intro hgone
    rw [FsTree.kind_eq_none.mpr hgone] at hsrckind
    exact hbin.there (FsTree.kind_eq_none.mp hsrckind.symm)
  have hplain : ∀ x ∈ above ++ [name], Plain x := by
    intro x hx
    rcases List.mem_append.mp hx with hx | hx
    · exact FsTree.plain_of_kind hprep.dir x hx
    · exact List.mem_singleton.mp hx ▸ hname
  have hrename : renamePath t' locs payload target =
    t'.rename locs (dir ++ [leaf]) (above ++ [name]) := by
    unfold renamePath
    simp only [hbin.path, htarget, entryAt_render hholder hbin.name, entryAt_render hprep.dir hname]
  have hmovable : t'.Movable (dir ++ [leaf]) (above ++ [name]) ↔
    ¬ above ++ [name] <+: dir ++ [leaf] := by
    constructor
    · exact fun h => h.up
    · intro hup
      refine ⟨hsrc, hdown, hup, ?_, hplain⟩
      rw [List.dropLast_concat]
      exact hprep.dir
  have hreplaces : t'.Replaces locs (dir ++ [leaf]) (above ++ [name]) ↔
      t.Replaces locs (dir ++ [leaf]) (above ++ [name]) := by
    apply FsTree.replaces_congr hsrckind
    intro loc hloc
    apply hprep.node_eq
    intro hbegins
    have hlength := (hloc.trans hbegins).length_le
    rw [List.length_append, List.length_singleton] at hlength
    omega
  unfold renamePayload
  rw [hrename]
  unfold FsTree.rename
  cases hfault : faults.rename with
  | true => simp
  | false =>
    rw [if_neg (by simp)]
    split
    next hgo =>
      constructor
      · intro moved hmoved
        cases hmoved
        exact landed_move hprep habove hgo.1
      · simp only [Option.isSome_some, true_and, true_iff]
        exact ⟨hmovable.mp hgo.1, hreplaces.mp hgo.2⟩
    next hno =>
      constructor
      · intro moved hmoved
        cases hmoved
      · simp only [Option.isSome_none, Bool.false_eq_true, true_and, false_iff]
        rintro ⟨hup, hfree⟩
        exact hno ⟨hmovable.mpr hup, hreplaces.mpr hfree⟩

end Calls

/-! ## One payload and one target -/

structure Atomic (t : FsTree α) (overwrite : Bool) (place src dst : Loc) (status : Option ℕ)
    (after : FsTree α) : Prop where
  done : status = some 200 →
    (∀ rel, after.node (dst ++ rel) = t.node (src ++ rel)) ∧ ∀ rel, after.node (src ++ rel) = none
  undone : status ≠ some 200 → ∀ loc, t.node loc ≠ none → src <+: loc ∨ ¬ trashLoc <+: loc →
    after.node loc = t.node loc
  new : status ≠ some 200 → ∀ loc, ¬ trashLoc <+: loc → t.node loc = none → after.node loc ≠ none →
    after.kind loc = some .dir ∧ loc <+: dst.dropLast
  spared : overwrite = false → ∀ loc, t.node loc ≠ none → ¬ src <+: loc → loc ≠ place →
    after.node loc ≠ none ∧ (status = some 200 → loc ≠ dst)
  only : overwrite = true → ∀ loc, t.node loc ≠ none → ¬ src <+: loc → loc ≠ place →
    ¬ dst <+: loc → after.node loc ≠ none

section Atomic

variable {t t' moved : FsTree α} {faults : Faults} {own : α → α} {overwrite : Bool}
  {place src dst above : Loc} {status : Option ℕ} {id shard : Text}

theorem allOrNothing_iff {derived : Option Text} {shards : List Text} {info : Text → Recorded}
    {opts : RestoreOptions} {payload target relTarget : Text} {replace : Bool} {o : Restored α}
    (hplan : planRestore t faults derived shards info opts id =
      .go shard payload target relTarget replace)
    (hpath : o.status = some 200 → o.restoredTo = relTarget) :
    AllOrNothing t faults derived shards info opts id o ↔
      Atomic t opts.overwrite (metaLoc shard id) (parts payload) (parts target) o.status o.tree := by
  obtain ⟨hfound, hsafe, -⟩ := planRestore_go hplan
  have hpayload : ∀ loc, OfPayload t faults derived shards id loc ↔ parts payload <+: loc := by
    intro loc
    constructor
    · rintro ⟨shard', payload', heq, hbelow⟩
      rw [hfound] at heq
      cases heq
      exact hbelow
    · exact fun hbelow => ⟨shard, payload, hfound, hbelow⟩
  have hinfo : ∀ loc, OfInfo t faults derived shards id loc ↔ loc = metaLoc shard id := by
    intro loc
    constructor
    · rintro ⟨shard', payload', heq, hloc⟩
      rw [hfound] at heq
      cases heq
      exact hloc
    · exact fun hloc => ⟨shard, payload, hfound, hloc⟩
  have haim : ∀ dst, AimsAt t faults derived shards info opts id dst ↔ dst = parts target := by
    intro dst
    constructor
    · rintro ⟨shard', payload', target', relTarget', replace', heq, hdst⟩
      rw [hplan] at heq
      cases heq
      exact hdst
    · exact fun hdst => ⟨shard, payload, target, relTarget, replace, hplan, hdst⟩
  constructor
  · rintro ⟨hdone, hundone, hnew, hspared, honly⟩
    simp only [hpayload, hinfo, haim, forall_eq, exists_eq_left] at hundone hnew hspared honly
    constructor
    · intro hstatus
      obtain ⟨shard', payload', target', heq, hsafe', hplaced, hgone⟩ := hdone hstatus
      rw [hfound] at heq
      cases heq
      rw [hpath hstatus, hsafe] at hsafe'
      cases hsafe'
      exact ⟨hplaced, hgone⟩
    · exact hundone
    · exact hnew
    · intro hover loc hthere hout hother
      obtain ⟨hkept, hfree⟩ := hspared hover loc hthere hout hother
      refine ⟨hkept, ?_⟩
      intro hstatus
      exact hfree hstatus target (by rw [hpath hstatus, hsafe])
    · exact honly
  · rintro ⟨hdone, hundone, hnew, hspared, honly⟩
    constructor
    · intro hstatus
      obtain ⟨hplaced, hgone⟩ := hdone hstatus
      exact ⟨shard, payload, target, hfound, by rw [hpath hstatus, hsafe], hplaced, hgone⟩
    · simpa only [hpayload] using hundone
    · simpa only [haim, exists_eq_left] using hnew
    · intro hover loc hthere hout hother
      rw [hpayload] at hout
      rw [hinfo] at hother
      obtain ⟨hkept, hfree⟩ := hspared hover loc hthere hout hother
      refine ⟨hkept, ?_⟩
      intro hstatus target' hsafe'
      rw [hpath hstatus, hsafe] at hsafe'
      cases hsafe'
      exact hfree hstatus
    · simpa only [hpayload, hinfo, haim, forall_eq] using honly

/-- New directories above the target are no harm. -/
theorem atomic_of_grows (hgrows : Grows t t' dst.dropLast) (hstatus : status ≠ some 200) :
    Atomic t overwrite place src dst status t' := by
  have hkept : ∀ loc, t.node loc ≠ none → t'.node loc ≠ none := by
    intro loc hthere
    rw [hgrows.kept loc hthere]
    exact hthere
  constructor
  · exact fun h => absurd h hstatus
  · exact fun _ loc hthere _ => hgrows.kept loc hthere
  · exact fun _ loc _ hnone hsome => (hgrows.new loc hnone hsome).symm
  · exact fun _ loc hthere _ _ => ⟨hkept loc hthere, fun h => absurd h hstatus⟩
  · exact fun _ loc hthere _ _ _ => hkept loc hthere

/-- A target that is lost and not restored is harm. -/
theorem not_atomic_of_lost (hstatus : status ≠ some 200) (hthere : t.node dst ≠ none)
    (hout : ¬ trashLoc <+: dst) (hlost : t'.node dst = none) :
    ¬ Atomic t overwrite place src dst status t' := by
  intro hatomic
  have hsame := hatomic.undone hstatus dst hthere (.inr hout)
  rw [hlost] at hsame
  exact hthere hsame.symm

/-- A removal that is broken off may not have taken away anything but from the bin. -/
theorem atomic_remove_iff {kept : List Loc} : Atomic t true place src dst none (t.remove dst kept) ↔
      ∀ loc, t.node loc ≠ none → src <+: loc ∨ ¬ trashLoc <+: loc → ¬ FsTree.removed dst kept loc := by
  constructor
  · intro hatomic loc hthere hout hgone
    have hsame := hatomic.undone (by simp) loc hthere hout
    rw [FsTree.node_remove, if_pos hgone] at hsame
    exact hthere hsame.symm
  · intro hstays
    constructor
    · intro h
      cases h
    · intro _ loc hthere hout
      rw [FsTree.node_remove, if_neg (hstays loc hthere hout)]
    · intro _ loc _ hnone hsome
      rw [FsTree.node_remove, hnone, ite_self] at hsome
      exact absurd rfl hsome
    · intro h
      cases h
    · intro _ loc hthere _ _ hbelow
      have hstay : ¬ FsTree.removed dst kept loc := fun hgone => hbelow hgone.2.1
      rw [FsTree.node_remove, if_neg hstay]
      exact hthere

/-- A move that fails leaves a directory with another owner, when there was one. -/
theorem atomic_chownParent_iff {target name : Text} (hgrows : Grows t t' above)
    (hdir : t'.kind above = some .dir) (htarget : target = render (above ++ [name]))
    (hname : Plain name) (hout : ¬ trashLoc <+: above ++ [name]) :
    Atomic t overwrite place src (above ++ [name]) none (chownParent faults own t' target) ↔
      faults.chown = true ∨ ∀ n, t.node above = some n → own n.data = n.data := by
  have hprep := prepared_chownParent faults own hgrows hdir htarget hname
  have haboveout : ¬ trashLoc <+: above := fun h => hout (h.trans (List.prefix_append _ _))
  have hchown := chownParent_eq faults own htarget hname hdir
  have hkept : ∀ loc, t.node loc ≠ none → (chownParent faults own t' target).node loc ≠ none := by
    intro loc hthere hgone
    have hkind := hprep.kinds loc hthere
    rw [FsTree.kind_eq_none.mpr hgone] at hkind
    exact hthere (FsTree.kind_eq_none.mp hkind.symm)
  constructor
  · intro hatomic
    by_cases hfault : faults.chown = true
    · exact .inl hfault
    · right
      intro n hn
      have hthere : t.node above ≠ none := by simp [hn]
      have hsame := hatomic.undone (by simp) above hthere (.inr haboveout)
      rw [hchown, if_neg hfault, FsTree.node_setData_self, hgrows.kept above hthere, hn] at hsame
      exact congrArg Node.data (Option.some.inj hsame)
  · intro howner
    have hsame : ∀ loc, t.node loc ≠ none →
      (chownParent faults own t' target).node loc = t.node loc := by
      intro loc hthere
      by_cases hloc : loc = above
      · subst hloc
        rw [hchown]
        rcases howner with hfault | howner
        · rw [if_pos hfault, hgrows.kept loc hthere]
        · split
          · exact hgrows.kept loc hthere
          · obtain ⟨n, hn⟩ := Option.ne_none_iff_exists'.mp hthere
            rw [FsTree.node_setData_self, hgrows.kept loc hthere, hn, Option.map_some, howner n hn]
      · exact hprep.same loc hthere hloc
    constructor
    · intro h
      cases h
    · exact fun _ loc hthere _ => hsame loc hthere
    · intro _ loc _ hnone hsome
      rw [List.dropLast_concat]
      exact (hprep.new loc hnone hsome).symm
    · exact fun _ loc hthere _ _ => ⟨hkept loc hthere, fun h => by cases h⟩
    · exact fun _ loc hthere _ _ _ => hkept loc hthere

theorem atomic_landed_iff (hlanded : Landed t moved src dst) (hdst : ¬ src <+: dst)
    (hplace : ¬ dst <+: metaLoc shard id) :
    Atomic t overwrite (metaLoc shard id) src dst (some 200) (unlinkInfo faults shard id moved) ↔
      (overwrite = true ∨ t.node dst = none) ∧ (faults.unlink = true ∨ ¬ Strays moved shard id) := by
  constructor
  · intro hatomic
    constructor
    · cases hover : overwrite with
      | true => exact .inl rfl
      | false =>
        right
        by_contra hthere
        have hne : dst ≠ metaLoc shard id := by
          intro heq
          exact hplace (heq ▸ List.prefix_refl _)
        exact (hatomic.spared hover dst hthere hdst hne).2 rfl rfl
    · by_cases hfault : faults.unlink = true
      · exact .inl hfault
      · right
        rintro ⟨loc, hentry, hother, hthere, hkind⟩
        have hlost : (unlinkInfo faults shard id moved).node loc = none := by
          unfold unlinkInfo
          rw [if_neg hfault]
          exact node_unlinkPath_self hentry hkind
        have hnode : moved.node loc ≠ none := fun h => hthere (FsTree.kind_eq_none.mpr h)
        by_cases hbelow : dst <+: loc
        · obtain ⟨rel, rfl⟩ := hbelow
          rw [(hatomic.done rfl).1 rel, ← hlanded.placed rel] at hlost
          exact hnode hlost
        · by_cases hpayload : src <+: loc
          · obtain ⟨rel, rfl⟩ := hpayload
            exact hnode (hlanded.gone rel)
          · by_cases hold : t.node loc = none
            · exact hkind (hlanded.new loc hbelow hpayload hold hnode)
            · cases hover : overwrite with
              | true => exact hatomic.only hover loc hold hpayload hother hbelow hlost
              | false => exact (hatomic.spared hover loc hold hpayload hother).1 hlost
  · rintro ⟨hfree, htidy⟩
    have hnode : ∀ loc, loc ≠ metaLoc shard id →
        (unlinkInfo faults shard id moved).node loc = moved.node loc := by
      intro loc hother
      unfold unlinkInfo
      split
      · rfl
      next hfault =>
        rcases node_unlinkPath moved (infoPath shard id) loc with hsame | ⟨hentry, hkind, hlost⟩
        · exact hsame
        · rw [hlost]
          by_contra hthere
          apply htidy.resolve_left hfault
          exact ⟨loc, hentry, hother, fun h => hthere (FsTree.kind_eq_none.mp h).symm, hkind⟩
    have hgone : ∀ loc, moved.node loc = none → (unlinkInfo faults shard id moved).node loc = none := by
      intro loc hnone
      unfold unlinkInfo
      split
      · exact hnone
      · rcases node_unlinkPath moved (infoPath shard id) loc with hsame | ⟨-, -, hlost⟩
        · rw [hsame, hnone]
        · exact hlost
    constructor
    · intro _
      constructor
      · intro rel
        have hother : dst ++ rel ≠ metaLoc shard id := by
          intro heq
          exact hplace (heq ▸ List.prefix_append _ _)
        rw [hnode _ hother, hlanded.placed rel]
      · intro rel
        exact hgone _ (hlanded.gone rel)
    · intro h
      exact absurd rfl h
    · intro h
      exact absurd rfl h
    · intro hover loc hthere hpayload hother
      have hnone : t.node dst = none := hfree.resolve_left (by simp [hover])
      constructor
      · rw [hnode loc hother]
        apply hlanded.kept loc _ hpayload hthere
        rintro ⟨rel, rfl⟩
        by_cases hrel : rel = []
        · subst hrel
          rw [List.append_nil] at hthere
          exact hthere hnone
        · obtain ⟨n, hn⟩ := Option.ne_none_iff_exists'.mp hthere
          have hkind : t.kind (dst ++ rel) = some n.kind := by
            rw [FsTree.kind, hn]
            rfl
          exact FsTree.node_ne_none (FsTree.kind_of_append hkind hrel) hnone
      · rintro - rfl
        exact hthere hnone
    · intro hover loc hthere hpayload hother hbelow
      rw [hnode loc hother]
      exact hlanded.kept loc hbelow hpayload hthere

end Atomic

/-! ## The move and the replacement -/

section Moves

variable {t : FsTree α} {faults : Faults} {locs : List Loc} {data : α} {own : α → α} {overwrite : Bool}
  {id shard payload target relTarget leaf name : Text} {dir loc rest above dst : Loc}

theorem restoredTo_moveIn
    (h : (moveIn faults locs data own id shard payload target relTarget t).status = some 200) :
    (moveIn faults locs data own id shard payload target relTarget t).restoredTo = relTarget := by
  unfold moveIn at h ⊢
  dsimp only at h ⊢
  split at h
  next hmade =>
    rw [if_pos hmade]
    split at h
    · cases h
    · rfl
  next => cases h

variable (leaf) in
theorem above_payload_iff (hallowed : Allowed dst) (hwithin : trashLoc <+: dir) :
    dst <+: dir ++ [leaf] ↔ dst = volume := by
  have hpayload : trashLoc <+: dir ++ [leaf] := hwithin.trans (List.prefix_append _ _)
  constructor
  · exact eq_volume_of_above hallowed hpayload
  · rintro rfl
    exact (List.prefix_append volume [trashDirname]).trans hpayload

theorem not_above_info (hallowed : Allowed dst) (hne : dst ≠ volume) : ¬ dst <+: metaLoc shard id :=
  fun habove => hne (eq_volume_of_above hallowed (List.prefix_append _ _) habove)

theorem atomic_moveIn_iff (hbin : InBin t payload dir id) (haim : Aimed t target loc rest) :
    Atomic t overwrite (metaLoc shard id) (dir ++ [id]) (loc ++ rest)
        (moveIn faults locs data own id shard payload target relTarget t).status
        (moveIn faults locs data own id shard payload target relTarget t).tree ↔
      ((makeParents faults data t target).2 = true →
        if faults.rename = false ∧ loc ++ rest ≠ volume ∧
        t.Replaces locs (dir ++ [id]) (loc ++ rest) then
          (overwrite = true ∨ t.node (loc ++ rest) = none) ∧
            Tidy faults locs data own id shard payload target t
        else faults.chown = true ∨ ∀ n, t.node (loc ++ rest).dropLast = some n →
        own n.data = n.data) := by
  obtain ⟨hgrows, hdirs⟩ := haim.parents faults data
  obtain ⟨above, name, heq, hname⟩ := haim.eq_concat
  have hpath := haim.path
  have hallowed := haim.allowed
  rw [heq] at hgrows hdirs hpath hallowed ⊢
  have hout := not_trash_of_allowed hallowed
  have habove := above_payload_iff id hallowed hbin.within
  unfold moveIn Tidy
  dsimp only
  by_cases hmade : (makeParents faults data t target).2 = true
  · rw [if_pos hmade, List.dropLast_concat] at *
    have hdir := hdirs hmade
    have hprep := prepared_chownParent faults own hgrows hdir hpath hname
    obtain ⟨hlanded, hgoes⟩ := renamePayload_landed faults locs hbin hprep hpath
      hname hout
    rw [habove] at hgoes
    simp only [hmade, true_imp_iff]
    cases hmove : renamePayload faults locs payload target
        (chownParent faults own (makeParents faults data t target).1 target) with
    | none =>
      rw [hmove] at hgoes
      rw [if_neg (fun hcond => by simpa using hgoes.mpr hcond)]
      exact atomic_chownParent_iff hgrows hdir hpath hname hout
    | some moved =>
      rw [hmove] at hgoes
      have hcond := hgoes.mp rfl
      rw [if_pos hcond]
      have hdown : ¬ dir ++ [id] <+: above ++ [name] := fun hdown =>
        hout ((hbin.within.trans (List.prefix_append _ _)).trans hdown)
      simp only [Option.some.injEq, forall_eq']
      exact atomic_landed_iff (hlanded moved hmove) hdown (not_above_info hallowed hcond.2.1)
  · rw [if_neg hmade]
    simp only [hmade, Bool.false_eq_true, false_imp_iff, iff_true]
    exact atomic_of_grows hgrows (by simp)

theorem makeParents_of_dir (hpath : target = render (above ++ [name])) (hname : Plain name)
    (hdir : t.kind above = some .dir) : makeParents faults data t target =
    (t, faults.mkdir.isNone) := by
  have hplain : ∀ x ∈ above ++ [name], Plain x := by
    intro x hx
    rcases List.mem_append.mp hx with hx | hx
    · exact FsTree.plain_of_kind hdir x hx
    · exact List.mem_singleton.mp hx ▸ hname
  have hall : ∀ names, t.kind names = some .dir → mkdirs t data [] names = (t, true) :=
    fun _ => mkdirs_of_dir data
  unfold makeParents
  rw [hpath, parts_dirname hplain, List.dropLast_concat]
  cases faults.mkdir with
  | none => exact hall above hdir
  | some n =>
    have hkind : t.kind (above.take n) = some .dir := by
      by_cases hnil : above.drop n = []
      · rw [List.take_of_length_le (List.drop_eq_nil_iff.mp hnil)]
        exact hdir
      · rw [← List.take_append_drop n above] at hdir
        exact FsTree.kind_of_append hdir hnil
    dsimp only
    rw [hall _ hkind]
    rfl

theorem renamePayload_of_no_volume {t' : FsTree α} (hbin : InBin t payload dir leaf)
    (hgone : t'.kind volume = none) : renamePayload faults locs payload target t' = none := by
  obtain ⟨more, hmore⟩ := hbin.within
  have hentry : entryAt t' payload = none := by
    unfold entryAt
    rw [hbin.parts_path, List.dropLast_concat, ← hmore, trashLoc, volume, List.append_assoc,
      List.singleton_append, walk_plain_none (plain_volume _ List.mem_cons_self) hgone,
      if_neg (by simp)]
  unfold renamePayload renamePath
  rw [hentry]
  split <;> rfl

theorem node_remove_of_not_below {place : Loc} (h : ¬ dst <+: place) :
    (t.remove dst []).node place = t.node place := by
  have hstays : ¬ FsTree.removed dst [] place := fun hgone => h hgone.2.1
  rw [FsTree.node_remove, if_neg hstays]

/-- A payload beside the target is still there. -/
theorem InBin.remove (hbin : InBin t payload dir leaf) (hbeside : ¬ dst <+: dir ++ [leaf]) :
    InBin (t.remove dst []) payload dir leaf := by
  have hdir : ¬ dst <+: dir := fun h => hbeside (h.trans (List.prefix_append _ _))
  refine ⟨hbin.path, ?_, hbin.name, hbin.within, ?_⟩
  · rw [FsTree.kind_congr (node_remove_of_not_below hdir)]
    exact hbin.holder
  · rw [node_remove_of_not_below hbeside]
    exact hbin.there

theorem Landed.of_remove {moved : FsTree α} {src : Loc} (h : Landed (t.remove dst []) moved src dst)
    (hbeside : ¬ dst <+: src) (hdown : ¬ src <+: dst) : Landed t moved src dst := by
  constructor
  · intro rel
    have hrel : ¬ dst <+: src ++ rel := by
      intro hbegins
      rcases List.prefix_or_prefix_of_prefix hbegins (List.prefix_append src rel) with hup | hlow
      · exact hbeside hup
      · exact hdown hlow
    rw [h.placed rel, node_remove_of_not_below hrel]
  · exact h.gone
  · intro loc hbelow hout hthere
    apply h.kept loc hbelow hout
    rwa [node_remove_of_not_below hbelow]
  · intro loc hbelow hout hnone
    apply h.new loc hbelow hout
    rwa [node_remove_of_not_below hbelow]

theorem atomic_replace_iff (hbin : InBin t payload dir id) (haim : Aimed t target dst []) :
    Atomic t true (metaLoc shard id) (dir ++ [id]) dst
        (moveIn faults locs data own id shard payload target relTarget (removePath t [] target)).status
        (moveIn faults locs data own id shard payload target relTarget (removePath t [] target)).tree ↔
      dst ≠ volume ∧ faults.mkdir = none ∧ faults.rename = false ∧
        Tidy faults locs data own id shard payload target (removePath t [] target) := by
  obtain ⟨above, name, heq, hname⟩ := haim.eq_concat
  have hpath := haim.path
  have hallowed := haim.allowed
  have hthere : t.node dst ≠ none := by
    rcases haim.there with h | h
    · exact FsTree.node_ne_none h
    · exact FsTree.node_ne_none h
  rw [List.append_nil] at heq hpath hallowed
  have hout := not_trash_of_allowed hallowed
  have hdir : t.kind above = some .dir := by
    rcases haim.there with h | h
    · exact FsTree.kind_parent (heq ▸ h)
    · exact FsTree.kind_parent (heq ▸ h)
  have hremove : removePath t [] target = t.remove dst [] := by
    unfold removePath
    rw [hpath, heq, entryAt_render hdir hname]
  have hnotabove : ¬ dst <+: above := by
    intro hbegins
    have hlength := hbegins.length_le
    rw [heq, List.length_append, List.length_singleton] at hlength
    omega
  have hdir' : (t.remove dst []).kind above = some .dir := by
    rw [FsTree.kind_congr (node_remove_of_not_below hnotabove)]
    exact hdir
  have hlost : (t.remove dst []).node dst = none := by
    have hne : dst ≠ [] := by
      rw [heq]
      simp
    rw [FsTree.node_remove, if_pos ⟨hne, List.prefix_refl _, by simp⟩]
  have hpath' : target = render (above ++ [name]) := by rw [hpath, heq]
  have hmade : makeParents faults data (t.remove dst []) target =
    (t.remove dst [], faults.mkdir.isNone) :=
    makeParents_of_dir hpath' hname hdir'
  have hprep := prepared_chownParent faults own (.refl (t.remove dst []) above) hdir'
    hpath' hname
  have hdown : ¬ dir ++ [id] <+: dst := fun hdown =>
    hout ((hbin.within.trans (List.prefix_append _ _)).trans hdown)
  rw [hremove]
  unfold moveIn Tidy
  dsimp only
  rw [hmade]
  cases hmkdir : faults.mkdir with
  | some n =>
    simp only [Option.isNone_some, Bool.false_eq_true, if_false, reduceCtorEq, false_and, and_false,
      iff_false]
    exact not_atomic_of_lost (by simp) hthere hout hlost
  | none =>
    simp only [Option.isNone_none, if_true, true_and]
    have hgoes : dst ≠ volume →
        (∀ moved, renamePayload faults locs payload target
          (chownParent faults own (t.remove dst []) target) = some moved →
            Landed t moved (dir ++ [id]) dst) ∧
          ((renamePayload faults locs payload target
            (chownParent faults own (t.remove dst []) target)).isSome = true ↔
              faults.rename = false) := by
      intro hne
      have hbeside : ¬ dst <+: dir ++ [id] := fun h =>
        hne ((above_payload_iff _ hallowed hbin.within).mp h)
      obtain ⟨hlanded, hiff⟩ := renamePayload_landed faults locs
        (hbin.remove hbeside) hprep hpath' hname (heq ▸ hout)
      rw [← heq] at hlanded hiff
      have hfree : (t.remove dst []).Replaces locs (dir ++ [id]) dst := by
        unfold FsTree.Replaces
        rw [FsTree.kind_eq_none.mpr hlost]
        trivial
      refine ⟨fun moved hmove => (hlanded moved hmove).of_remove hbeside hdown, ?_⟩
      rw [hiff]
      exact and_iff_left ⟨hbeside, hfree⟩
    cases hmove : renamePayload faults locs payload target
        (chownParent faults own (t.remove dst []) target) with
    | none =>
      have hnot : ¬ (dst ≠ volume ∧ faults.rename = false) := by
        rintro ⟨hne, hrename⟩
        have hsome := (hgoes hne).2.mpr hrename
        rw [hmove] at hsome
        cases hsome
      constructor
      · intro hatomic
        exfalso
        apply not_atomic_of_lost (by simp) hthere hout _ hatomic
        rw [hprep.node_eq hnotabove, hlost]
      · rintro ⟨hne, hrename, -⟩
        exact absurd ⟨hne, hrename⟩ hnot
    | some moved =>
      have hne : dst ≠ volume := by
        rintro rfl
        rw [renamePayload_of_no_volume hbin] at hmove
        · cases hmove
        · exact FsTree.kind_eq_none.mpr (by rw [hprep.node_eq hnotabove, hlost])
      obtain ⟨hlanded, hiff⟩ := hgoes hne
      have hrename : faults.rename = false := hiff.mp (by rw [hmove]; rfl)
      simp only [Option.some.injEq, forall_eq', hne, hrename, ne_eq, not_false_eq_true, true_and]
      rw [atomic_landed_iff (hlanded moved hmove) hdown (not_above_info hallowed hne)]
      simp

end Moves

/-! ## Every restore -/

section Every

variable {t : FsTree α} {faults : Faults} {derived : Option Text} {shards : List Text}
  {info : Text → Recorded} {opts : RestoreOptions} {id error : Text} {status : ℕ}

theorem freeName_error {relTarget : Text} {more n : ℕ} {e : ℕ × String}
    (h : freeName t faults relTarget more n = .error e) : e.1 ≠ 200 := by
  induction more generalizing n with
  | zero =>
    cases h
    simp
  | succ more ih =>
    unfold freeName at h
    split at h
    · cases h
      simp
    · split at h
      · exact ih h
      · cases h

theorem planRestore_refuse {error : String}
    (h : planRestore t faults derived shards info opts id = .refuse status error) : status ≠ 200 := by
  unfold planRestore at h
  split at h
  · cases h
    simp
  split at h
  · cases h
    simp
  split at h
  · cases h
    simp
  split at h
  · cases h
    simp
  split at h
  · cases h
    simp
  split at h
  · split at h
    · cases h
    split at h
    · split at h
      next hfree =>
        cases h
        exact freeName_error hfree
      next => cases h
    · cases h
      simp
  · cases h

/-- A restore that is refused changes nothing. -/
theorem allOrNothing_refuse (h : status ≠ 200) :
    AllOrNothing t faults derived shards info opts id ⟨some status, [], t⟩ := by
  have hstatus : (some status : Option ℕ) ≠ some 200 := fun heq => h (Option.some.inj heq)
  constructor
  · exact fun hdone => absurd hdone hstatus
  · exact fun _ _ _ _ => rfl
  · exact fun _ _ _ hnone hsome => absurd hnone hsome
  · exact fun _ _ hthere _ _ => ⟨hthere, fun hdone => absurd hdone hstatus⟩
  · exact fun _ _ hthere _ _ _ => hthere

/-- Whatever the volume holds, whatever the metadata says and whichever calls fail. -/
theorem restore_allOrNothing_iff (v : Volume α) (faults : Faults) (data : α) (own : α → α)
    (derived : Option Text) (shards : List Text) (info : Text → Recorded) (opts : RestoreOptions)
    (id : Text) : AllOrNothing v.tree faults derived shards info opts id
        (restoreFromTrash faults v.locs data own derived shards info opts id v.tree) ↔
      Unbroken faults v.locs data own opts id v.tree
        (planRestore v.tree faults derived shards info opts id) := by
  cases hplan : planRestore v.tree faults derived shards info opts id with
  | refuse status error =>
    unfold restoreFromTrash
    rw [hplan]
    exact iff_of_true (allOrNothing_refuse (planRestore_refuse hplan)) trivial
  | go shard payload target relTarget replace =>
    obtain ⟨hfound, hsafe, hreplace⟩ := planRestore_go hplan
    obtain ⟨dir, hbin⟩ := inBin_of_locate hfound
    obtain ⟨loc, rest, haim⟩ := aimed_of_safePath hsafe
    have hsrc := hbin.parts_path
    have hdst := haim.parts_path
    cases replace with
    | false =>
      have hrun : restoreFromTrash faults v.locs data own derived shards info opts id v.tree =
          moveIn faults v.locs data own id shard payload target relTarget v.tree := by
        unfold restoreFromTrash
        rw [hplan]
        exact if_neg (by simp)
      rw [hrun, allOrNothing_iff hplan restoredTo_moveIn, hsrc, hdst, atomic_moveIn_iff hbin haim]
      unfold Unbroken
      dsimp only
      rw [hsrc, hdst]
    | true =>
      obtain ⟨hover, hstands⟩ := hreplace rfl
      have hrest := haim.rest_eq_nil hstands
      subst hrest
      rw [List.append_nil] at hdst
      cases hfault : faults.rm with
      | none =>
        have hrun : restoreFromTrash faults v.locs data own derived shards info opts id v.tree =
            moveIn faults v.locs data own id shard payload target relTarget
              (removePath v.tree [] target) := by
          unfold restoreFromTrash
          rw [hplan, hfault]
          exact if_pos rfl
        rw [hrun, allOrNothing_iff hplan restoredTo_moveIn, hsrc, hdst, hover,
          atomic_replace_iff hbin haim]
        unfold Unbroken
        dsimp only
        rw [hfault, hdst]
      | some kept =>
        have hrun : restoreFromTrash faults v.locs data own derived shards info opts id v.tree =
            ⟨none, [], removePath v.tree kept target⟩ := by
          unfold restoreFromTrash
          rw [hplan, hfault]
          exact if_pos rfl
        have hremove : removePath v.tree kept target = v.tree.remove loc kept := by
          obtain ⟨above, name, heq, hname⟩ := haim.eq_concat
          have hpath := haim.path
          rw [List.append_nil] at heq hpath
          have hdir : v.tree.kind above = some .dir := by
            rcases haim.there with h | h
            · exact FsTree.kind_parent (heq ▸ h)
            · exact FsTree.kind_parent (heq ▸ h)
          unfold removePath
          rw [hpath, heq, entryAt_render hdir hname]
        rw [hrun, allOrNothing_iff hplan (fun h => by cases h), hsrc, hdst, hover, hremove,
          atomic_remove_iff]
        unfold Unbroken
        dsimp only
        rw [hfault, hsrc, hdst]

end Every

/-! ## A recorded path that is the volume -/

def shardOfToday : Text := "2026-01-01".toList

def binned : Text := "x".toList

def binnedVolume : Volume Unit :=
  Volume.ofEntries [([], ⟨.dir, ()⟩), (volume, ⟨.dir, ()⟩), (trashLoc, ⟨.dir, ()⟩),
    (trashLoc ++ [filesDirname], ⟨.dir, ()⟩), (trashLoc ++ [filesDirname, shardOfToday], ⟨.dir, ()⟩),
    (trashLoc ++ [filesDirname, shardOfToday, binned], ⟨.file, ()⟩),
    (volume ++ ["index.html".toList], ⟨.file, ()⟩)]
    (by decide) (by decide) (by decide)

def noFaults : Faults where
  realpath _ := false
  lstat _ := false
  stat _ := false
  rm := none
  mkdir := none
  chown := false
  rename := false
  unlink := false

def emptied : Restored Unit :=
  restoreFromTrash noFaults binnedVolume.locs () id none [shardOfToday] (fun _ => .text ['.'])
    ⟨true, false⟩ binned binnedVolume.tree

theorem restore_loses_payload :
    ¬ AllOrNothing binnedVolume.tree noFaults none [shardOfToday] (fun _ => .text ['.']) ⟨true, false⟩
      binned emptied := by
  have hfound : locate binnedVolume.tree noFaults none [shardOfToday] binned =
      some (shardOfToday, render (trashLoc ++ [filesDirname, shardOfToday, binned])) := by
    decide +kernel
  have hstatus : emptied.status = none := by decide +kernel
  have hlost : (emptied.tree.node (trashLoc ++ [filesDirname, shardOfToday, binned])).isNone =
    true := by
    decide +kernel
  have hthere : (binnedVolume.tree.node (trashLoc ++ [filesDirname, shardOfToday, binned])).isSome =
    true := by
    rfl
  intro hatomic
  have hnode := FsTree.isSome_node.mp hthere
  have hparts := parts_render (binnedVolume.tree.plain _ hnode)
  have hsame := hatomic.undone (by simp [hstatus]) _ hnode
    (.inl ⟨_, _, hfound, hparts.symm ▸ List.prefix_refl _⟩)
  rw [Option.isNone_iff_eq_none.mp hlost] at hsame
  rw [← hsame] at hthere
  cases hthere

end Insula.FileManager
