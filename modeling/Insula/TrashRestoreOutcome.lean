import Insula.TrashRestore

/-!
# What a restore leaves behind

A payload that is restored stands at its target, and one that is not restored stays in the bin. A
restore that replaces removes the target first and loses it when a later call fails; a target that
the test for it does not see is replaced by the move; and the metadata is removed along a path that
may lead through links.
-/

namespace Insula.FileManager

open Paths FileTree

variable {α : Type}

def trashLoc : Loc := volume ++ [trashDirname]

def metaLoc (shard id : Text) : Loc := trashLoc ++ [infoDirname, shard, id ++ ".json".toList]

/-! ## Paths in the bin -/

section Bin

theorem plain_trashLoc : ∀ x ∈ trashLoc, Plain x := by decide

theorem trashRoot_eq : trashRoot = render trashLoc := by rfl

variable {loc : Loc}

theorem isInsideTrash_render (h : ∀ x ∈ loc, Plain x) :
    isInsideTrash (render loc) = true ↔ trashLoc <+: loc := by
  unfold isInsideTrash
  rw [Bool.or_eq_true, decide_eq_true_eq, List.isPrefixOf_iff_prefix, trashRoot_eq]
  have hsplit : ∀ rest : Text, (render trashLoc ++ ['/'] ++ rest).splitOn '/' =
      [] :: trashLoc ++ rest.splitOn '/' := by
    intro rest
    rw [List.append_assoc, List.singleton_append, List.splitOn_append_cons_self,
      splitOn_render plain_trashLoc (by decide)]
  constructor
  · rintro (heq | ⟨rest, hrest⟩)
    · have hloc : loc = trashLoc := by rw [← parts_render h, heq, parts_render plain_trashLoc]
      exact hloc ▸ List.prefix_refl _
    · have hparts := congrArg (List.splitOn '/') hrest
      have hne : loc ≠ [] := by
        rintro rfl
        rw [hsplit, show (render []).splitOn '/' = [[], []] by decide, List.cons_append,
          List.cons.injEq] at hparts
        have hhead := congrArg List.head? hparts.2
        simp [trashLoc, volume] at hhead
      rw [hsplit, splitOn_render h hne, List.cons_append, List.cons.injEq] at hparts
      exact ⟨_, hparts.2⟩
  · rintro ⟨below, rfl⟩
    by_cases hne : below = []
    · subst hne
      exact .inl (by rw [List.append_nil])
    · refine .inr ⟨['/'].intercalate below, ?_⟩
      rw [render_append (by decide) hne, List.append_assoc]
      rfl

theorem not_trash_of_allowed (h : Allowed loc) : ¬ trashLoc <+: loc := by
  obtain ⟨below, rfl, hhidden⟩ := h
  rintro ⟨rest, hrest⟩
  rw [trashLoc, List.append_assoc, List.append_right_inj] at hrest
  exact hhidden (.inr (by rw [← hrest]; rfl))

theorem eq_volume_of_above {below : Loc} (h : Allowed loc) (hbelow : trashLoc <+: below)
    (habove : loc <+: below) : loc = volume := by
  rcases List.prefix_or_prefix_of_prefix habove hbelow with hup | hdown
  · obtain ⟨rest, rfl, hhidden⟩ := h
    rw [trashLoc, List.prefix_append_right_inj] at hup
    cases rest with
    | nil => exact List.append_nil _
    | cons name rest =>
      obtain ⟨hname, -⟩ := List.cons_prefix_cons.mp hup
      exact absurd (.inr (by rw [hname]; rfl)) hhidden
  · exact absurd hdown (not_trash_of_allowed h)

end Bin

/-! ## What is found -/

section Found

variable {t : FsTree α} {faults : Faults} {payload leaf : Text}

/-- The payload stands in a directory of the bin that is reached without a link. -/
structure InBin (t : FsTree α) (payload : Text) (dir : Loc) (leaf : Text) : Prop where
  path : payload = render (dir ++ [leaf])
  holder : t.kind dir = some .dir
  name : Plain leaf
  within : trashLoc <+: dir
  there : t.node (dir ++ [leaf]) ≠ none

theorem InBin.plain {dir : Loc} (h : InBin t payload dir leaf) :
    ∀ x ∈ dir ++ [leaf], Plain x := t.plain _ h.there

theorem InBin.parts_path {dir : Loc} (h : InBin t payload dir leaf) :
    parts payload = dir ++ [leaf] := by
  rw [h.path, parts_render h.plain]

/-- Behind the part that exists a walk finds no directory. -/
theorem walk_missing_ne_found {loc rest : Loc} {name : Text} (hdir : t.kind loc = some .dir)
    (hmissing : (∃ dir new, walk t maxLinks loc [name] = .missing dir new) ∨
      walk t maxLinks loc [name] = .fails .noEnt) :
    ∀ place, walk t maxLinks [] (loc ++ name :: rest) ≠ .found place := by
  intro place hfound
  obtain ⟨m, -, hgo⟩ := walk_append (n := maxLinks) hdir [name]
  have hdirs := walk_dirs maxLinks [] loc (name :: rest) hdir
  rw [hdirs, List.nil_append, show name :: rest = [name] ++ rest from rfl, hgo] at hfound
  rcases hmissing with ⟨dir, new, hwalk⟩ | hwalk
  · rw [hwalk, goOn] at hfound
    split at hfound <;> cases hfound
  · rw [hwalk, goOn] at hfound
    cases hfound

theorem plain_of_not_badName (h : badName leaf = false) : Plain leaf := by
  simp only [badName, Bool.or_eq_false_iff, decide_eq_false_iff_not] at h
  obtain ⟨⟨⟨⟨hempty, hslash⟩, -⟩, hdot⟩, hdots⟩ := h
  exact ⟨hempty, hdot, hdots, hslash⟩

theorem inBin_of_entryPath {root shard : Text}
    (hpath : entryPath t faults root shard leaf = some payload)
    (hthere : lstat t faults payload = true) : ∃ dir, InBin t payload dir leaf := by
  unfold entryPath at hpath
  split at hpath
  · cases hpath
  next hgood =>
  obtain ⟨hleaf, -⟩ := Bool.or_eq_false_iff.mp (Bool.not_eq_true _ ▸ hgood)
  have hplain := plain_of_not_badName hleaf
  cases hconfined : confined t faults (join root [shard]) with
  | none =>
    rw [hconfined] at hpath
    cases hpath
  | some shardDir =>
  rw [hconfined] at hpath
  dsimp only at hpath
  split at hpath
  next hinside =>
    cases hpath
    unfold confined at hconfined
    split at hconfined
    · cases hconfined
    have hparts : ∀ x ∈ (parts (join root [shard])).reverse.reverse ++ [], Plain x := by
      simpa using plain_of_mem_parts (join root [shard])
    obtain ⟨init, loc, rest, hsplit, rfl⟩ := confineFrom_eq_some hparts (by simp) hconfined
    rw [List.append_nil, List.reverse_reverse] at hsplit hparts
    have hinit : ∀ x ∈ init ++ rest, Plain x := hsplit.split ▸ hparts
    have hloc := plain_of_there hsplit.there
    have hall : ∀ x ∈ loc ++ rest, Plain x := by
      intro x hx
      rcases List.mem_append.mp hx with hx | hx
      · exact hloc x hx
      · exact hinit x (List.mem_append_right _ hx)
    have hfull : ∀ x ∈ loc ++ rest ++ [leaf], Plain x := by
      intro x hx
      rcases List.mem_append.mp hx with hx | hx
      · exact hall x hx
      · exact List.mem_singleton.mp hx ▸ hplain
    have hjoin : join (render (loc ++ rest)) [leaf] = render (loc ++ rest ++ [leaf]) :=
      join_render hall (fun x hx => List.mem_singleton.mp hx ▸ hplain) (by simp)
    rw [hjoin] at hthere ⊢
    unfold lstat entryAt at hthere
    rw [parts_render hfull, List.dropLast_concat, List.getLast?_concat, Bool.and_eq_true] at hthere
    replace hthere := hthere.2
    cases rest with
    | cons name rest =>
      obtain ⟨hdir, hends⟩ := walk_missing hsplit.found
        (fun x hx => hinit x (by simp at hx ⊢; tauto)) (hsplit.missing name rfl)
      split at hthere
      next place hfound => exact absurd hfound (walk_missing_ne_found hdir hends place)
      next => cases hthere
    | nil =>
      rw [List.append_nil] at hthere hinside ⊢
      rw [walk_self hsplit.there] at hthere
      dsimp only at hthere
      split at hthere
      next hdir =>
        refine ⟨loc, rfl, hdir, hplain, (isInsideTrash_render hloc).mp hinside, ?_⟩
        exact FsTree.isSome_node.mp hthere
      next => cases hthere
  next => cases hpath

theorem inBin_of_locate {derived : Option Text} {shards : List Text} {id shard : Text}
    (h : locate t faults derived shards id = some (shard, payload)) :
    ∃ dir, InBin t payload dir id := by
  unfold locate at h
  split at h
  · cases h
  obtain ⟨candidate, -, hcandidate⟩ := List.exists_of_findSome?_eq_some h
  cases hpath : entryPath t faults filesRoot candidate id with
  | none =>
    rw [hpath] at hcandidate
    cases hcandidate
  | some path =>
    rw [hpath] at hcandidate
    dsimp only at hcandidate
    split at hcandidate
    next hthere =>
      cases hcandidate
      exact inBin_of_entryPath hpath hthere
    next => cases hcandidate

end Found

/-! ## What is aimed at -/

section Aimed

variable {t : FsTree α} {faults : Faults} {data : α} {target : Text} {loc rest : Loc}

/-- The part of a target that exists, and the names behind it. -/
structure Aimed (t : FsTree α) (target : Text) (loc rest : Loc) : Prop where
  path : target = render (loc ++ rest)
  there : t.kind loc = some .dir ∨ t.kind loc = some .file
  plain : ∀ x ∈ loc ++ rest, Plain x
  allowed : Allowed (loc ++ rest)
  ends : ∀ name ∈ rest.head?, t.kind loc = some .dir ∧
    ((∃ dir new, walk t maxLinks loc [name] = .missing dir new) ∨
      walk t maxLinks loc [name] = .fails .noEnt)

theorem aimed_of_safePath {userPath : Text} (h : safePath t userPath = some target) :
    ∃ loc rest, Aimed t target loc rest := by
  obtain ⟨-, init, loc, rest, hsplit, rfl, hplain, hallowed⟩ := safePath_eq_some h
  have hinit : ∀ x ∈ init ++ rest, Plain x := hsplit.split ▸ plain_resolved userPath
  refine ⟨loc, rest, rfl, hsplit.there, hplain, hallowed, ?_⟩
  intro name hname
  obtain ⟨tail, rfl⟩ : ∃ tail, rest = name :: tail := by
    cases rest with
    | nil => cases hname
    | cons first tail =>
      cases hname
      exact ⟨tail, rfl⟩
  exact walk_missing hsplit.found (fun x hx => hinit x (by simp at hx ⊢; tauto))
    (hsplit.missing name rfl)

theorem Aimed.parts_path (h : Aimed t target loc rest) : parts target = loc ++ rest := by
  rw [h.path, parts_render h.plain]

theorem Aimed.eq_concat (h : Aimed t target loc rest) :
    ∃ above name, loc ++ rest = above ++ [name] ∧ Plain name := by
  have hne : loc ++ rest ≠ [] := by
    obtain ⟨below, heq, -⟩ := h.allowed
    rw [heq]
    simp [volume]
  refine ⟨(loc ++ rest).dropLast, (loc ++ rest).getLast hne,
    (List.dropLast_append_getLast hne).symm, ?_⟩
  exact h.plain _ (List.getLast_mem hne)

theorem Aimed.rest_eq_nil (h : Aimed t target loc rest) (hstands : stands t target = true) :
    rest = [] := by
  cases rest with
  | nil => rfl
  | cons name rest =>
    exfalso
    unfold stands at hstands
    obtain ⟨hdir, hends⟩ := h.ends name rfl
    cases hreal : realpath t target with
    | error e =>
      rw [hreal] at hstands
      cases hstands
    | ok real =>
      obtain ⟨place, hfound, -⟩ := realpath_eq_ok hreal
      rw [h.path, resolve_render h.plain] at hfound
      exact walk_missing_ne_found hdir hends place hfound

/-- A directory is not made where a link leads nowhere. -/
theorem makeDir_dangling {name link : Text} (hdir : t.kind loc = some .dir)
    (hlink : t.kind (loc ++ [name]) = some (.link link))
    (hends : (∃ dir new, walk t maxLinks loc [name] = .missing dir new) ∨
      walk t maxLinks loc [name] = .fails .noEnt) : makeDir t data loc name = none := by
  have hnew : ¬(t.kind loc = some .dir ∧ t.node (loc ++ [name]) = none ∧ Plain name) := by
    rintro ⟨-, hnode, -⟩
    rw [FsTree.kind, hnode] at hlink
    cases hlink
  have hwalk := walk_dirs maxLinks [] loc [name] hdir
  unfold makeDir
  rw [walk_self (.inl hdir)]
  simp only [dif_neg hnew]
  rw [hwalk, List.nil_append]
  rcases hends with ⟨dir, new, hends⟩ | hends
  · rw [hends]
  · rw [hends]

variable (data) in
/-- The way to a target: a directory that exists, and names of which the first is new or cannot be
made. -/
theorem Aimed.way (h : Aimed t target loc rest) :
    ∃ dir names, (loc ++ rest).dropLast = dir ++ names ∧ t.kind dir = some .dir ∧
      (∀ x ∈ names, Plain x) ∧
      ∀ name ∈ names.head?, t.node (dir ++ [name]) = none ∨ makeDir t data dir name = none := by
  by_cases hrest : rest = []
  · subst hrest
    refine ⟨loc.dropLast, [], by simp, ?_, by simp, by simp⟩
    rcases h.there with hdir | hfile
    · exact FsTree.kind_dropLast hdir
    · obtain ⟨above, name, heq, -⟩ := h.eq_concat
      rw [List.append_nil] at heq
      rw [heq] at hfile ⊢
      rw [List.dropLast_concat]
      exact FsTree.kind_parent hfile
  · obtain ⟨name, tail, rfl⟩ := List.exists_cons_of_ne_nil hrest
    obtain ⟨hdir, hends⟩ := h.ends name rfl
    refine ⟨loc, (name :: tail).dropLast, List.dropLast_append_of_ne_nil hrest, hdir, ?_, ?_⟩
    · intro x hx
      exact h.plain x (List.mem_append_right _ (List.dropLast_subset _ hx))
    · intro first hfirst
      have hname : first = name := by
        cases tail with
        | nil => cases hfirst
        | cons second tail =>
          cases hfirst
          rfl
      subst hname
      rcases kind_missing (h.plain first (by simp)) hends with hnone | ⟨link, hlink⟩
      · exact .inl (FsTree.kind_eq_none.mp hnone)
      · exact .inr (makeDir_dangling hdir hlink hends)

variable (faults data) in
/-- Whatever fails, the directories above a target are made and nothing else. -/
theorem Aimed.parents (h : Aimed t target loc rest) :
    Grows t (makeParents faults data t target).1 (loc ++ rest).dropLast ∧
      ((makeParents faults data t target).2 = true →
        (makeParents faults data t target).1.kind (loc ++ rest).dropLast = some .dir) := by
  obtain ⟨dir, names, hway, hdir, hplain, hfirst⟩ := h.way data
  have hnames : parts (dirname target) = (loc ++ rest).dropLast := by
    rw [h.path, parts_dirname h.plain]
  unfold makeParents
  rw [hnames, hway]
  cases faults.mkdir with
  | none => exact mkdirs_way hdir hplain hfirst (List.prefix_refl _)
  | some n =>
    have htake := List.take_prefix n (dir ++ names)
    exact ⟨(mkdirs_way hdir hplain hfirst htake).1.mono htake, fun hno => by cases hno⟩

end Aimed

/-! ## What is planned -/

section Planned

variable {t : FsTree α} {faults : Faults} {derived : Option Text} {shards : List Text}
  {info : Text → Recorded} {opts : RestoreOptions} {id shard payload target relTarget path : Text}
  {replace : Bool}

theorem safePath_of_safeTarget (h : safeTarget t faults path = some target) :
    safePath t path = some target := by
  unfold safeTarget at h
  split at h
  · cases h
  · exact h

theorem safePath_of_freeName {more n : ℕ}
    (h : freeName t faults path more n = .ok (target, relTarget)) :
    safePath t relTarget = some target := by
  induction more generalizing n with
  | zero => cases h
  | succ more ih =>
    unfold freeName at h
    cases hcandidate : safeTarget t faults (suffixName path n) with
    | none =>
      rw [hcandidate] at h
      cases h
    | some candidate =>
      rw [hcandidate] at h
      dsimp only at h
      split at h
      · exact ih h
      · cases h
        exact safePath_of_safeTarget hcandidate

theorem stands_of_stat (h : stat t faults path = true) : stands t path = true :=
  (Bool.and_eq_true _ _ ▸ h).2

theorem planRestore_go
    (h : planRestore t faults derived shards info opts id =
      .go shard payload target relTarget replace) :
    locate t faults derived shards id = some (shard, payload) ∧ safePath t relTarget = some target ∧
      (replace = true → opts.overwrite = true ∧ stands t target = true) := by
  unfold planRestore at h
  cases hfound : locate t faults derived shards id with
  | none =>
    rw [hfound] at h
    cases h
  | some found =>
  rw [hfound] at h
  dsimp only at h
  cases hpath : requested id (info found.1) with
  | none =>
    rw [hpath] at h
    cases h
  | some path =>
  rw [hpath] at h
  dsimp only at h
  split at h
  · cases h
  cases hsafe : safeTarget t faults path with
  | none =>
    rw [hsafe] at h
    cases h
  | some full =>
  have htarget := safePath_of_safeTarget hsafe
  rw [hsafe] at h
  dsimp only at h
  split at h
  · cases h
  split at h
  next hstat =>
    split at h
    next hover =>
      cases h
      exact ⟨rfl, htarget, fun _ => ⟨hover, stands_of_stat hstat⟩⟩
    next =>
      split at h
      next =>
        cases hfree : freeName t faults path 50 1 with
        | error e =>
          rw [hfree] at h
          cases h
        | ok free =>
          rw [hfree] at h
          cases h
          exact ⟨rfl, safePath_of_freeName hfree, fun hno => by cases hno⟩
      next => cases h
  next =>
    cases h
    exact ⟨rfl, htarget, fun hno => by cases hno⟩

end Planned

end Insula.FileManager
