import Insula.FilePaths

/-!
# Where a confined path leads

The part of a path that exists is replaced by its real path, so no link is left on it. The rest is
taken not to exist, and its first name may still be that of a link whose target does not exist.
-/

namespace Insula.FileManager

open Paths FileTree

section Confined

variable {α : Type} {t : FsTree α} {data : α} {loc rest : Loc} {name : Text}

/-- The names of a path are those of a part that exists, at `loc`, and the names behind it. -/
structure Confines (t : FsTree α) (names init loc rest : Loc) : Prop where
  split : names = init ++ rest
  found : resolve t (render init) = .found loc
  there : t.kind loc = some .dir ∨ t.kind loc = some .file
  within : volume <+: loc
  missing : ∀ name ∈ rest.head?, realpath t (render (init ++ [name])) = .error .noEnt

theorem join_render (hloc : ∀ x ∈ loc, Plain x) (hrest : ∀ x ∈ rest, Plain x) (hne : rest ≠ []) :
    join (render loc) rest = render (loc ++ rest) := by
  rw [join, clean, parts_append_slash, parts_render hloc,
    List.splitOn_intercalate '/' (fun x hx => (hrest x hx).slash) hne, foldl_enter_plain hrest]

theorem plain_of_there (h : t.kind loc = some .dir ∨ t.kind loc = some .file) :
    ∀ x ∈ loc, Plain x := by
  rcases h with h | h
  · exact FsTree.plain_of_kind h
  · exact FsTree.plain_of_kind h

section Loop

variable {up suffix : List Text} {full real : Text}

theorem confineFrom_of_ok (hreal : realpath t (render up.reverse) = .ok real) :
    confineFrom t up suffix =
      if ¬withinBase real then none else some (if suffix ≠ [] then join real suffix else real) := by
  rw [confineFrom.eq_def]
  dsimp only
  rw [hreal]

theorem confineFrom_of_error {e : Errno} (hreal : realpath t (render up.reverse) = .error e)
    (h : confineFrom t up suffix = some full) : e = .noEnt ∧ ∃ name above, up = name :: above ∧
      confineFrom t above (name :: suffix) = some full := by
  rw [confineFrom.eq_def] at h
  dsimp only at h
  rw [hreal] at h
  dsimp only at h
  split at h
  · cases h
  · next he =>
    refine ⟨not_not.mp he, ?_⟩
    cases up with
    | nil => cases h
    | cons name above =>
      dsimp only at h
      split at h
      · cases h
      · exact ⟨name, above, rfl, h⟩

theorem confines_of_ok (hplain : ∀ x ∈ suffix, Plain x)
    (hsuffix : ∀ name ∈ suffix.head?, realpath t (render (up.reverse ++ [name])) = .error .noEnt)
    (hreal : realpath t (render up.reverse) = .ok real) (h : confineFrom t up suffix = some full) :
    ∃ init loc rest, Confines t (up.reverse ++ suffix) init loc rest ∧
      full = render (loc ++ rest) := by
  obtain ⟨loc, hfound, rfl, hthere⟩ := realpath_eq_ok hreal
  rw [confineFrom_of_ok hreal] at h
  obtain ⟨hwithin, h⟩ := Option.ite_none_left_eq_some.mp h
  have hloc := plain_of_there hthere
  refine ⟨up.reverse, loc, suffix, ⟨rfl, hfound, hthere, ?_, hsuffix⟩, ?_⟩
  · exact (withinBase_render hloc).mp (not_not.mp hwithin)
  · cases h
    split
    · next hne => exact join_render hloc hplain hne
    · next hnil => rw [not_not.mp hnil, List.append_nil]

theorem confineFrom_eq_some (hplain : ∀ x ∈ up.reverse ++ suffix, Plain x)
    (hsuffix : ∀ name ∈ suffix.head?, realpath t (render (up.reverse ++ [name])) = .error .noEnt)
    (h : confineFrom t up suffix = some full) :
    ∃ init loc rest, Confines t (up.reverse ++ suffix) init loc rest ∧
      full = render (loc ++ rest) := by
  induction up generalizing suffix with
  | nil =>
    cases hreal : realpath t (render [].reverse) with
    | error e =>
      obtain ⟨-, name, above, hnil, -⟩ := confineFrom_of_error hreal h
      cases hnil
    | ok real => exact confines_of_ok hplain hsuffix hreal h
  | cons name up ih =>
    cases hreal : realpath t (render (name :: up).reverse) with
    | error e =>
      obtain ⟨rfl, name', above, heq, hnext⟩ := confineFrom_of_error hreal h
      cases heq
      have hassoc : (name :: up).reverse ++ suffix = up.reverse ++ name :: suffix := by simp
      rw [hassoc] at hplain ⊢
      apply ih hplain _ hnext
      intro first hfirst
      cases hfirst
      simpa using hreal
    | ok real =>
      exact confines_of_ok (fun x hx => hplain x (List.mem_append_right _ hx)) hsuffix
        hreal h

end Loop

/-! ## What an accepted path is -/

variable {userPath full : Text}

theorem plain_resolved (userPath : Text) : ∀ x ∈ parts (resolved userPath), Plain x :=
  plain_of_mem_parts _

/-- An accepted path has a real part, and it is allowed by name. -/
theorem safePath_eq_some (h : safePath t userPath = some full) :
    confineFrom t (parts (resolved userPath)).reverse [] = some full ∧
    ∃ init loc rest, Confines t (parts (resolved userPath)) init loc rest ∧
      full = render (loc ++ rest) ∧ (∀ x ∈ loc ++ rest, Plain x) ∧ Allowed (loc ++ rest) := by
  unfold safePath at h
  dsimp only at h
  obtain ⟨-, h⟩ := Option.ite_none_left_eq_some.mp h
  obtain ⟨-, h⟩ := Option.ite_none_left_eq_some.mp h
  cases hconfined : confineRealpath t (resolved userPath) with
  | none =>
    rw [hconfined] at h
    cases h
  | some confined =>
    rw [hconfined] at h
    obtain ⟨hhidden, h⟩ := Option.ite_none_left_eq_some.mp h
    cases h
    unfold confineRealpath at hconfined
    refine ⟨hconfined, ?_⟩
    have hplain : ∀ x ∈ (parts (resolved userPath)).reverse.reverse ++ [], Plain x := by
      simpa using plain_resolved userPath
    obtain ⟨init, loc, rest, hsplit, rfl⟩ := confineFrom_eq_some hplain (by simp) hconfined
    rw [List.reverse_reverse, List.append_nil] at hsplit
    have hall : ∀ x ∈ loc ++ rest, Plain x := by
      intro x hx
      rcases List.mem_append.mp hx with hx | hx
      · exact plain_of_there hsplit.there x hx
      · exact plain_resolved userPath x (hsplit.split ▸ List.mem_append_right _ hx)
    refine ⟨init, loc, rest, hsplit, rfl, hall, ?_⟩
    obtain ⟨below, rfl⟩ := hsplit.within
    refine ⟨below ++ rest, List.append_assoc .., ?_⟩
    rw [List.append_assoc] at hhidden hall
    rwa [isHidden_iff (fun x hx => hall x (List.mem_append_right _ hx))] at hhidden

/-- The last name of a path is that of a link to a place that does not exist, and that is not
allowed. -/
def LeadsOut (t : FsTree α) (userPath : Text) : Prop :=
  ∃ init name dir target above new, parts (resolved userPath) = init ++ [name] ∧
    resolve t (render init) = .found dir ∧ t.kind (dir ++ [name]) = some (.link target) ∧
    walk t maxLinks dir [name] = .missing above new ∧ ¬Allowed (above ++ [new])

theorem realpath_noEnt {path : Text} (h : realpath t path = .error .noEnt) :
    (∃ dir name, resolve t path = .missing dir name) ∨ resolve t path = .fails .noEnt := by
  unfold realpath at h
  split at h
  · cases h
  · cases hwalk : resolve t path with
    | found loc =>
      rw [hwalk] at h
      cases h
    | missing dir name => exact .inl ⟨dir, name, rfl⟩
    | fails e =>
      rw [hwalk] at h
      cases h
      exact .inr rfl

/-- A walk from the real part goes as it went along the path, with fewer links behind it. -/
theorem walk_missing {init : Loc} (hfound : resolve t (render init) = .found loc)
    (hinit : ∀ x ∈ init ++ [name], Plain x)
    (hmissing : realpath t (render (init ++ [name])) = .error .noEnt) :
    t.kind loc = some .dir ∧ ((∃ dir new, walk t maxLinks loc [name] = .missing dir new) ∨
      walk t maxLinks loc [name] = .fails .noEnt) := by
  rw [resolve_render (fun x hx => hinit x (List.mem_append_left _ hx))] at hfound
  obtain ⟨m, hm, hgo⟩ := walk_append (n := maxLinks) t.root init
  have hends := realpath_noEnt hmissing
  rw [resolve_render hinit, hgo, hfound, goOn] at hends
  by_cases hdir : t.kind loc = some .dir
  · rw [if_pos (.inl hdir)] at hends
    have hno : walk t m loc [name] ≠ .fails .loop := by
      intro hloop
      rw [hloop] at hends
      simp at hends
    rw [walk_mono hm _ _ hno]
    exact ⟨hdir, hends⟩
  · simp [hdir] at hends

/-- The first name that is missing is not there, or that of a link that leads nowhere. -/
theorem kind_missing (hplain : Plain name)
    (h : (∃ dir new, walk t maxLinks loc [name] = .missing dir new) ∨
      walk t maxLinks loc [name] = .fails .noEnt) :
    t.kind (loc ++ [name]) = none ∨ ∃ target, t.kind (loc ++ [name]) = some (.link target) := by
  cases hkind : t.kind (loc ++ [name]) with
  | none => exact .inl rfl
  | some kind =>
    obtain ⟨follow, hwalk⟩ := walk_eq_walkWith (t := t) maxLinks
    rw [hwalk, walkWith_plain hplain, hkind] at h
    cases kind with
    | dir => simp [walkWith] at h
    | file => simp at h
    | link target => exact .inr ⟨target, rfl⟩

theorem resolve_real (hdir : t.kind loc = some .dir) (hplain : ∀ x ∈ loc ++ rest, Plain x) :
    resolve t (render (loc ++ rest)) = walk t maxLinks loc rest := by
  rw [resolve_render hplain]
  have hdirs := walk_dirs maxLinks [] loc rest hdir
  simpa using hdirs

theorem parts_dirname (hplain : ∀ x ∈ loc, Plain x) :
    parts (dirname (render loc)) = loc.dropLast := by
  rw [dirname, parts_render hplain,
    parts_render (fun x hx => hplain x (List.dropLast_subset _ hx))]

/-- Where the directory of a path exists, a write lands where the path leads. -/
theorem written_of_dir (hplain : ∀ x ∈ loc, Plain x) (hdir : t.kind loc.dropLast = some .dir) :
    written t data (render loc) = opened t (render loc) := by
  have hdirs := makeDirs_dirs data [] loc.dropLast hdir []
  rw [List.append_nil, List.nil_append] at hdirs
  rw [written, parts_dirname hplain, hdirs]
  rfl

theorem written_missing (hdir : t.kind loc = some .dir)
    (hplain : ∀ x ∈ loc ++ name :: rest, Plain x) (hrest : rest ≠ [])
    (hmissing : (∃ dir new, walk t maxLinks loc [name] = .missing dir new) ∨
      walk t maxLinks loc [name] = .fails .noEnt) :
    ∀ place, opened t (render (loc ++ name :: rest)) = some place ∨
      written t data (render (loc ++ name :: rest)) = some place → place = loc ++ name :: rest := by
  have hname : Plain name := hplain name (by simp)
  intro place hplace
  have hopened : opened t (render (loc ++ name :: rest)) = none := by
    obtain ⟨m, -, hgo⟩ := walk_append (n := maxLinks) hdir [name]
    rw [opened, resolve_real hdir hplain, show name :: rest = [name] ++ rest from rfl, hgo]
    rcases hmissing with ⟨dir, new, hwalk⟩ | hwalk
    · rw [hwalk, goOn, if_neg hrest, Walk.place]
    · rw [hwalk, goOn, Walk.place]
  rw [hopened] at hplace
  rcases hplace with hplace | hplace
  · cases hplace
  · obtain ⟨last, rest', rfl⟩ : ∃ last rest', rest = rest' ++ [last] :=
      ⟨rest.getLast hrest, rest.dropLast, (List.dropLast_append_getLast hrest).symm⟩
    have hdropLast : (loc ++ name :: (rest' ++ [last])).dropLast = loc ++ name :: rest' := by
      rw [← List.cons_append, ← List.append_assoc, List.dropLast_concat]
    have hdirs := makeDirs_dirs data [] loc hdir (name :: rest')
    rw [written, parts_dirname hplain, hdropLast, hdirs, List.nil_append] at hplace
    rcases kind_missing hname hmissing with hnone | ⟨target, hlink⟩
    · obtain ⟨t', hmade, hnew, hlast⟩ := makeDirs_missing data (name :: rest') hdir
        (fun x hx => hplain x (by simp at hx ⊢; tauto))
        (by simpa using hnone) (by simp)
      rw [hmade, Option.bind_some, opened] at hplace
      have hassoc : loc ++ name :: (rest' ++ [last]) = (loc ++ name :: rest') ++ [last] := by simp
      rw [hassoc] at hplain hplace ⊢
      rw [resolve_real hnew hplain,
        walk_plain_none (hplain last (by simp)) (hlast last)] at hplace
      cases hplace
      rfl
    · have hnot : makeDir t data loc name = none := by
        unfold makeDir
        rw [walk_self (.inl hdir)]
        have hnew : ¬(t.kind loc = some .dir ∧ t.node (loc ++ [name]) = none ∧ Plain name) := by
          rintro ⟨-, hnode, -⟩
          rw [FsTree.kind, hnode] at hlink
          cases hlink
        simp only [dif_neg hnew]
        have hwalk := walk_dirs maxLinks [] loc [name] hdir
        rw [hwalk, List.nil_append]
        rcases hmissing with ⟨dir, new, hends⟩ | hends
        · rw [hends]
        · rw [hends]
      rw [makeDirs, hnot] at hplace
      cases hplace

/-- A path that leads out is resolved but for its last name, and that name leads nowhere. -/
theorem LeadsOut.missing (h : LeadsOut t userPath) :
    ∃ init name, parts (resolved userPath) = init ++ [name] ∧
      (∀ loc, resolve t (render (init ++ [name])) ≠ .found loc) ∧
      ∃ dir, resolve t (render init) = .found dir := by
  obtain ⟨init, name, dir, target, above, new, hparts, hdir, hlink, hwalk, -⟩ := h
  have hplain := plain_resolved userPath
  rw [hparts] at hplain
  refine ⟨init, name, hparts, ?_, dir, hdir⟩
  intro loc hfound
  rw [resolve_render hplain] at hfound
  rw [resolve_render (fun x hx => hplain x (List.mem_append_left _ hx))] at hdir
  obtain ⟨m, hm, hgo⟩ := walk_append (n := maxLinks) t.root init
  rw [hgo, hdir, goOn, if_pos (.inl (FsTree.kind_parent hlink))] at hfound
  have hmono := walk_mono (t := t) hm dir [name] (by rw [hfound]; simp)
  rw [hwalk, hfound] at hmono
  cases hmono

/-- An accepted path leads to an allowed place when it is opened, and when it is written, unless its
last name is that of a link that leads out. -/
theorem safePath_confined_iff (h : safePath t userPath = some full) :
    (∀ place, opened t full = some place ∨ written t data full = some place → Allowed place) ↔
      ¬LeadsOut t userPath := by
  obtain ⟨-, init, loc, rest, hsplit, rfl, hplain, hallowed⟩ := safePath_eq_some h
  have hinit : ∀ x ∈ init ++ rest, Plain x := hsplit.split ▸ plain_resolved userPath
  cases rest with
  | nil =>
    -- the whole path exists
    rw [List.append_nil] at hplain hallowed ⊢
    have hparent : t.kind loc.dropLast = some .dir := by
      induction loc using List.reverseRecOn with
      | nil => exact t.root
      | append_singleton loc name =>
        rw [List.dropLast_concat]
        rcases hsplit.there with h | h
        · exact FsTree.kind_parent h
        · exact FsTree.kind_parent h
    constructor
    · intro _ hout
      obtain ⟨init', name, hparts, hno, -⟩ := hout.missing
      have hfound := hsplit.found
      have hnames := hsplit.split
      rw [List.append_nil] at hnames
      rw [← hnames, hparts] at hfound
      exact hno loc hfound
    · intro _ place hplace
      rw [written_of_dir hplain hparent, opened_render hsplit.there, or_self] at hplace
      cases hplace
      exact hallowed
  | cons name rest =>
    obtain ⟨hdir, hends⟩ := walk_missing hsplit.found
      (fun x hx => hinit x (by simp at hx ⊢; tauto)) (hsplit.missing name rfl)
    by_cases hrest : rest = []
    · subst hrest
      have hopened : opened t (render (loc ++ [name])) = (walk t maxLinks loc [name]).place := by
        rw [opened, resolve_real hdir hplain]
      simp only [written_of_dir hplain (by rwa [List.dropLast_concat]), or_self, hopened]
      constructor
      · rintro hall ⟨init', name', dir, target, above, new, hparts, hdir', -, hwalk, hno⟩
        rw [hsplit.split] at hparts
        obtain ⟨rfl, hname⟩ := List.append_inj' hparts rfl
        cases hname
        rw [hsplit.found] at hdir'
        cases hdir'
        exact hno (hall _ (by rw [hwalk, Walk.place]))
      · intro hno place hplace
        rcases kind_missing (hplain name (by simp)) hends with hnone | ⟨target, hlink⟩
        · rw [walk_plain_none (hplain name (by simp)) hnone] at hplace
          cases hplace
          exact hallowed
        · rcases hends with ⟨dir, new, hwalk⟩ | hwalk
          · rw [hwalk] at hplace
            cases hplace
            by_contra hbad
            exact hno ⟨init, name, loc, target, dir, new, hsplit.split, hsplit.found, hlink, hwalk,
              hbad⟩
          · rw [hwalk] at hplace
            cases hplace
    · constructor
      · intro _ hout
        -- the directory of the path is not resolved
        obtain ⟨init', last, hparts, -, dir, hdir'⟩ := hout.missing
        obtain ⟨final, rest', rfl⟩ : ∃ final rest', rest = rest' ++ [final] :=
          ⟨rest.getLast hrest, rest.dropLast, (List.dropLast_append_getLast hrest).symm⟩
        have hassoc : init ++ name :: (rest' ++ [final]) = (init ++ [name] ++ rest') ++ [final] := by
          simp
        rw [hsplit.split, hassoc] at hparts
        obtain ⟨rfl, -⟩ := List.append_inj' hparts rfl
        have hmissing := realpath_noEnt (hsplit.missing name rfl)
        rw [resolve_render (fun x hx => hinit x (by simp at hx ⊢; tauto))] at hmissing hdir'
        obtain ⟨m, -, hgo⟩ := walk_append (n := maxLinks) t.root (init ++ [name])
        rw [hgo] at hdir'
        rcases hmissing with ⟨above, new, hwalk⟩ | hwalk
        · rw [hwalk, goOn] at hdir'
          split at hdir' <;> cases hdir'
        · rw [hwalk] at hdir'
          cases hdir'
      · intro _ place hplace
        rw [written_missing hdir hplain hrest hends place hplace]
        exact hallowed

end Confined

def linked : FsTree Unit :=
  FsTree.ofEntries [([], ⟨.dir, ()⟩), (volume, ⟨.dir, ()⟩), (["etc".toList], ⟨.dir, ()⟩),
    (volume ++ ["l".toList], ⟨.link "/etc/new".toList, ()⟩)]
    (by decide) (by decide) (by decide)

/-- A path that exists up to its last name. -/
theorem safePath_confined_new : safePath linked "new.html".toList = some "/data/new.html".toList ∧
      ((∀ place, opened linked "/data/new.html".toList = some place ∨
        written linked () "/data/new.html".toList = some place → Allowed place) ↔
      ¬LeadsOut linked "new.html".toList) :=
  ⟨by decide +kernel, safePath_confined_iff (by decide +kernel)⟩

/-- The link is taken for a name that does not exist, and a write through it leaves the volume. -/
theorem safePath_not_confined : safePath linked "l".toList = some "/data/l".toList ∧
      written linked () "/data/l".toList = some ["etc".toList, "new".toList] ∧
      ¬Allowed ["etc".toList, "new".toList] := by
  refine ⟨by decide +kernel, by decide +kernel, ?_⟩
  rintro ⟨below, heq, -⟩
  have hhead := congrArg List.head? heq
  simp only [List.head?_cons, volume, List.cons_append, Option.some.injEq] at hhead
  exact absurd hhead (by decide)

end Insula.FileManager
