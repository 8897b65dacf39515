import Insula.Paths
import Mathlib.Data.List.Induction

/-!
# Trees of files with symbolic links

A tree says what stands at each location, which is a list of names from the root. A path is walked
component by component, and a link on the way is replaced by its target. The walk ends at something
that exists, at a name that does not exist in a directory that does, or with an error.
-/

namespace Insula.FileTree

open Paths

abbrev Loc := List Text

inductive Kind
  | dir
  | file
  | link (target : Text)
deriving DecidableEq

structure Node (α : Type) where
  kind : Kind
  data : α

structure FsTree (α : Type) where
  node : Loc → Option (Node α)
  root : (node []).map Node.kind = some .dir
  parent : ∀ loc name, node (loc ++ [name]) ≠ none → (node loc).map Node.kind = some .dir
  plain : ∀ loc, node loc ≠ none → ∀ name ∈ loc, Plain name

def FsTree.kind {α : Type} (t : FsTree α) (loc : Loc) : Option Kind := (t.node loc).map Node.kind

inductive Errno
  | noEnt | notDir | loop | invalid
deriving DecidableEq

inductive Walk
  | found (loc : Loc)
  | missing (dir : Loc) (name : Text)
  | fails (e : Errno)
deriving DecidableEq

def Walk.place : Walk → Option Loc
  | .found loc => some loc
  | .missing dir name => some (dir ++ [name])
  | .fails _ => none

section Walking

variable {α : Type} (t : FsTree α)

/-- A walk from a directory; `follow` goes on behind a link. -/
def walkWith (follow : Loc → Text → List Text → Walk) : Loc → List Text → Walk
  | dir, [] => .found dir
  | dir, part :: rest =>
    if part = [] ∨ part = ['.'] then walkWith follow dir rest
    else if part = ['.', '.'] then walkWith follow dir.dropLast rest
    else
      match t.kind (dir ++ [part]) with
      | none => if rest = [] then .missing dir part else .fails .noEnt
      | some .dir => walkWith follow (dir ++ [part]) rest
      | some .file => if rest = [] then .found (dir ++ [part]) else .fails .notDir
      | some (.link target) => follow dir target rest

def start (dir : Loc) (target : Text) : Loc := if Rooted target then [] else dir

def walk : ℕ → Loc → List Text → Walk
  | 0 => walkWith t fun _ _ _ => .fails .loop
  | links + 1 => walkWith t fun dir target rest =>
    walk links (start dir target) (target.splitOn '/' ++ rest)

def maxLinks : ℕ := 40

def resolve (path : Text) : Walk := walk t maxLinks [] (path.splitOn '/')

def realpath (path : Text) : Except Errno Text :=
  if Char.ofNat 0 ∈ path then .error .invalid
  else
    match resolve t path with
    | .found loc => .ok (render loc)
    | .missing _ _ => .error .noEnt
    | .fails e => .error e

def opened (path : Text) : Option Loc := (resolve t path).place

end Walking

/-! ## Making directories -/

namespace FsTree

variable {α : Type} {t : FsTree α} {dir loc : Loc} {name : Text}

theorem kind_eq_none : t.kind loc = none ↔ t.node loc = none := Option.map_eq_none_iff

theorem append_singleton_ne_self (dir : Loc) (name : Text) : dir ≠ dir ++ [name] := by
  intro h
  have hlength := congrArg List.length h
  simp at hlength

def make (t : FsTree α) (dir : Loc) (name : Text) (new : Node α) (hdir : t.kind dir = some .dir)
    (hnew : t.node (dir ++ [name]) = none) (hname : Plain name) : FsTree α where
  node := Function.update t.node (dir ++ [name]) (some new)
  root := by
    have hne : ([] : Loc) ≠ dir ++ [name] := by simp
    rw [Function.update_of_ne hne]
    exact t.root
  parent loc other h := by
    by_cases heq : loc ++ [other] = dir ++ [name]
    · obtain ⟨rfl, -⟩ := List.append_inj' heq rfl
      rwa [Function.update_of_ne (append_singleton_ne_self loc name)]
    · rw [Function.update_of_ne heq] at h
      have hparent := t.parent loc other h
      have hne : loc ≠ dir ++ [name] := by
        rintro rfl
        rw [hnew] at hparent
        cases hparent
      rwa [Function.update_of_ne hne]
  plain loc h := by
    by_cases heq : loc = dir ++ [name]
    · subst heq
      intro part hpart
      rcases List.mem_append.mp hpart with hpart | hpart
      · have hsome : t.node dir ≠ none := by
          intro hnone
          rw [FsTree.kind, hnone] at hdir
          cases hdir
        exact t.plain dir hsome part hpart
      · cases List.mem_singleton.mp hpart
        exact hname
    · rw [Function.update_of_ne heq] at h
      exact t.plain loc h

theorem kind_make_self {new : Node α} (hdir : t.kind dir = some .dir)
    (hnew : t.node (dir ++ [name]) = none) (hname : Plain name) :
    (t.make dir name new hdir hnew hname).kind (dir ++ [name]) = some new.kind := by
  simp [FsTree.kind, make]

theorem node_make_of_ne {new : Node α} (hdir : t.kind dir = some .dir)
    (hnew : t.node (dir ++ [name]) = none) (hname : Plain name) (h : loc ≠ dir ++ [name]) :
    (t.make dir name new hdir hnew hname).node loc = t.node loc :=
  Function.update_of_ne h _ _

end FsTree

def FsTree.ofEntries {α : Type} (entries : List (Loc × Node α))
    (hroot : ((entries.find? (·.1 = [])).map fun e => e.2.kind) = some .dir)
    (hparent : ∀ e ∈ entries, e.1 ≠ [] →
      ((entries.find? (·.1 = e.1.dropLast)).map fun e => e.2.kind) = some .dir)
    (hplain : ∀ e ∈ entries, ∀ name ∈ e.1, Plain name) : FsTree α where
  node loc := (entries.find? (·.1 = loc)).map Prod.snd
  root := by simpa only [Option.map_map, Function.comp_def] using hroot
  parent loc name h := by
    obtain ⟨e, he⟩ := Option.ne_none_iff_exists'.mp (fun hnone => h (Option.map_eq_none_iff.mpr hnone))
    have hloc : e.1 = loc ++ [name] := by simpa using List.find?_some he
    have hdir := hparent e (List.mem_of_find?_eq_some he) (by simp [hloc])
    rw [hloc, List.dropLast_concat] at hdir
    simpa only [Option.map_map, Function.comp_def] using hdir
  plain loc h := by
    obtain ⟨e, he⟩ := Option.ne_none_iff_exists'.mp (fun hnone => h (Option.map_eq_none_iff.mpr hnone))
    have hloc : e.1 = loc := by simpa using List.find?_some he
    rw [← hloc]
    exact hplain e (List.mem_of_find?_eq_some he)

instance (part : Text) : Decidable (Plain part) :=
  decidable_of_iff (part ≠ [] ∧ part ≠ ['.'] ∧ part ≠ ['.', '.'] ∧ '/' ∉ part)
    ⟨fun ⟨h₁, h₂, h₃, h₄⟩ => ⟨h₁, h₂, h₃, h₄⟩, fun ⟨h₁, h₂, h₃, h₄⟩ => ⟨h₁, h₂, h₃, h₄⟩⟩

/-- One `mkdir` that may find a directory there: it does not follow a link in the last place, but
the test for a directory does. -/
def makeDir {α : Type} (t : FsTree α) (data : α) (above : List Text) (part : Text) :
    Option (FsTree α) :=
  match walk t maxLinks [] above with
  | .found dir =>
    if h : t.kind dir = some .dir ∧ t.node (dir ++ [part]) = none ∧ Plain part then
      some (t.make dir part ⟨.dir, data⟩ h.1 h.2.1 h.2.2)
    else
      match walk t maxLinks [] (above ++ [part]) with
      | .found loc => if t.kind loc = some .dir then some t else none
      | _ => none
  | _ => none

/-- `mkdir` with `recursive`, along the components of a rooted path. -/
def makeDirs {α : Type} (t : FsTree α) (data : α) (above : List Text) : List Text → Option (FsTree α)
  | [] => some t
  | part :: rest => (makeDir t data above part).bind fun t => makeDirs t data (above ++ [part]) rest

/-! ## Walks -/

section Walks

variable {α : Type} {t : FsTree α} {loc dir : Loc} {k : Kind} {n : ℕ}
  {follow : Loc → Text → List Text → Walk} {xs : List Text}

theorem FsTree.node_ne_none (h : t.kind loc = some k) : t.node loc ≠ none := by
  intro hnone
  rw [FsTree.kind_eq_none.mpr hnone] at h
  cases h

theorem FsTree.kind_parent {name : Text} (h : t.kind (loc ++ [name]) = some k) :
    t.kind loc = some .dir :=
  t.parent loc name (FsTree.node_ne_none h)

theorem FsTree.kind_of_append {rest : Loc} (h : t.kind (loc ++ rest) = some k) (hrest : rest ≠ []) :
    t.kind loc = some .dir := by
  induction rest using List.reverseRecOn generalizing k with
  | nil => exact absurd rfl hrest
  | append_singleton rest name ih =>
    rw [← List.append_assoc] at h
    have hparent := FsTree.kind_parent h
    by_cases hnil : rest = []
    · subst hnil
      rwa [List.append_nil] at hparent
    · exact ih hparent hnil

theorem FsTree.kind_dropLast (h : t.kind loc = some .dir) : t.kind loc.dropLast = some .dir := by
  induction loc using List.reverseRecOn with
  | nil => exact h
  | append_singleton loc name =>
    rw [List.dropLast_concat]
    exact FsTree.kind_parent h

theorem FsTree.plain_of_kind (h : t.kind loc = some k) : ∀ name ∈ loc, Plain name :=
  t.plain loc (FsTree.node_ne_none h)

theorem kind_start (target : Text) (h : t.kind dir = some .dir) :
    t.kind (start dir target) = some .dir := by
  unfold start
  split
  · exact t.root
  · exact h

section With

variable {follow : Loc → Text → List Text → Walk} {dir : Loc} {part : Text} {rest : List Text}

theorem walkWith_plain (h : Plain part) : walkWith t follow dir (part :: rest) =
      match t.kind (dir ++ [part]) with
      | none => if rest = [] then .missing dir part else .fails .noEnt
      | some .dir => walkWith t follow (dir ++ [part]) rest
      | some .file => if rest = [] then .found (dir ++ [part]) else .fails .notDir
      | some (.link target) => follow dir target rest := by
  have hstay : ¬(part = [] ∨ part = ['.']) := by simp [h.nonempty, h.dot]
  rw [walkWith, if_neg hstay, if_neg h.dots]

theorem walkWith_dirs {names : List Text} (hdirs : t.kind (dir ++ names) = some .dir) :
    walkWith t follow dir (names ++ rest) = walkWith t follow (dir ++ names) rest := by
  induction names generalizing dir with
  | nil => simp
  | cons part names ih =>
    have hplain : Plain part :=
      FsTree.plain_of_kind hdirs part (by simp)
    have hassoc : dir ++ part :: names = dir ++ [part] ++ names := by simp
    rw [hassoc] at hdirs ⊢
    have hdir : t.kind (dir ++ [part]) = some .dir := by
      by_cases hnil : names = []
      · subst hnil
        simpa using hdirs
      · exact FsTree.kind_of_append hdirs hnil
    rw [List.cons_append, walkWith_plain hplain, hdir]
    exact ih hdirs

end With

theorem walk_eq_walkWith (n : ℕ) : ∃ follow, walk t n = walkWith t follow := by
  cases n with
  | zero => exact ⟨_, rfl⟩
  | succ n => exact ⟨_, rfl⟩

theorem walk_dirs (n : ℕ) (dir : Loc) (names rest : List Text)
    (h : t.kind (dir ++ names) = some .dir) :
    walk t n dir (names ++ rest) = walk t n (dir ++ names) rest := by
  obtain ⟨follow, hwalk⟩ := walk_eq_walkWith (t := t) n
  rw [hwalk]
  exact walkWith_dirs h

theorem walk_nil : walk t n dir [] = .found dir := by
  cases n <;> rfl

theorem walk_self (h : t.kind loc = some .dir ∨ t.kind loc = some .file) :
    walk t n [] loc = .found loc := by
  rcases h with h | h
  · have hdirs := walk_dirs n [] loc [] h
    simpa only [List.append_nil, List.nil_append, walk_nil] using hdirs
  · induction loc using List.reverseRecOn with
    | nil => exact absurd t.root (by rw [show (t.node []).map Node.kind = some .file from h]; simp)
    | append_singleton loc name =>
      have hparent : t.kind loc = some .dir := FsTree.kind_parent h
      have hplain : Plain name :=
        FsTree.plain_of_kind h name (by simp)
      rw [walk_dirs _ _ _ _ (by simpa using hparent), List.nil_append]
      obtain ⟨follow, hwalk⟩ := walk_eq_walkWith (t := t) n
      rw [hwalk, walkWith_plain hplain, h]
      rfl

theorem walk_cons_nil {rest : List Text} : walk t n dir ([] :: rest) = walk t n dir rest := by
  cases n <;> simp [walk, walkWith]

theorem walk_plain_none {part : Text} {rest : List Text} (hplain : Plain part)
    (h : t.kind (dir ++ [part]) = none) :
    walk t n dir (part :: rest) = if rest = [] then .missing dir part else .fails .noEnt := by
  obtain ⟨follow, hwalk⟩ := walk_eq_walkWith (t := t) n
  rw [hwalk, walkWith_plain hplain, h]

def goOn (t : FsTree α) (links : ℕ) : Walk → List Text → Walk
  | .found loc, rest =>
    if t.kind loc = some .dir ∨ rest = [] then walk t links loc rest else .fails .notDir
  | .missing dir name, rest => if rest = [] then .missing dir name else .fails .noEnt
  | .fails e, _ => .fails e

/-- The walk along more components goes on from where the walk along fewer ended, with the links
that are left. -/
theorem walkWith_append (hwalk : walk t n = walkWith t follow)
    (hfollow : ∀ dir target rest, t.kind dir = some .dir →
      ∃ m ≤ n, ∀ ys, follow dir target (rest ++ ys) = goOn t m (follow dir target rest) ys)
    (hdir : t.kind dir = some .dir) :
    ∃ m ≤ n, ∀ ys, walkWith t follow dir (xs ++ ys) = goOn t m (walkWith t follow dir xs) ys := by
  induction xs generalizing dir with
  | nil =>
    refine ⟨n, Nat.le_refl n, ?_⟩
    intro ys
    rw [walkWith.eq_1, goOn, if_pos (.inl hdir), hwalk, List.nil_append]
  | cons part rest ih =>
    simp only [List.cons_append, walkWith]
    by_cases hstay : part = [] ∨ part = ['.']
    · simp only [if_pos hstay]
      exact ih hdir
    · simp only [if_neg hstay]
      by_cases hdots : part = ['.', '.']
      · simp only [if_pos hdots]
        exact ih (FsTree.kind_dropLast hdir)
      · simp only [if_neg hdots]
        cases hkind : t.kind (dir ++ [part]) with
        | none =>
          refine ⟨n, Nat.le_refl n, ?_⟩
          intro ys
          by_cases hrest : rest = []
          · simp [hrest, goOn]
          · simp [hrest, goOn]
        | some kind =>
          cases kind with
          | dir => exact ih hkind
          | file =>
            refine ⟨n, Nat.le_refl n, ?_⟩
            intro ys
            by_cases hrest : rest = []
            · by_cases hys : ys = []
              · simp [hrest, hys, goOn, walk_nil]
              · simp [hrest, hys, goOn, hkind]
            · simp [hrest, goOn]
          | link target => exact hfollow dir target rest hdir

theorem walk_append (hdir : t.kind dir = some .dir) (xs : List Text) :
    ∃ m ≤ n, ∀ ys, walk t n dir (xs ++ ys) = goOn t m (walk t n dir xs) ys := by
  induction n generalizing dir xs with
  | zero =>
    apply walkWith_append rfl _ hdir
    intro _ _ _ _
    exact ⟨0, Nat.le_refl 0, fun _ => rfl⟩
  | succ n ih =>
    apply walkWith_append (n := n + 1) rfl _ hdir
    intro dir target rest hdir
    obtain ⟨m, hm, hgo⟩ := ih (kind_start target hdir) (target.splitOn '/' ++ rest)
    refine ⟨m, by omega, ?_⟩
    intro ys
    rw [← List.append_assoc]
    exact hgo ys

theorem walkWith_mono {follow' : Loc → Text → List Text → Walk}
    (hfollow : ∀ dir target rest, follow dir target rest ≠ .fails .loop →
      follow' dir target rest = follow dir target rest)
    (h : walkWith t follow dir xs ≠ .fails .loop) :
    walkWith t follow' dir xs = walkWith t follow dir xs := by
  induction xs generalizing dir with
  | nil => rfl
  | cons part rest ih =>
    simp only [walkWith] at h ⊢
    split at h
    · next hstay =>
      simp only [if_pos hstay]
      exact ih h
    · next hstay =>
      simp only [if_neg hstay]
      split at h
      · next hdots =>
        simp only [if_pos hdots]
        exact ih h
      · next hdots =>
        simp only [if_neg hdots]
        cases hkind : t.kind (dir ++ [part]) with
        | none => rfl
        | some kind =>
          cases kind with
          | dir =>
            simp only [hkind] at h ⊢
            exact ih h
          | file => rfl
          | link target =>
            simp only [hkind] at h ⊢
            exact hfollow dir target rest h

theorem walk_succ (h : walk t n dir xs ≠ .fails .loop) :
    walk t (n + 1) dir xs = walk t n dir xs := by
  induction n generalizing dir xs with
  | zero => exact walkWith_mono (fun _ _ _ hno => absurd rfl hno) h
  | succ n ih => exact walkWith_mono (fun dir target rest hno => ih hno) h

theorem walk_mono {m : ℕ} (hnm : n ≤ m) (dir : Loc) (xs : List Text)
    (h : walk t n dir xs ≠ .fails .loop) : walk t m dir xs = walk t n dir xs := by
  induction hnm with
  | refl => rfl
  | step _ ih =>
    rw [← ih]
    exact walk_succ (by rwa [ih])

def Walk.Sound (t : FsTree α) : Walk → Prop
  | .found loc => t.kind loc = some .dir ∨ t.kind loc = some .file
  | .missing dir name => t.kind dir = some .dir ∧ t.kind (dir ++ [name]) = none ∧ Plain name
  | .fails _ => True

theorem sound_walkWith
    (hfollow : ∀ dir target rest, t.kind dir = some .dir → (∀ x ∈ rest, '/' ∉ x) →
      (follow dir target rest).Sound t) (hdir : t.kind dir = some .dir) (hxs : ∀ x ∈ xs, '/' ∉ x) :
    (walkWith t follow dir xs).Sound t := by
  induction xs generalizing dir with
  | nil => exact .inl hdir
  | cons part rest ih =>
    have hrest : ∀ x ∈ rest, '/' ∉ x := fun x hx => hxs x (List.mem_cons_of_mem _ hx)
    unfold walkWith
    split
    · exact ih hdir hrest
    · next hstay =>
      split
      · exact ih (FsTree.kind_dropLast hdir) hrest
      · next hdots =>
        cases hkind : t.kind (dir ++ [part]) with
        | none =>
          dsimp only
          split
          · exact ⟨hdir, hkind, fun h => hstay (.inl h), fun h => hstay (.inr h), hdots,
              hxs part List.mem_cons_self⟩
          · trivial
        | some kind =>
          cases kind with
          | dir => exact ih hkind hrest
          | file =>
            dsimp only
            split
            · exact .inr hkind
            · trivial
          | link target => exact hfollow dir target rest hdir hrest

theorem sound_walk (hdir : t.kind dir = some .dir) (hxs : ∀ x ∈ xs, '/' ∉ x) :
    (walk t n dir xs).Sound t := by
  induction n generalizing dir xs with
  | zero =>
    apply sound_walkWith _ hdir hxs
    intro _ _ _ _ _
    trivial
  | succ n ih =>
    apply sound_walkWith _ hdir hxs
    intro dir target rest hdir hrest
    apply ih (kind_start target hdir)
    intro x hx
    rcases List.mem_append.mp hx with hx | hx
    · exact notMem_of_mem_splitOn target x hx
    · exact hrest x hx

/-! ## Normal paths -/

theorem resolve_render (h : ∀ name ∈ loc, Plain name) :
    resolve t (render loc) = walk t maxLinks [] loc := by
  by_cases hne : loc = []
  · subst hne
    exact walk_cons_nil.trans walk_cons_nil
  · rw [resolve, splitOn_render h hne, walk_cons_nil]

theorem sound_resolve (path : Text) : (resolve t path).Sound t :=
  sound_walk t.root (notMem_of_mem_splitOn path)

theorem opened_render (h : t.kind loc = some .dir ∨ t.kind loc = some .file) :
    opened t (render loc) = some loc := by
  have hplain : ∀ name ∈ loc, Plain name := by
    rcases h with h | h
    · exact FsTree.plain_of_kind h
    · exact FsTree.plain_of_kind h
  rw [opened, resolve_render hplain, walk_self h]
  rfl

theorem realpath_eq_ok {path real : Text} (h : realpath t path = .ok real) :
    ∃ loc, resolve t path = .found loc ∧ real = render loc ∧
      (t.kind loc = some .dir ∨ t.kind loc = some .file) := by
  have hsound := sound_resolve (t := t) path
  unfold realpath at h
  split at h
  · cases h
  · cases hwalk : resolve t path with
    | found loc =>
      rw [hwalk] at h hsound
      cases h
      exact ⟨loc, rfl, rfl, hsound⟩
    | missing | fails =>
      rw [hwalk] at h
      cases h

/-! ## Directories on the way -/

theorem makeDir_of_dir {data : α} {above : List Text} {part : Text}
    (h : t.kind (above ++ [part]) = some .dir) : makeDir t data above part = some t := by
  unfold makeDir
  rw [walk_self (.inl (FsTree.kind_parent h)), walk_self (.inl h)]
  simp only [h, if_true]
  split
  · next hnew =>
    rw [FsTree.kind, hnew.2.1] at h
    cases h
  · rfl

theorem makeDirs_dirs (data : α) (above names : List Text)
    (h : t.kind (above ++ names) = some .dir) (rest : List Text) :
    makeDirs t data above (names ++ rest) = makeDirs t data (above ++ names) rest := by
  induction names generalizing above with
  | nil => simp
  | cons part names ih =>
    have hassoc : above ++ part :: names = above ++ [part] ++ names := by simp
    rw [hassoc] at h ⊢
    have hdir : t.kind (above ++ [part]) = some .dir := by
      by_cases hnil : names = []
      · subst hnil
        simpa using h
      · exact FsTree.kind_of_append h hnil
    rw [List.cons_append, makeDirs, makeDir_of_dir hdir]
    exact ih _ h

/-- Below a name that does not exist all directories are new. -/
theorem makeDirs_missing (data : α) {above : List Text} (names : List Text)
    (habove : t.kind above = some .dir)
    (hnames : ∀ name ∈ names, Plain name)
    (hfirst : ∀ name ∈ names.head?, t.kind (above ++ [name]) = none)
    (hne : names ≠ []) :
    ∃ t', makeDirs t data above names = some t' ∧ t'.kind (above ++ names) = some .dir ∧
      ∀ name, t'.kind (above ++ names ++ [name]) = none := by
  induction names generalizing t above with
  | nil => exact absurd rfl hne
  | cons part names ih =>
    have hmissing := hfirst part rfl
    have hplain := hnames part List.mem_cons_self
    have hnew : t.kind above = some .dir ∧ t.node (above ++ [part]) = none ∧ Plain part :=
      ⟨habove, FsTree.kind_eq_none.mp hmissing, hplain⟩
    have hmake : makeDir t data above part =
        some (t.make above part ⟨.dir, data⟩ hnew.1 hnew.2.1 hnew.2.2) := by
      unfold makeDir
      rw [walk_self (.inl habove)]
      simp only [dif_pos hnew]
    generalize ht : t.make above part ⟨.dir, data⟩ hnew.1 hnew.2.1 hnew.2.2 = t₁ at hmake
    have hdir : t₁.kind (above ++ [part]) = some .dir := by
      rw [← ht]
      exact FsTree.kind_make_self _ _ _
    have hbelow : ∀ name, t₁.kind (above ++ [part] ++ [name]) = none := by
      intro name
      have hne : above ++ [part] ++ [name] ≠ above ++ [part] :=
        (FsTree.append_singleton_ne_self _ _).symm
      have hold : t.kind (above ++ [part] ++ [name]) = none := by
        cases hkind : t.kind (above ++ [part] ++ [name]) with
        | none => rfl
        | some k =>
          rw [FsTree.kind_parent hkind] at hmissing
          cases hmissing
      rw [← ht, FsTree.kind, FsTree.node_make_of_ne _ _ _ hne]
      exact hold
    rw [makeDirs, hmake, Option.bind_some]
    by_cases hnil : names = []
    · subst hnil
      exact ⟨t₁, rfl, hdir, hbelow⟩
    · obtain ⟨t', hmade, hlast, hrest⟩ := ih hdir
        (fun name hname => hnames name (List.mem_cons_of_mem _ hname))
        (fun name _ => hbelow name) hnil
      refine ⟨t', hmade, ?_, ?_⟩
      · simpa using hlast
      · simpa using hrest

end Walks

end Insula.FileTree
