import Insula.FileTree

/-!
# Paths of the file manager

A request names a path below the volume. It is normalised, refused when it leaves the volume or is
hidden, and then the links on it are resolved: the longest part of it that exists is replaced by its
real path, and both checks are made again on the outcome.
-/

namespace Insula.FileManager

open Paths FileTree

def base : Text := ['/', 'd', 'a', 't', 'a']

def volume : Loc := [['d', 'a', 't', 'a']]

def platform : Text := ".platform".toList

def trashDirname : Text := ".trash".toList

def hiddenPrefixes : List Text := [platform]

def rootHiddenPrefixes : List Text := [trashDirname]

/-! ## Paths as strings -/

def dirname (path : Text) : Text := render (parts path).dropLast

def join (path : Text) (names : List Text) : Text := clean (path ++ '/' :: ['/'].intercalate names)

def withinBase (p : Text) : Prop := p = base ∨ (base ++ ['/']) <+: p

instance (p : Text) : Decidable (withinBase p) := inferInstanceAs (Decidable (_ ∨ _))

def relToBase (absPath : Text) : Text :=
  if absPath = base then ['.']
  else if (base ++ ['/']) <+: absPath then absPath.drop (base.length + 1)
  else absPath

def stripDotSlash : Text → Text
  | '.' :: '/' :: rest => rest.dropWhile (· = '/')
  | path => path

def stripTrailingSlashes (path : Text) : Text := (path.reverse.dropWhile (· = '/')).reverse

def isHidden (relPath : Text) : Prop :=
  let norm := stripTrailingSlashes (stripDotSlash relPath)
  (∃ pre ∈ hiddenPrefixes,
    norm = pre ∨ (pre ++ ['/']) <+: norm ∨ pre ∈ norm.splitOn '/') ∨
  ∃ pre ∈ rootHiddenPrefixes, norm = pre ∨ (pre ++ ['/']) <+: norm

instance (relPath : Text) : Decidable (isHidden relPath) := inferInstanceAs (Decidable (_ ∨ _))

section Safe

variable {α : Type} (t : FsTree α)

/-- The loop: `up` are the names of the path that is tried, from the last, and `suffix` are the
names that were taken off. -/
def confineFrom (up suffix : List Text) : Option Text :=
  let cur := render up.reverse
  match realpath t cur with
  | .ok real =>
    if ¬withinBase real then none
    else some (if suffix ≠ [] then join real suffix else real)
  | .error err =>
    if err ≠ .noEnt then none
    else
      match up with
      | [] => none
      | name :: up => if cur.length ≤ base.length then none else confineFrom up (name :: suffix)

def confineRealpath (resolved : Text) : Option Text := confineFrom t (parts resolved).reverse []

def resolved (userPath : Text) : Text :=
  let cleaned := (if userPath = [] then ['.'] else userPath).dropWhile (· = '/')
  clean (base ++ '/' :: (if cleaned = [] then ['.'] else cleaned))

def safePath (userPath : Text) : Option Text :=
  let resolved := resolved userPath
  if ¬withinBase resolved then none
  else if isHidden (relToBase resolved) then none
  else
    match confineRealpath t resolved with
    | none => none
    | some confined => if isHidden (relToBase confined) then none else some confined

/-- Where `handleWrite` and `handleWriteRaw` write: they make the directories above first. -/
def written (data : α) (full : Text) : Option Loc :=
  (makeDirs t data [] (parts (dirname full))).bind fun t => opened t full

end Safe

/-! ## Locations -/

/-- A component of the platform, or the recycle bin at the top of the volume. -/
def HiddenBelow (below : Loc) : Prop := platform ∈ below ∨ below.head? = some trashDirname

def Allowed (loc : Loc) : Prop := ∃ below, loc = volume ++ below ∧ ¬HiddenBelow below

instance (below : Loc) : Decidable (HiddenBelow below) := inferInstanceAs (Decidable (_ ∨ _))

section Render

variable {loc below : Loc}

theorem plain_volume : ∀ x ∈ volume, Plain x := by decide

theorem base_eq : base = render volume := rfl

theorem splitOn_base_slash (rest : Text) :
    (base ++ ['/'] ++ rest).splitOn '/' = [] :: volume ++ rest.splitOn '/' := by
  rw [List.append_assoc, List.singleton_append, List.splitOn_append_cons_self, base_eq,
    splitOn_render plain_volume (by decide)]

theorem render_volume_append (hne : below ≠ []) :
    render (volume ++ below) = base ++ ['/'] ++ ['/'].intercalate below := by
  rw [render_append (by decide) hne, base_eq, List.append_assoc]
  rfl

/-- A normal path begins with that of the volume when its names do. -/
theorem withinBase_render (h : ∀ x ∈ loc, Plain x) : withinBase (render loc) ↔ volume <+: loc := by
  constructor
  · rintro (heq | ⟨rest, hrest⟩)
    · have hloc : loc = volume := by
        rw [← parts_render h, heq, base_eq, parts_render plain_volume]
      exact hloc ▸ List.prefix_refl _
    · have hne : loc ≠ [] := by
        rintro rfl
        have hlength := congrArg List.length hrest
        simp [render, base] at hlength
      have hsplit := congrArg (List.splitOn '/') hrest
      rw [splitOn_base_slash, splitOn_render h hne, List.cons_append, List.cons.injEq] at hsplit
      exact ⟨_, hsplit.2⟩
  · rintro ⟨below, rfl⟩
    by_cases hne : below = []
    · subst hne
      exact .inl (by rw [List.append_nil, base_eq])
    · exact .inr ⟨_, (render_volume_append hne).symm⟩

theorem relToBase_render (hne : below ≠ []) :
    relToBase (render (volume ++ below)) = ['/'].intercalate below := by
  rw [render_volume_append hne, relToBase]
  have hlength : base ++ ['/'] ++ ['/'].intercalate below ≠ base := by
    intro h
    have hlength := congrArg List.length h
    simp at hlength
  rw [if_neg hlength, if_pos (List.prefix_append _ _)]
  rfl

theorem stripDotSlash_of_splitOn {path : Text} (h : (path.splitOn '/').head? ≠ some ['.']) :
    stripDotSlash path = path := by
  unfold stripDotSlash
  split
  · next rest =>
    exfalso
    apply h
    rw [show '.' :: '/' :: rest = ['.'] ++ '/' :: rest from rfl, List.splitOn_append_cons_self,
      List.splitOn_eq_singleton (by decide)]
    rfl
  · rfl

theorem stripTrailingSlashes_of_splitOn {path : Text} (h : [] ∉ path.splitOn '/') :
    stripTrailingSlashes path = path := by
  unfold stripTrailingSlashes
  induction path using List.reverseRecOn with
  | nil => rfl
  | append_singleton path c =>
    have hc : c ≠ '/' := by
      rintro rfl
      apply h
      rw [List.splitOn_append_cons_self]
      simp
    simp [hc]

theorem isHidden_iff (h : ∀ x ∈ below, Plain x) :
    isHidden (relToBase (render (volume ++ below))) ↔ HiddenBelow below := by
  by_cases hne : below = []
  · subst hne
    decide
  · have hsplit : (['/'].intercalate below).splitOn '/' = below :=
      List.splitOn_intercalate '/' (fun part hpart => (h part hpart).slash) hne
    obtain ⟨first, rest, rfl⟩ := List.exists_cons_of_ne_nil hne
    unfold isHidden HiddenBelow
    have hdot : ((['/'].intercalate (first :: rest)).splitOn '/').head? ≠ some ['.'] := by
      rw [hsplit]
      exact fun heq => (h first List.mem_cons_self).dot (Option.some.inj heq)
    have hslash : [] ∉ (['/'].intercalate (first :: rest)).splitOn '/' := by
      rw [hsplit]
      exact fun hmem => (h [] hmem).nonempty rfl
    rw [relToBase_render hne, stripDotSlash_of_splitOn hdot,
      stripTrailingSlashes_of_splitOn hslash]
    simp only [hiddenPrefixes, rootHiddenPrefixes, List.mem_singleton, exists_eq_left]
    have hnoslash : '/' ∉ platform ∧ '/' ∉ trashDirname := by decide
    have hplatform := head_splitOn_iff (['/'].intercalate (first :: rest)) hnoslash.1
    have htrash := head_splitOn_iff (['/'].intercalate (first :: rest)) hnoslash.2
    rw [htrash, ← or_assoc, hplatform, hsplit]
    constructor
    · rintro ((hhead | hmem) | hhead)
      · left
        cases hhead
        exact List.mem_cons_self
      · exact .inl hmem
      · exact .inr hhead
    · rintro (hmem | hhead)
      · exact .inl (.inr hmem)
      · exact .inr hhead

end Render

end Insula.FileManager
