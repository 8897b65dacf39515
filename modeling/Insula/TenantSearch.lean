import Insula.LikePatterns
import Insula.Lowercase
import Insula.Quantities
import Insula.SqlLogic

/-!
# Searching tenants

`shared/like-pattern.ts` and the condition that the search of the tenant list puts to the database:
what a term finds, whatever characters it has, and by which names a node is found.
-/

namespace Insula.TenantSearch

open LikePatterns (like escape isSpecial like_contains like_begins escape_map)
open Javascript (trim)
open Lowercase (IsAscii ascii_induction toLower_of_not_ascii)

abbrev Text := List Char

/-- How the database takes case away: character by character, and not from the characters that
patterns give a meaning. -/
structure Folding where
  fold : Char → Char
  special : ∀ c, isSpecial c = true → fold c = c
  plain : ∀ c, isSpecial (fold c) = isSpecial c

/-! ## Patterns -/

/-- `replace` with a pattern of one character that stands for all its places. -/
def replaceAll (x : Char) (t s : Text) : Text := s.flatMap fun c => if c = x then t else [c]

def escapeLike (term : Text) : Text :=
  replaceAll '_' ['\\', '_'] (replaceAll '%' ['\\', '%'] (replaceAll '\\' ['\\', '\\'] term))

def likePattern (term : Text) : Text := '%' :: (escapeLike term ++ ['%'])

def likePrefixPattern (term : Text) : Text := escapeLike term ++ ['%']

theorem replaceAll_cons (x c : Char) (t s : Text) :
    replaceAll x t (c :: s) = (if c = x then t else [c]) ++ replaceAll x t s := rfl

/-- Backslashes are escaped first, so the escapes of the others are not. -/
theorem escapeLike_eq (term : Text) : escapeLike term = escape term := by
  induction term with
  | nil => rfl
  | cons c term ih =>
    unfold escapeLike at ih ⊢
    rw [LikePatterns.escape_cons, ← ih, replaceAll_cons]
    by_cases hslash : c = '\\'
    · subst hslash
      rfl
    · rw [if_neg hslash, List.singleton_append, replaceAll_cons]
      by_cases hpercent : c = '%'
      · subst hpercent
        rfl
      · rw [if_neg hpercent, List.singleton_append, replaceAll_cons]
        by_cases hunder : c = '_'
        · subst hunder
          rfl
        · have hplain : isSpecial c = false := by
            rw [isSpecial, Bool.or_eq_false_iff, Bool.or_eq_false_iff, beq_eq_false_iff_ne,
              beq_eq_false_iff_ne, beq_eq_false_iff_ne]
            exact ⟨⟨hslash, hpercent⟩, hunder⟩
          rw [if_neg hunder, hplain]
          rfl

section Search

variable (f : Folding)

def ilike (s : Option Text) (pattern : Text) : Sql.Tri :=
  s.map fun s => like (pattern.map f.fold) (s.map f.fold)

/-! ## The condition -/

structure ClusterNode where
  name : Text
  displayName : Option Text
  hostname : Option Text

structure Placement where
  tenantId : Text
  misplaced : Bool
  actualNodes : List Text

structure Tenant where
  id : Text
  name : Text
  primaryEmail : Text
  nodeName : Option Text
  planName : Option Text

def firstLabel (node : Text) : Text := node.takeWhile (· != '.')

def isDotted (node : Text) : Bool :=
  (node.splitOn '.').length == 4 && (node.splitOn '.').all fun part =>
  part != [] && part.all Char.isDigit

def nodeNameMatches (pattern begins : Text) (node : Option Text) : Sql.Tri :=
  Sql.or (Sql.or (ilike f (node.map firstLabel) pattern) (ilike f node begins))
    (Sql.and (node.map isDotted) (ilike f node pattern))

def matchingNodes (nodes : List ClusterNode) (pattern begins : Text) : List Text :=
  nodes.flatMap fun cn => [some cn.name, cn.hostname].filterMap fun node =>
    if Sql.Matches (Sql.or (Sql.or (ilike f cn.displayName pattern)
      (nodeNameMatches f pattern begins (some cn.name))) (nodeNameMatches f pattern begins cn.hostname))
    then node else none

def isIn (node : Option Text) (names : List Text) : Sql.Tri :=
  match node with
  | none => if names = [] then some false else none
  | some node => some (names.contains node)

def onMatchingNode (names : List Text) (pattern begins : Text) (placements : List Placement)
    (tenant : Tenant) : Bool :=
  placements.any fun state =>
    Sql.Matches (Sql.and (some (state.tenantId == tenant.id))
      (Sql.or (some state.misplaced) (Sql.isNull tenant.nodeName))) &&
    state.actualNodes.any fun node =>
      Sql.Matches (Sql.or (nodeNameMatches f pattern begins (some node)) (isIn (some node) names))

def tenantSearchCondition (nodes : List ClusterNode) (placements : List Placement) (term : Text)
    (tenant : Tenant) : Sql.Tri :=
  let trimmed := trim term
  let pattern := likePattern trimmed
  let begins := likePrefixPattern trimmed
  let word := trimmed.map Char.toLower
  let names := matchingNodes f nodes pattern begins
  let clauses := [ilike f (some tenant.name) pattern, ilike f (some tenant.primaryEmail) pattern,
    ilike f tenant.planName pattern, nodeNameMatches f pattern begins tenant.nodeName,
    isIn tenant.nodeName names, some (onMatchingNode f names pattern begins placements tenant)] ++
    (if word = "auto".toList then [Sql.isNull tenant.nodeName] else []) ++
    if word = "misplaced".toList then
      [some (placements.any fun state => state.tenantId == tenant.id && state.misplaced)] else []
  clauses.foldr Sql.or (some false)

/-! ## What is found -/

/-- A term is somewhere in a text, but for the case. -/
def Contains (term s : Text) : Prop := term.map f.fold <:+: s.map f.fold

def Begins (term s : Text) : Prop := term.map f.fold <+: s.map f.fold

/-- A name of a node is found by its first label or from its start, and by any part when it is an
address. -/
def Named (term node : Text) : Prop :=
  Contains f term (firstLabel node) ∨ Begins f term node ∨ isDotted node = true ∧ Contains f term node

def Known (nodes : List ClusterNode) (term node : Text) : Prop :=
  Named f term node ∨ ∃ cn ∈ nodes, (node = cn.name ∨ cn.hostname = some node) ∧
    ((∃ s ∈ cn.displayName, Contains f term s) ∨ Named f term cn.name ∨
      ∃ s ∈ cn.hostname, Named f term s)

def Found (nodes : List ClusterNode) (placements : List Placement) (term : Text) (tenant : Tenant) :
    Prop :=
  Contains f term tenant.name ∨ Contains f term tenant.primaryEmail ∨
    (∃ plan ∈ tenant.planName, Contains f term plan) ∨
    (∃ node ∈ tenant.nodeName, Known f nodes term node) ∨
    (∃ state ∈ placements, state.tenantId = tenant.id ∧
      (state.misplaced = true ∨ tenant.nodeName = none) ∧
      ∃ node ∈ state.actualNodes, Known f nodes term node) ∨
    (term.map Char.toLower = "auto".toList ∧ tenant.nodeName = none) ∨
    (term.map Char.toLower = "misplaced".toList ∧
      ∃ state ∈ placements, state.tenantId = tenant.id ∧ state.misplaced = true)

variable {f} {term : Text} {nodes : List ClusterNode} {placements : List Placement}
  {node : Option Text}

theorem map_escapeLike (term : Text) : (escapeLike term).map f.fold = escape (term.map f.fold) := by
  rw [escapeLike_eq, escape_map f.plain f.special]

theorem fold_percent : f.fold '%' = '%' := f.special '%' rfl

theorem matches_contains {s : Option Text} :
    Sql.Matches (ilike f s (likePattern term)) ↔ ∃ t ∈ s, Contains f term t := by
  cases s with
  | none => simp [ilike]
  | some s =>
    simp only [ilike, Option.map_some, Sql.matches_some, likePattern, List.map_cons, List.map_append,
      map_escapeLike, fold_percent, List.map_nil, like_contains, Option.mem_def, Option.some.injEq,
      exists_eq_left', Contains]

theorem matches_begins {s : Option Text} :
    Sql.Matches (ilike f s (likePrefixPattern term)) ↔ ∃ t ∈ s, Begins f term t := by
  cases s with
  | none => simp [ilike]
  | some s =>
    simp only [ilike, Option.map_some, Sql.matches_some, likePrefixPattern, List.map_cons,
      List.map_append, map_escapeLike, fold_percent, List.map_nil, like_begins, Option.mem_def,
      Option.some.injEq, exists_eq_left', Begins]

theorem matches_named :
    Sql.Matches (nodeNameMatches f (likePattern term) (likePrefixPattern term) node) ↔
      ∃ t ∈ node, Named f term t := by
  rw [nodeNameMatches, Sql.matches_or, Sql.matches_or, Sql.matches_and, matches_contains,
    matches_begins, matches_contains]
  cases node with
  | none => simp
  | some node => simp [Named, or_assoc]

theorem mem_matchingNodes {node : Text} :
    node ∈ matchingNodes f nodes (likePattern term) (likePrefixPattern term) ↔
      ∃ cn ∈ nodes, (node = cn.name ∨ cn.hostname = some node) ∧
        ((∃ s ∈ cn.displayName, Contains f term s) ∨ Named f term cn.name ∨
          ∃ s ∈ cn.hostname, Named f term s) := by
  rw [matchingNodes, List.mem_flatMap]
  apply exists_congr
  intro cn
  apply and_congr_right
  intro _
  have hmatches : Sql.Matches (Sql.or (Sql.or (ilike f cn.displayName (likePattern term))
      (nodeNameMatches f (likePattern term) (likePrefixPattern term) (some cn.name)))
      (nodeNameMatches f (likePattern term) (likePrefixPattern term) cn.hostname)) ↔
        (∃ s ∈ cn.displayName, Contains f term s) ∨ Named f term cn.name ∨
          ∃ s ∈ cn.hostname, Named f term s := by
    rw [Sql.matches_or, Sql.matches_or, matches_contains, matches_named, matches_named, or_assoc]
    simp only [Option.mem_def, Option.some.injEq, exists_eq_left']
  rw [← hmatches, List.mem_filterMap]
  split
  next h =>
    rw [and_iff_left h]
    constructor
    · rintro ⟨v, hv, hnode⟩
      rcases List.mem_cons.mp hv with rfl | hv
      · exact Or.inl (Option.some.inj hnode).symm
      · exact Or.inr (List.mem_singleton.mp hv ▸ hnode)
    · rintro (rfl | hnode)
      · exact ⟨some cn.name, List.mem_cons_self, rfl⟩
      · exact ⟨cn.hostname, List.mem_cons_of_mem _ List.mem_cons_self, hnode⟩
  next h =>
    constructor
    · rintro ⟨v, -, hnode⟩
      cases hnode
    · exact fun hcn => absurd hcn.2 h

theorem matches_isIn {names : List Text} :
    Sql.Matches (isIn node names) ↔ ∃ t ∈ node, t ∈ names := by
  cases node with
  | none =>
    rw [isIn]
    split <;> simp
  | some node => simp [isIn]

theorem matches_known :
    Sql.Matches (Sql.or (nodeNameMatches f (likePattern term) (likePrefixPattern term) node)
      (isIn node (matchingNodes f nodes (likePattern term) (likePrefixPattern term)))) ↔
        ∃ t ∈ node, Known f nodes term t := by
  rw [Sql.matches_or, matches_named, matches_isIn, ← exists_or]
  apply exists_congr
  intro t
  rw [mem_matchingNodes, ← and_or_left]
  rfl

theorem matches_foldr (clauses : List Sql.Tri) :
    Sql.Matches (clauses.foldr Sql.or (some false)) ↔ ∃ c ∈ clauses, Sql.Matches c := by
  induction clauses with
  | nil => simp
  | cons c clauses ih => rw [List.foldr_cons, Sql.matches_or, ih, List.exists_mem_cons_iff]

theorem onMatchingNode_iff {tenant : Tenant} :
    onMatchingNode f (matchingNodes f nodes (likePattern term) (likePrefixPattern term))
        (likePattern term) (likePrefixPattern term) placements tenant = true ↔
      ∃ state ∈ placements, state.tenantId = tenant.id ∧
        (state.misplaced = true ∨ tenant.nodeName = none) ∧
          ∃ node ∈ state.actualNodes, Known f nodes term node := by
  rw [onMatchingNode, List.any_eq_true]
  apply exists_congr
  intro state
  apply and_congr_right
  intro _
  rw [Bool.and_eq_true_iff, decide_eq_true_eq, Sql.matches_and, Sql.matches_or, List.any_eq_true,
    and_assoc]
  simp only [Sql.matches_some, beq_iff_eq, Sql.isNull, Option.isNone_iff_eq_none, decide_eq_true_eq,
    matches_known, Option.mem_def, Option.some.injEq, exists_eq_left']

theorem exists_mem_append {a b : List Sql.Tri} :
    (∃ x ∈ a ++ b, Sql.Matches x) ↔ (∃ x ∈ a, Sql.Matches x) ∨ ∃ x ∈ b, Sql.Matches x := by
  simp only [List.mem_append, or_and_right, exists_or]

theorem exists_mem_if {p : Prop} [Decidable p] {c : Sql.Tri} :
    (∃ x ∈ if p then [c] else [], Sql.Matches x) ↔ p ∧ Sql.Matches c := by
  by_cases h : p
  · rw [if_pos h, List.exists_mem_cons_iff]
    simp [h]
  · simp [h]

/-- The search finds the tenants that it is for: whatever characters a term has, they are looked for
as they are. -/
theorem tenantSearchCondition_iff (f : Folding) (nodes : List ClusterNode) (placements : List Placement)
    (term : Text) (tenant : Tenant) :
    Sql.Matches (tenantSearchCondition f nodes placements term tenant) ↔
      Found f nodes placements (trim term) tenant := by
  have hauto : Sql.Matches (Sql.isNull tenant.nodeName) ↔ tenant.nodeName = none := by
    rw [Sql.isNull, Sql.matches_some, Option.isNone_iff_eq_none]
  have hmisplaced : Sql.Matches (some (placements.any fun state =>
      state.tenantId == tenant.id && state.misplaced)) ↔
        ∃ state ∈ placements, state.tenantId = tenant.id ∧ state.misplaced = true := by
    simp only [Sql.matches_some, List.any_eq_true, Bool.and_eq_true, beq_iff_eq]
  have hnode : (∃ t ∈ tenant.nodeName, Known f nodes (trim term) t) ↔
      (∃ t ∈ tenant.nodeName, Named f (trim term) t) ∨ ∃ t ∈ tenant.nodeName, t ∈ matchingNodes f nodes
        (likePattern (trim term)) (likePrefixPattern (trim term)) := by
    rw [← matches_known, Sql.matches_or, matches_named, matches_isIn]
  rw [tenantSearchCondition, matches_foldr, exists_mem_append, exists_mem_append, exists_mem_if,
    exists_mem_if, hauto, hmisplaced, List.exists_mem_cons_iff, List.exists_mem_cons_iff,
    List.exists_mem_cons_iff, List.exists_mem_cons_iff, List.exists_mem_cons_iff,
    List.exists_mem_cons_iff, matches_contains, matches_contains, matches_contains, matches_named,
    matches_isIn, Sql.matches_some, onMatchingNode_iff, Found, hnode]
  simp only [Option.mem_def, Option.some.injEq, exists_eq_left', List.not_mem_nil, false_and,
    exists_false, or_false, or_assoc]

end Search

/-! ## A database in ASCII -/

theorem isSpecial_toLower (c : Char) :
    isSpecial c.toLower = isSpecial c ∧ (isSpecial c = true → c.toLower = c) := by
  by_cases hc : IsAscii c
  · exact ascii_induction (p := fun c => isSpecial c.toLower = isSpecial c ∧
      (isSpecial c = true → c.toLower = c)) (by decide) hc
  · rw [toLower_of_not_ascii hc]
    exact ⟨rfl, fun _ => rfl⟩

def asciiFolding : Folding where
  fold := Char.toLower
  special c := (isSpecial_toLower c).2
  plain c := (isSpecial_toLower c).1

def alphaNodes : List ClusterNode :=
  [⟨"worker-1.example".toList, some "100% Alpha".toList, none⟩, ⟨"worker-2.example".toList, none, none⟩]

def alphaPlacements : List Placement := [⟨['t', '1'], true, ["worker-1.example".toList]⟩]

def alphaTenant : Tenant :=
  ⟨['t', '1'], "Shop".toList, "a@shop.example".toList, some "worker-2.example".toList, none⟩

/-- A tenant off its node is found by the alias of the node that it runs on. -/
theorem tenantSearchCondition_iff_alpha :
    Sql.Matches (tenantSearchCondition asciiFolding alphaNodes alphaPlacements " % ALPHA ".toList
      alphaTenant) := by
  apply (tenantSearchCondition_iff asciiFolding alphaNodes alphaPlacements _ alphaTenant).mpr
  refine .inr (.inr (.inr (.inr (.inl ⟨_, List.mem_cons_self, rfl, .inl rfl, _, List.mem_cons_self, .inr ?_⟩))))
  exact ⟨_, List.mem_cons_self, .inl rfl, .inl ⟨_, rfl, "100".toList, [], rfl⟩⟩

end Insula.TenantSearch
