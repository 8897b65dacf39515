import Mathlib.Data.List.Basic

/-!
# Breadth-first search

The search takes the paths of a queue in order and puts the longer paths behind it, one for every
node that was not visited. It ends, it finds a path when there is one, and what it finds is a
shortest one.
-/

namespace Insula.BreadthFirst

variable {V : Type*} [DecidableEq V]

structure Graph (V : Type*) where
  next : V → List V
  nodes : List V
  closed : ∀ x, ∀ y ∈ next x, y ∈ nodes

inductive Walks (g : Graph V) (start : V) : List V → V → Prop
  | nil : Walks g start [] start
  | snoc {path : List V} {x y : V} : Walks g start path x → y ∈ g.next x → Walks g start (path ++ [y]) y

variable (g : Graph V) (goal : V)

def explore (path : List V) : List V → List (V × List V) → List V →
    List V ⊕ (List (V × List V) × List V)
  | [], queue, visited => .inr (queue, visited)
  | n :: ns, queue, visited =>
    if n ∈ visited then explore path ns queue visited
    else if n = goal then .inl (path ++ [n])
    else explore path ns (queue ++ [(n, path ++ [n])]) (visited ++ [n])

def remaining (queue : List (V × List V)) (visited : List V) : ℕ :=
  (g.nodes.filter (· ∉ visited)).length + queue.length

theorem remaining_visit {n : V} {queue : List (V × List V)} {visited : List V} (e : V × List V)
    (hnode : n ∈ g.nodes) (hnew : n ∉ visited) :
    remaining g (queue ++ [e]) (visited ++ [n]) ≤ remaining g queue visited := by
  have hsub : (g.nodes.filter (· ∉ visited ++ [n])).Sublist (g.nodes.filter (· ∉ visited)) := by
    apply List.monotone_filter_right
    intro x hx
    simp only [List.mem_append, not_or, decide_eq_true_eq] at hx ⊢
    exact hx.1
  have hlt : (g.nodes.filter (· ∉ visited ++ [n])).length < (g.nodes.filter (· ∉ visited)).length := by
    apply Nat.lt_of_le_of_ne hsub.length_le
    intro heq
    have hmem : n ∈ g.nodes.filter (· ∉ visited) := List.mem_filter.mpr ⟨hnode, by simpa using hnew⟩
    rw [← hsub.eq_of_length heq] at hmem
    simp at hmem
  unfold remaining
  rw [List.length_append, List.length_singleton]
  omega

theorem remaining_explore {path ns : List V} {queue queue' : List (V × List V)}
    {visited visited' : List V} (hns : ∀ n ∈ ns, n ∈ g.nodes)
    (h : explore goal path ns queue visited = .inr (queue', visited')) :
    remaining g queue' visited' ≤ remaining g queue visited := by
  induction ns generalizing queue visited with
  | nil =>
    cases h
    exact Nat.le_refl _
  | cons n ns ih =>
    have htail : ∀ n ∈ ns, n ∈ g.nodes := fun x hx => hns x (List.mem_cons_of_mem _ hx)
    unfold explore at h
    split at h
    · exact ih htail h
    next hnew =>
      split at h
      · cases h
      · exact Nat.le_trans (ih htail h) (remaining_visit g _ (hns n List.mem_cons_self) hnew)

def search (queue : List (V × List V)) (visited : List V) : List V :=
  match queue with
  | [] => []
  | (x, path) :: queue =>
    match _h : explore goal path (g.next x) queue visited with
    | .inl found => found
    | .inr (queue, visited) => search queue visited
termination_by remaining g queue visited
decreasing_by
  have hle := remaining_explore g goal (g.closed x) _h
  unfold remaining at hle ⊢
  rw [List.length_cons]
  omega

def shortestPath (start : V) : List V :=
  if start = goal then [] else search g goal [(start, [])] [start]

/-! ## Walks -/

/-- A walk that is not shorter than another to the same node. -/
def Shortest (g : Graph V) (start : V) (path : List V) (x : V) : Prop :=
  Walks g start path x ∧ ∀ other, Walks g start other x → path.length ≤ other.length

omit [DecidableEq V] in
theorem Walks.nil_shortest (start : V) : Shortest g start [] start := by
  refine ⟨.nil, ?_⟩
  intro other _
  exact Nat.zero_le _

/-! ## The queue -/

section Queue

variable {g goal} {start x y : V} {path ns other : List V} {queue queue' : List (V × List V)}
  {visited visited' : List V}

/-- What holds while the nodes `ns` after `x` are explored. -/
structure Searching (g : Graph V) (goal start x : V) (path ns : List V) (queue : List (V × List V))
    (visited : List V) : Prop where
  shortest : Shortest g start path x
  entries : ∀ e ∈ queue, Shortest g start e.2 e.1 ∧ path.length ≤ e.2.length ∧
    e.2.length ≤ path.length + 1
  sorted : (queue.map fun e => e.2.length).Pairwise (· ≤ ·)
  start_visited : start ∈ visited
  goal_new : goal ∉ visited
  nodes : ∀ n ∈ ns, n ∈ g.next x
  /-- A node that was visited is in the queue, or what is after it was visited or will be. -/
  frontier : ∀ v ∈ visited, (∃ e ∈ queue, e.1 = v) ∨
    ∀ w ∈ g.next v, w ∈ visited ∨ v = x ∧ w ∈ ns

/-- A node that was not visited is further away than the one that is explored. -/
theorem Searching.far (h : Searching g goal start x path ns queue visited)
    (hwalk : Walks g start other y) (hnew : y ∉ visited) : path.length + 1 ≤ other.length := by
  induction hwalk with
  | nil => exact absurd h.start_visited hnew
  | @snoc other b c hwalk hedge ih =>
    rw [List.length_append, List.length_singleton]
    by_cases hb : b ∈ visited
    · rcases h.frontier b hb with ⟨e, he, rfl⟩ | hnext
      · obtain ⟨⟨-, hmin⟩, hle, -⟩ := h.entries e he
        have hother := hmin other hwalk
        omega
      · rcases hnext c hedge with hc | ⟨rfl, -⟩
        · exact absurd hc hnew
        · have hother := h.shortest.2 other hwalk
          omega
    · have hother := ih hb
      omega

theorem Searching.push {n : V} (h : Searching g goal start x path (n :: ns) queue visited)
    (hnew : n ∉ visited) (hgoal : n ≠ goal) :
    Searching g goal start x path ns (queue ++ [(n, path ++ [n])]) (visited ++ [n]) where
  shortest := h.shortest
  entries := by
    intro e he
    rcases List.mem_append.mp he with he | he
    · exact h.entries e he
    · rw [List.mem_singleton.mp he]
      dsimp only
      rw [List.length_append, List.length_singleton]
      refine ⟨⟨h.shortest.1.snoc (h.nodes n List.mem_cons_self), ?_⟩, by omega, by omega⟩
      intro other hwalk
      rw [List.length_append, List.length_singleton]
      exact h.far hwalk hnew
  sorted := by
    rw [List.map_append, List.pairwise_append]
    refine ⟨h.sorted, List.pairwise_singleton _ _, ?_⟩
    intro a ha b hb
    obtain ⟨e, he, rfl⟩ := List.mem_map.mp ha
    rw [List.map_singleton, List.mem_singleton] at hb
    rw [hb, List.length_append, List.length_singleton]
    exact (h.entries e he).2.2
  start_visited := List.mem_append_left _ h.start_visited
  goal_new := by
    rw [List.mem_append, List.mem_singleton, not_or]
    exact ⟨h.goal_new, Ne.symm hgoal⟩
  nodes := fun m hm => h.nodes m (List.mem_cons_of_mem _ hm)
  frontier := by
    intro v hv
    rcases List.mem_append.mp hv with hv | hv
    · rcases h.frontier v hv with ⟨e, he, hev⟩ | hnext
      · exact .inl ⟨e, List.mem_append_left _ he, hev⟩
      · right
        intro w hw
        rcases hnext w hw with hw | ⟨hvx, hw⟩
        · exact .inl (List.mem_append_left _ hw)
        · rcases List.mem_cons.mp hw with rfl | hw
          · exact .inl (List.mem_append_right _ List.mem_cons_self)
          · exact .inr ⟨hvx, hw⟩
    · exact .inl ⟨_, List.mem_append_right _ List.mem_cons_self, (List.mem_singleton.mp hv).symm⟩

omit [DecidableEq V] in
theorem Searching.skip {n : V} (h : Searching g goal start x path (n :: ns) queue visited)
    (hold : n ∈ visited) : Searching g goal start x path ns queue visited where
  shortest := h.shortest
  entries := h.entries
  sorted := h.sorted
  start_visited := h.start_visited
  goal_new := h.goal_new
  nodes := fun m hm => h.nodes m (List.mem_cons_of_mem _ hm)
  frontier := by
    intro v hv
    rcases h.frontier v hv with hqueued | hnext
    · exact .inl hqueued
    · right
      intro w hw
      rcases hnext w hw with hw | ⟨hvx, hw⟩
      · exact .inl hw
      · rcases List.mem_cons.mp hw with rfl | hw
        · exact .inl hold
        · exact .inr ⟨hvx, hw⟩

theorem Searching.explore_inl {found : List V} (h : Searching g goal start x path ns queue visited)
    (hfound : explore goal path ns queue visited = .inl found) :
    found ≠ [] ∧ Shortest g start found goal := by
  induction ns generalizing queue visited with
  | nil => cases hfound
  | cons n ns ih =>
    unfold explore at hfound
    split at hfound
    next hold => exact ih (h.skip hold) hfound
    next hnew =>
      split at hfound
      next hgoal =>
        cases hfound
        subst hgoal
        refine ⟨by simp, h.shortest.1.snoc (h.nodes n List.mem_cons_self), ?_⟩
        intro other hwalk
        rw [List.length_append, List.length_singleton]
        exact h.far hwalk hnew
      next hgoal => exact ih (h.push hnew hgoal) hfound

theorem Searching.explore_inr (h : Searching g goal start x path ns queue visited)
    (hfound : explore goal path ns queue visited = .inr (queue', visited')) :
    Searching g goal start x path [] queue' visited' := by
  induction ns generalizing queue visited with
  | nil =>
    cases hfound
    exact h
  | cons n ns ih =>
    unfold explore at hfound
    split at hfound
    next hold => exact ih (h.skip hold) hfound
    next hnew =>
      split at hfound
      · cases hfound
      next hgoal => exact ih (h.push hnew hgoal) hfound

omit [DecidableEq V] in
theorem Searching.pop (h : Searching g goal start x path [] ((y, other) :: queue) visited) :
    Searching g goal start y other (g.next y) queue visited where
  shortest := (h.entries _ List.mem_cons_self).1
  entries := by
    intro e he
    obtain ⟨hshortest, -, hle⟩ := h.entries e (List.mem_cons_of_mem _ he)
    have hfirst := (List.pairwise_cons.mp h.sorted).1 _ (List.mem_map_of_mem he)
    have hlow := (h.entries _ List.mem_cons_self).2.1
    dsimp only at hfirst hlow
    exact ⟨hshortest, hfirst, by omega⟩
  sorted := (List.pairwise_cons.mp h.sorted).2
  start_visited := h.start_visited
  goal_new := h.goal_new
  nodes := fun _ hn => hn
  frontier := by
    intro v hv
    rcases h.frontier v hv with ⟨e, he, hev⟩ | hnext
    · rcases List.mem_cons.mp he with rfl | he
      · right
        intro w hw
        dsimp only at hev
        subst hev
        exact .inr ⟨rfl, hw⟩
      · exact .inl ⟨e, he, hev⟩
    · right
      intro w hw
      rcases hnext w hw with hw | ⟨-, hw⟩
      · exact .inl hw
      · cases hw

omit [DecidableEq V] in
/-- An empty queue leaves no way out of what was visited. -/
theorem Searching.unreachable (h : Searching g goal start x path [] [] visited)
    (hwalk : Walks g start other y) : y ∈ visited := by
  induction hwalk with
  | nil => exact h.start_visited
  | @snoc other b c _ hedge ih =>
    rcases h.frontier b ih with ⟨e, he, -⟩ | hnext
    · cases he
    · rcases hnext c hedge with hc | ⟨-, hc⟩
      · exact hc
      · cases hc

end Queue

/-! ## What is found -/

section Found

variable {g goal} {start : V}

def Correct (g : Graph V) (start goal : V) (found : List V) : Prop :=
  found ≠ [] ∧ Shortest g start found goal ∨ found = [] ∧ ∀ other, ¬ Walks g start other goal

theorem search_correct {x : V} {path : List V} (queue : List (V × List V)) (visited : List V)
    (h : Searching g goal start x path [] queue visited) :
    Correct g start goal (search g goal queue visited) := by
  induction queue, visited using search.induct g goal generalizing x path with
  | case1 visited =>
    rw [search]
    exact .inr ⟨rfl, fun other hwalk => h.goal_new (h.unreachable hwalk)⟩
  | case2 visited y other queue found hfound =>
    rw [search]
    split
    next found' hfound' =>
      exact .inl (h.pop.explore_inl hfound')
    next hfound' =>
      rw [hfound] at hfound'
      cases hfound'
  | case3 visited y other queue queue' visited' hfound ih =>
    rw [search]
    split
    next hfound' =>
      rw [hfound] at hfound'
      cases hfound'
    next queue'' visited'' hfound' =>
      rw [hfound] at hfound'
      cases hfound'
      exact ih (h.pop.explore_inr hfound)

theorem shortestPath_correct (h : start ≠ goal) : Correct g start goal (shortestPath g goal start) := by
  unfold shortestPath
  rw [if_neg h]
  have hstart : Searching g goal start start [] [] [(start, [])] [start] :=
    { shortest := Walks.nil_shortest g start
      entries := by
        intro e he
        rw [List.mem_singleton.mp he]
        exact ⟨Walks.nil_shortest g start, Nat.le_refl _, Nat.le_succ _⟩
      sorted := List.pairwise_singleton _ _
      start_visited := List.mem_cons_self
      goal_new := by
        rw [List.mem_singleton]
        exact Ne.symm h
      nodes := by
        intro n hn
        cases hn
      frontier := by
        intro v hv
        exact .inl ⟨_, List.mem_cons_self, (List.mem_singleton.mp hv).symm⟩ }
  exact search_correct _ _ hstart

end Found

end Insula.BreadthFirst
