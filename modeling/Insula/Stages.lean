import Insula.Program

/-!
# Processes that keep to a discipline

The world may keep, for every process, the state of a discipline: what the process knows, or has
last done. What is allowed may depend on the kind of the process. When every operation moves that
state as the discipline says, and the programs follow it, then in every run what is left of a
process follows it from the state it is in.
-/

namespace Insula.Concurrent

open Program

variable {W K Op : Type} {Ans : Op → Type} {R B : Type} [DecidableEq Op]

section Definitions

variable (D : K → Discipline Op Ans B) (stage : W → ℕ → B)

/-- An operation moves the state of its own process, as the discipline says, and of no other. -/
def MovesStages (handle : W → ℕ → (o : Op) → Ans o → Option W) : Prop :=
  ∀ kind w i o r w', handle w i o r = some w' →
    ∃ b, (D kind).next (stage w i) o r = some b ∧ stage w' = Function.update (stage w) i b

/-- Processes that have not begun are in the first state. -/
def Fresh (first : B) (w : W) (n : ℕ) : Prop := ∀ i, n ≤ i → stage w i = first

/-- What is left of a process follows its discipline, from the state it is in, to an end that may
depend on the kind. -/
def OnCourseTo (Q : K → B → R → Prop) (w : W) (i : ℕ) (kind : K) (p : Program Op Ans R) : Prop :=
  Follows (D kind) (Q kind) p (stage w i)

/-- What is left of a process follows its discipline, from the state it is in. -/
def OnCourse (Q : B → R → Prop) (w : W) (i : ℕ) (kind : K) (p : Program Op Ans R) : Prop :=
  Follows (D kind) Q p (stage w i)

end Definitions

variable {D : K → Discipline Op Ans B} {stage : W → ℕ → B} {first : B} {Q : B → R → Prop}
  {program : K → Program Op Ans R} {handle : W → ℕ → (o : Op) → Ans o → Option W}
  {s t : Config W K Op Ans R} {e : Event K Op Ans}

omit [DecidableEq Op] in
/-- Nothing has begun. -/
theorem onCourseTo_of_start {Q : K → B → R → Prop} (hprocs : s.procs = [])
    (hstage : ∀ i, stage s.world i = first) :
    Holds (Fresh stage first) (OnCourseTo D stage Q) s := by
  refine ⟨fun i _ => hstage i, ?_⟩
  intro i kind p hi
  simp [hprocs] at hi

omit [DecidableEq Op] in
theorem holds_of_start (hprocs : s.procs = []) (hstage : ∀ i, stage s.world i = first) :
    Holds (Fresh stage first) (OnCourse D stage Q) s :=
  onCourseTo_of_start hprocs hstage

theorem onCourseTo_step {Q : K → B → R → Prop} (hmoves : MovesStages D stage handle)
    (hprogram : ∀ kind, Follows (D kind) (Q kind) (program kind) first)
    (h : Holds (Fresh stage first) (OnCourseTo D stage Q) s)
    (hs : step program handle s e = some t) :
    Holds (Fresh stage first) (OnCourseTo D stage Q) t := by
  apply holds_step (C := fun _ _ _ => True) _ _ _ h hs trivial
  · intro w n kind hfresh
    refine ⟨fun i hi => hfresh i (Nat.le_of_succ_le hi), ?_⟩
    unfold OnCourseTo
    rw [hfresh n (Nat.le_refl n)]
    exact hprogram kind
  · intro s i kind o next r w hholds hi hw _
    obtain ⟨b, hb, hstage⟩ := hmoves kind s.world i o r w hw
    have hlt := Lookup.lt_length_of_getElem? hi
    constructor
    · intro j hj
      have hne : j ≠ i := by omega
      rw [hstage, Function.update_of_ne hne]
      exact hholds.1 j hj
    · have hfollows := hholds.2 i kind _ hi
      unfold OnCourseTo at hfollows ⊢
      rw [hstage, Function.update_self]
      exact hfollows.2 r b hb
  · intro s i kind o next r w hholds _ hw _ j kind' p hne hj
    obtain ⟨b, -, hstage⟩ := hmoves kind s.world i o r w hw
    have hfollows := hholds.2 j kind' p hj
    unfold OnCourseTo at hfollows ⊢
    rw [hstage, Function.update_of_ne hne]
    exact hfollows

theorem onCourse_step (hmoves : MovesStages D stage handle)
    (hprogram : ∀ kind, Follows (D kind) Q (program kind) first)
    (h : Holds (Fresh stage first) (OnCourse D stage Q) s) (hs : step program handle s e = some t) :
    Holds (Fresh stage first) (OnCourse D stage Q) t :=
  onCourseTo_step (fun kind => hmoves kind) hprogram h hs

theorem allowed_stepTo {Q : K → B → R → Prop}
    (h : Holds (Fresh stage first) (OnCourseTo D stage Q) s)
    (hs : step program handle s e = some t) :
    t.world = s.world ∨ ∃ i o r kind next, e = .act i o r ∧
      s.procs[i]? = some ⟨kind, some (.call o next)⟩ ∧ (D kind).allowed (stage s.world i) o ∧
      handle s.world i o r = some t.world := by
  rcases step_cases program handle hs with ⟨kind, rfl, rfl⟩ |
    ⟨i, o, r, kind, next, w, rfl, hi, hw, rfl⟩ | ⟨i, o, kind, next, rfl, hi, rfl⟩
  · exact .inl rfl
  · have hfollows := h.2 i kind _ hi
    exact .inr ⟨i, o, r, kind, next, rfl, hi, hfollows.1, hw⟩
  · exact .inl rfl

theorem allowed_step (h : Holds (Fresh stage first) (OnCourse D stage Q) s)
    (hs : step program handle s e = some t) :
    t.world = s.world ∨ ∃ i o r kind next, e = .act i o r ∧
      s.procs[i]? = some ⟨kind, some (.call o next)⟩ ∧ (D kind).allowed (stage s.world i) o ∧
      handle s.world i o r = some t.world :=
  allowed_stepTo h hs

end Insula.Concurrent
