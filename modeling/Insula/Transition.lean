import Mathlib.Data.Option.Basic

/-!
# Runs of a partial step function

A system is a step function `step : σ → ε → Option σ`; an event that cannot happen in a state
gives `none`. `exec` runs a list of events. `Along` says that every step of a run satisfies a
predicate of the state before, the event and the state after, which is how an assumption on the
environment of a run is written down. The rules below carry an invariant from one step to a whole
run, with and without such an assumption.
-/

namespace Insula.Transition

variable {σ ε : Type*} (step : σ → ε → Option σ) {es : List ε} {P Q : σ → ε → σ → Prop}
  {I : σ → Prop}

def exec : σ → List ε → Option σ
  | s, [] => some s
  | s, e :: es => (step s e).bind fun s' => exec s' es

/-- Every step that the run from `s` along the events takes satisfies `P`. -/
def Along (P : σ → ε → σ → Prop) : σ → List ε → Prop
  | _, [] => True
  | s, e :: es => ∀ s', step s e = some s' → P s e s' ∧ Along P s' es

instance decidableAlong (P : σ → ε → σ → Prop) [∀ s e s', Decidable (P s e s')] :
    ∀ (s : σ) (es : List ε), Decidable (Along step P s es)
  | _, [] => isTrue trivial
  | s, e :: es =>
    match h : step s e with
    | none => isTrue fun s' hs' => by simp [h] at hs'
    | some m =>
      have := decidableAlong P m es
      decidable_of_iff (P s e m ∧ Along step P m es) (by
        constructor
        · intro hm s' hs'
          cases h.symm.trans hs'
          exact hm
        · intro hall
          exact hall m h)

theorem exec_cons (s : σ) (e : ε) (es : List ε) :
    exec step s (e :: es) = (step s e).bind fun s' => exec step s' es := rfl

theorem exec_cons_eq_some {s s' : σ} {e : ε} :
    exec step s (e :: es) = some s' ↔ ∃ m, step s e = some m ∧ exec step m es = some s' := by
  rw [exec_cons, Option.bind_eq_some_iff]

theorem along_append {s m : σ} {es' : List ε} (h : Along step P s (es ++ es'))
    (hm : exec step s es = some m) : Along step P s es ∧ Along step P m es' := by
  induction es generalizing s with
  | nil =>
    cases hm
    exact ⟨trivial, h⟩
  | cons e es ih =>
    obtain ⟨a, ha, hrest⟩ := (exec_cons_eq_some step).mp hm
    have htail := ih (h a ha).2 hrest
    refine ⟨?_, htail.2⟩
    intro b hb
    have hab : a = b := Option.some.inj (ha.symm.trans hb)
    subst hab
    exact ⟨(h a ha).1, htail.1⟩

theorem along_cons_of {s m : σ} {e : ε} (hm : step s e = some m) (hP : P s e m)
    (h : Along step P m es) : Along step P s (e :: es) := by
  intro s' hs'
  cases hm.symm.trans hs'
  exact ⟨hP, h⟩

theorem along_append_of {s : σ} {es' : List ε} (h : Along step P s es)
    (h' : ∀ m, exec step s es = some m → Along step P m es') : Along step P s (es ++ es') := by
  induction es generalizing s with
  | nil => exact h' s rfl
  | cons e es ih =>
    intro m hm
    refine ⟨(h m hm).1, ih (h m hm).2 ?_⟩
    intro m' hm'
    exact h' m' ((exec_cons_eq_some step).mpr ⟨m, hm, hm'⟩)

theorem along_mono (hPQ : ∀ s e s', P s e s' → Q s e s') {s : σ} (h : Along step P s es) :
    Along step Q s es := by
  induction es generalizing s with
  | nil => trivial
  | cons e es ih => exact fun s' hs' => ⟨hPQ _ _ _ (h s' hs').1, ih (h s' hs').2⟩

theorem along_and {s : σ} (hP : Along step P s es) (hQ : Along step Q s es) :
    Along step (fun s e s' => P s e s' ∧ Q s e s') s es := by
  induction es generalizing s with
  | nil => trivial
  | cons e es ih =>
    intro s' hs'
    obtain ⟨hPs, hPes⟩ := hP s' hs'
    obtain ⟨hQs, hQes⟩ := hQ s' hs'
    exact ⟨⟨hPs, hQs⟩, ih hPes hQes⟩

/-- A condition that the events alone guarantee. -/
theorem along_of_forall (h : ∀ e ∈ es, ∀ s s', P s e s') (s : σ) : Along step P s es := by
  induction es generalizing s with
  | nil => trivial
  | cons e es ih =>
    intro s' _
    exact ⟨h e List.mem_cons_self s s', ih (fun e' he' => h e' (List.mem_cons_of_mem e he')) s'⟩

/-- An invariant of every step that satisfies `P` is an invariant of every run along `P`. -/
theorem exec_invariant_along (hstep : ∀ s e s', I s → step s e = some s' → P s e s' → I s')
    {s s' : σ} (hI : I s) (hP : Along step P s es) (h : exec step s es = some s') : I s' := by
  induction es generalizing s with
  | nil =>
    cases h
    exact hI
  | cons e es ih =>
    obtain ⟨m, hm, hrest⟩ := (exec_cons_eq_some step).mp h
    obtain ⟨hPm, hrestP⟩ := hP m hm
    exact ih (hstep s e m hI hm hPm) hrestP hrest

theorem exec_invariant (hstep : ∀ s e s', I s → step s e = some s' → I s') {s s' : σ} (hI : I s)
    (h : exec step s es = some s') : I s' := by
  induction es generalizing s with
  | nil =>
    cases h
    exact hI
  | cons e es ih =>
    obtain ⟨m, hm, hrest⟩ := (exec_cons_eq_some step).mp h
    exact ih (hstep s e m hI hm) hrest

/-- What every step from a state of the invariant satisfies holds along every run. -/
theorem along_of_invariant (hstep : ∀ s e s', I s → step s e = some s' → I s')
    (hP : ∀ s e s', I s → step s e = some s' → P s e s') {s : σ} (hI : I s) :
    Along step P s es := by
  induction es generalizing s with
  | nil => trivial
  | cons e es ih =>
    intro m hm
    exact ⟨hP s e m hI hm, ih (hstep s e m hI hm)⟩

/-- What every step from a state of the invariant satisfies where `P` holds, holds along every run
along `P`. -/
theorem along_of_invariant_along (hstep : ∀ s e s', I s → step s e = some s' → P s e s' → I s')
    (hQ : ∀ s e s', I s → step s e = some s' → P s e s' → Q s e s') {s : σ} (hI : I s)
    (hP : Along step P s es) : Along step Q s es := by
  induction es generalizing s with
  | nil => trivial
  | cons e es ih =>
    intro m hm
    obtain ⟨hPm, hrestP⟩ := hP m hm
    exact ⟨hQ s e m hI hm hPm, ih (hstep s e m hI hm hPm) hrestP⟩

/-- A relation that is reflexive, transitive and respected by every step relates the two ends of
every run. -/
theorem exec_rel {R : σ → σ → Prop} (hrefl : ∀ s, R s s) (htrans : ∀ a b c, R a b → R b c → R a c)
    (hstep : ∀ s e s', step s e = some s' → R s s') {s s' : σ} (h : exec step s es = some s') :
    R s s' := by
  induction es generalizing s with
  | nil =>
    cases h
    exact hrefl _
  | cons e es ih =>
    obtain ⟨m, hm, hrest⟩ := (exec_cons_eq_some step).mp h
    exact htrans s m s' (hstep s e m hm) (ih hrest)

end Insula.Transition
