import Insula.Lookup
import Insula.Transition

/-!
# Concurrent programs over a shared world

A `Program` calls operations of a shared world and goes on with their answers. `Follows` judges a
program by a `Discipline`: a state of what the caller knows, which operations it may call in it and
what an answer teaches it. Any number of processes run programs against one world, one operation at
a time in any order; a process may also stop for good before one of its operations. An assertion
about every process, which may mention the world, is an invariant when the process's own operations
establish it and those of the others keep it.
-/

namespace Insula

inductive Program (Op : Type) (Ans : Op → Type) (α : Type)
  | pure (a : α)
  | call (o : Op) (next : Ans o → Program Op Ans α)

namespace Program

variable {Op : Type} {Ans : Op → Type} {α β : Type}

def bind : Program Op Ans α → (α → Program Op Ans β) → Program Op Ans β
  | pure a, f => f a
  | call o next, f => call o (fun r => bind (next r) f)

instance : Monad (Program Op Ans) where
  pure := pure
  bind := bind

def perform (o : Op) : Program Op Ans (Ans o) := call o pure

/-- What a caller may do in each state of its knowledge, and what it knows after an answer; `none`
for an answer that does not occur. -/
structure Discipline (Op : Type) (Ans : Op → Type) (B : Type) where
  allowed : B → Op → Prop
  next : B → (o : Op) → Ans o → Option B

variable {B : Type} (D : Discipline Op Ans B)

/-- Started in a state, the program keeps to the discipline and ends in a state and with a result
that satisfy `Q`. -/
def Follows (Q : B → α → Prop) : Program Op Ans α → B → Prop
  | pure a, b => Q b a
  | call o next, b => D.allowed b o ∧ ∀ r b', D.next b o r = some b' → Follows Q (next r) b'

variable {D} {Q : B → α → Prop} {b : B}

@[simp] theorem follows_pure {a : α} :
    Follows D Q (Pure.pure a) b ↔ Q b a := Iff.rfl

@[simp] theorem follows_ret {a : α} :
    Follows D Q (Program.pure a) b ↔ Q b a := Iff.rfl

theorem follows_bind {Q : B → β → Prop} {p : Program Op Ans α} {f : α → Program Op Ans β} :
    Follows D Q (p >>= f) b ↔ Follows D (fun b' a => Follows D Q (f a) b') p b := by
  induction p generalizing b with
  | pure a => rfl
  | call o next ih =>
    change (D.allowed b o ∧ ∀ r b', _ → Follows D Q (next r >>= f) b') ↔ _
    simp only [ih]
    rfl

@[simp] theorem follows_perform_bind {Q : B → β → Prop} {o : Op} {f : Ans o → Program Op Ans β} :
    Follows D Q (perform o >>= f) b ↔
      D.allowed b o ∧ ∀ r b', D.next b o r = some b' → Follows D Q (f r) b' := Iff.rfl

@[simp] theorem follows_perform {Q : B → Ans o → Prop} : Follows D Q (perform o) b ↔
      D.allowed b o ∧ ∀ r b', D.next b o r = some b' → Q b' r := Iff.rfl

/-- An operation that is always allowed and teaches nothing. -/
def Discipline.Quiet (D : Discipline Op Ans B) (o : Op) : Prop :=
  ∀ b, D.allowed b o ∧ ∀ r, D.next b o r = some b

theorem follows_quiet_bind {Q : B → β → Prop} {o : Op} (ho : D.Quiet o)
    {f : Ans o → Program Op Ans β} (h : ∀ r, Follows D Q (f r) b) :
    Follows D Q (perform o >>= f) b := by
  refine ⟨(ho b).1, ?_⟩
  intro r b' hb'
  rw [(ho b).2 r] at hb'
  cases hb'
  exact h r

theorem follows_quiet {Q : B → Ans o → Prop} (ho : D.Quiet o) (h : ∀ r, Q b r) :
    Follows D Q (perform o) b := by
  refine ⟨(ho b).1, ?_⟩
  intro r b' hb'
  rw [(ho b).2 r] at hb'
  cases hb'
  exact h r

theorem follows_mono {Q' : B → α → Prop} (hQ : ∀ b a, Q b a → Q' b a) {p : Program Op Ans α}
    (h : Follows D Q p b) : Follows D Q' p b := by
  induction p generalizing b with
  | pure a => exact hQ b a h
  | call o next ih => exact ⟨h.1, fun r b' hb' => ih r (h.2 r b' hb')⟩

/-! ## Programs that run alone -/

section Alone

variable {σ : Type} (respond : σ → (o : Op) → Ans o × σ)

def runAlone : Program Op Ans α → σ → α × σ
  | pure a, s => (a, s)
  | call o next, s => runAlone (next (respond s o).1) (respond s o).2

theorem runAlone_bind {p : Program Op Ans α} {f : α → Program Op Ans β} {s : σ} :
    runAlone respond (p >>= f) s =
      runAlone respond (f (runAlone respond p s).1) (runAlone respond p s).2 := by
  induction p generalizing s with
  | pure a => rfl
  | call o next ih => exact ih _

end Alone

/-! ## Programs that throw -/

section Throwing

variable {ε : Type} {Val : Op → Type}

/-- A program whose operations may throw, and which may throw itself. -/
abbrev Attempt (ε : Type) (Op : Type) (Val : Op → Type) :=
  ExceptT ε (Program Op fun o => Except ε (Val o))

def request (o : Op) : Attempt ε Op Val (Val o) := ExceptT.mk (perform o)

variable {E : Discipline Op (fun o => Except ε (Val o)) B} {x : Attempt ε Op Val α} {b : B} {o : Op}

def Resumes (Q : B → Except ε β → Prop) (f : α → Attempt ε Op Val β) (b : B) : Except ε α → Prop
  | .ok a => Follows E Q (f a).run b
  | .error e => Q b (.error e)

def Recovers (Q : B → Except ε α → Prop) (g : ε → Attempt ε Op Val α) (b : B) : Except ε α → Prop
  | .ok a => Q b (.ok a)
  | .error e => Follows E Q (g e).run b

theorem follows_run_bind {Q : B → Except ε β → Prop} {f : α → Attempt ε Op Val β} :
    Follows E Q (x >>= f).run b ↔ Follows E (Resumes (E := E) Q f) x.run b := by
  have hrun : (x >>= f).run = x.run >>= ExceptT.bindCont f := rfl
  rw [hrun, follows_bind]
  constructor
  · apply follows_mono
    intro b' r h
    cases r <;> exact h
  · apply follows_mono
    intro b' r h
    cases r <;> exact h

theorem follows_run_tryCatch {Q : B → Except ε α → Prop} {g : ε → Attempt ε Op Val α} :
    Follows E Q (tryCatch x g).run b ↔ Follows E (Recovers (E := E) Q g) x.run b := by
  change Follows E Q (x.run >>= _) b ↔ _
  rw [follows_bind]
  constructor
  · apply follows_mono
    intro b' r h
    cases r <;> exact h
  · apply follows_mono
    intro b' r h
    cases r <;> exact h

theorem follows_run_request {Q : B → Except ε (Val o) → Prop} :
    Follows E Q (request o : Attempt ε Op Val (Val o)).run b ↔
      E.allowed b o ∧ (∀ a b', E.next b o (.ok a) = some b' → Q b' (.ok a)) ∧
        ∀ e b', E.next b o (.error e) = some b' → Q b' (.error e) := by
  change (E.allowed b o ∧ ∀ r b', E.next b o r = some b' → Q b' r) ↔ _
  constructor
  · intro h
    exact ⟨h.1, fun a b' => h.2 (.ok a) b', fun e b' => h.2 (.error e) b'⟩
  · rintro ⟨hallowed, hok, herror⟩
    refine ⟨hallowed, ?_⟩
    intro r b' hb'
    cases r with
    | ok a => exact hok a b' hb'
    | error e => exact herror e b' hb'

/-! An attempt ends in a state and with a result that satisfy `R`, or throws in a state that satisfies
`X`. -/

def Ends (R : B → α → Prop) (X : B → Prop) (b : B) : Except ε α → Prop
  | .ok a => R b a
  | .error _ => X b

variable {X Y : B → Prop} {R : B → α → Prop} {b : B}

theorem ends_pure {a : α} (h : R b a) :
    Follows E (Ends R X) (Pure.pure a : Attempt ε Op Val α).run b := h

theorem ends_throw {e : ε} (h : X b) :
    Follows E (Ends R X) (throw e : Attempt ε Op Val α).run b := h

theorem ends_request {R : B → Val o → Prop} (ho : E.allowed b o)
    (hok : ∀ a b', E.next b o (.ok a) = some b' → R b' a)
    (herror : ∀ e b', E.next b o (.error e) = some b' → X b') :
    Follows E (Ends R X) (request o : Attempt ε Op Val (Val o)).run b :=
  follows_run_request.mpr ⟨ho, hok, herror⟩

theorem ends_bind {S : B → β → Prop} {f : α → Attempt ε Op Val β}
    (hx : Follows E (Ends R X) x.run b) (hf : ∀ b' a, R b' a → Follows E (Ends S X) (f a).run b') :
    Follows E (Ends S X) (x >>= f).run b := by
  apply follows_run_bind.mpr
  apply follows_mono _ hx
  intro b' r h
  cases r with
  | ok a => exact hf b' a h
  | error e => exact h

theorem ends_tryCatch {g : ε → Attempt ε Op Val α} (hx : Follows E (Ends R Y) x.run b)
    (hg : ∀ b' e, Y b' → Follows E (Ends R X) (g e).run b') :
    Follows E (Ends R X) (tryCatch x g).run b := by
  apply follows_run_tryCatch.mpr
  apply follows_mono _ hx
  intro b' r h
  cases r with
  | ok a => exact h
  | error e => exact hg b' e h

/-- An attempt alone in a world goes on with the answer of its first call, or throws. -/
theorem runAlone_request_bind {σ : Type} (respond : σ → (o : Op) → Except ε (Val o) × σ)
    {f : Val o → Attempt ε Op Val β} {s : σ} : runAlone respond (request o >>= f).run s =
      match (respond s o).1 with
      | .ok a => runAlone respond (f a).run (respond s o).2
      | .error e => (.error e, (respond s o).2) := by
  change runAlone respond (ExceptT.bindCont f (respond s o).1) (respond s o).2 = _
  cases (respond s o).1 <;> rfl

end Throwing

end Program

namespace Concurrent

open Transition Lookup

variable {W K Op : Type} {Ans : Op → Type} {R : Type}

/-- A process: what kind of call it is, and what is left of it; `none` once it has stopped. -/
structure Process (K Op : Type) (Ans : Op → Type) (R : Type) where
  kind : K
  rest : Option (Program Op Ans R)

structure Config (W K Op : Type) (Ans : Op → Type) (R : Type) where
  world : W
  procs : List (Process K Op Ans R)

inductive Event (K Op : Type) (Ans : Op → Type)
  | spawn (kind : K)
  | act (i : ℕ) (o : Op) (r : Ans o)
  | crash (i : ℕ)

variable [DecidableEq Op] (program : K → Program Op Ans R)
  (handle : W → ℕ → (o : Op) → Ans o → Option W) {s s' : Config W K Op Ans R} {e : Event K Op Ans}

/-- The `i`-th process gets the answer `r` to its call `o`, which `handle` must allow. -/
def actStep (s : Config W K Op Ans R) (i : ℕ) (o : Op) (r : Ans o) :
    Process K Op Ans R → Option (Config W K Op Ans R)
  | ⟨kind, some (.call o' next)⟩ =>
    if h : o = o' then
      (handle s.world i o r).map fun w => ⟨w, s.procs.set i ⟨kind, some (next (h ▸ r))⟩⟩
    else none
  | _ => none

def crashStep (s : Config W K Op Ans R) (i : ℕ) :
    Process K Op Ans R → Option (Config W K Op Ans R)
  | ⟨kind, some (.call _ _)⟩ => some { s with procs := s.procs.set i ⟨kind, none⟩ }
  | _ => none

def step (s : Config W K Op Ans R) : Event K Op Ans → Option (Config W K Op Ans R)
  | .spawn kind => some { s with procs := s.procs ++ [⟨kind, some (program kind)⟩] }
  | .act i o r => (s.procs[i]?).bind (actStep handle s i o r)
  | .crash i => (s.procs[i]?).bind (crashStep s i)

theorem step_cases (h : step program handle s e = some s') : (∃ kind, e = .spawn kind ∧
      s' = ⟨s.world, s.procs ++ [⟨kind, some (program kind)⟩]⟩) ∨
    (∃ i o r kind next w, e = .act i o r ∧ s.procs[i]? = some ⟨kind, some (.call o next)⟩ ∧
      handle s.world i o r = some w ∧ s' = ⟨w, s.procs.set i ⟨kind, some (next r)⟩⟩) ∨
    (∃ i o kind next, e = .crash i ∧ s.procs[i]? = some ⟨kind, some (.call o next)⟩ ∧
      s' = ⟨s.world, s.procs.set i ⟨kind, none⟩⟩) := by
  cases e with
  | spawn kind =>
    cases h
    exact Or.inl ⟨kind, rfl, rfl⟩
  | act i o r =>
    right
    left
    obtain ⟨p, hp, hact⟩ := Option.bind_eq_some_iff.mp h
    unfold actStep at hact
    split at hact
    · split_ifs at hact with ho
      subst ho
      obtain ⟨w, hw, hs'⟩ := Option.map_eq_some_iff.mp hact
      exact ⟨i, o, r, _, _, w, rfl, hp, hw, hs'.symm⟩
    · cases hact
  | crash i =>
    right
    right
    obtain ⟨p, hp, hcrash⟩ := Option.bind_eq_some_iff.mp h
    unfold crashStep at hcrash
    split at hcrash
    · exact ⟨i, _, _, _, rfl, hp, (Option.some.inj hcrash).symm⟩
    · cases hcrash

theorem step_act {i : ℕ} {o : Op} {r : Ans o} {kind : K} {next : Ans o → Program Op Ans R} {w : W}
    (hi : s.procs[i]? = some ⟨kind, some (.call o next)⟩) (hw : handle s.world i o r = some w) :
    step program handle s (.act i o r) = some ⟨w, s.procs.set i ⟨kind, some (next r)⟩⟩ := by
  change (s.procs[i]?).bind (actStep handle s i o r) = _
  rw [hi, Option.bind_some]
  apply (dif_pos rfl).trans
  rw [hw]
  rfl

theorem kinds_step (h : step program handle s e = some s') : (∃ kind, e = .spawn kind ∧
      s'.procs.map Process.kind = s.procs.map Process.kind ++ [kind]) ∨
    s'.procs.map Process.kind = s.procs.map Process.kind := by
  rcases step_cases program handle h with ⟨kind, rfl, rfl⟩ |
    ⟨i, o, r, kind, next, w, rfl, hi, -, rfl⟩ | ⟨i, o, kind, next, rfl, hi, rfl⟩
  · exact .inl ⟨kind, rfl, by simp⟩
  · exact .inr (map_set_of_eq hi rfl)
  · exact .inr (map_set_of_eq hi rfl)

/-- The world satisfies `J`, which may mention the number of processes, and every process that has
not stopped satisfies `L` in it. -/
def Holds (J : W → ℕ → Prop) (L : W → ℕ → K → Program Op Ans R → Prop) (s : Config W K Op Ans R) :
    Prop :=
  J s.world s.procs.length ∧ ∀ (i : ℕ) (kind : K) (p : Program Op Ans R),
    s.procs[i]? = some ⟨kind, some p⟩ → L s.world i kind p

variable {program handle} {J : W → ℕ → Prop} {L : W → ℕ → K → Program Op Ans R → Prop}
  {C : Config W K Op Ans R → Event K Op Ans → Config W K Op Ans R → Prop}

/-- One step keeps the assertions: `own` for the process that acts, `other` for the rest, both under
the condition `C` on the step. -/
theorem holds_step (spawn : ∀ w n kind, J w n → J w (n + 1) ∧ L w n kind (program kind))
    (own : ∀ (s : Config W K Op Ans R) i kind o next r w, Holds J L s →
      s.procs[i]? = some ⟨kind, some (.call o next)⟩ → handle s.world i o r = some w →
      C s (.act i o r) ⟨w, s.procs.set i ⟨kind, some (next r)⟩⟩ →
      J w s.procs.length ∧ L w i kind (next r))
    (other : ∀ (s : Config W K Op Ans R) i kind o next r w, Holds J L s →
      s.procs[i]? = some ⟨kind, some (.call o next)⟩ → handle s.world i o r = some w →
      C s (.act i o r) ⟨w, s.procs.set i ⟨kind, some (next r)⟩⟩ →
      ∀ j kind' p, j ≠ i → s.procs[j]? = some ⟨kind', some p⟩ → L w j kind' p) (h : Holds J L s)
    (hs : step program handle s e = some s') (hC : C s e s') : Holds J L s' := by
  rcases step_cases program handle hs with ⟨kind, rfl, rfl⟩ |
    ⟨i, o, r, kind, next, w, rfl, hi, hw, rfl⟩ | ⟨i, o, kind, next, rfl, hi, rfl⟩
  · obtain ⟨hJ, hL⟩ := spawn s.world s.procs.length kind h.1
    refine ⟨by simpa using hJ, ?_⟩
    intro j kind' p hp
    rcases getElem?_concat_eq_some.mp hp with hold | ⟨rfl, hnew⟩
    · exact h.2 j kind' p hold
    · injection hnew with hkind hrest
      injection hrest with hrest
      subst hkind hrest
      exact hL
  · obtain ⟨hJ, hL⟩ := own s i kind o next r w h hi hw hC
    refine ⟨by simpa using hJ, ?_⟩
    intro j kind' p hp
    rcases getElem?_set_eq_some.mp hp with ⟨rfl, -, hnew⟩ | ⟨hij, hold⟩
    · injection hnew with hkind hrest
      injection hrest with hrest
      subst hkind hrest
      exact hL
    · exact other s i kind o next r w h hi hw hC j kind' p (Ne.symm hij) hold
  · refine ⟨by simpa using h.1, ?_⟩
    intro j kind' p hp
    rcases getElem?_set_eq_some.mp hp with ⟨rfl, -, hnew⟩ | ⟨-, hold⟩
    · cases hnew
    · exact h.2 j kind' p hold

end Concurrent

end Insula
