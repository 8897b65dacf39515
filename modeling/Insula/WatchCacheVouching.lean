import Insula.WatchCache

/-!
# What the watch cache vouches for

An answer is the last adopted LIST with everything delivered since, and the WATCH that continues
it is open or being opened where the cache stands. Three steps break that: relisting while the
cache answers, stopping while it answers, and adopting a LIST after it was stopped.
-/

namespace Insula.WatchCache

open Transition

variable {T Raw : Type} (M : Model T Raw) {s s' : State T Raw}

def folded (res : Listing T) (events : List (Phase × Raw)) : List (String × T) :=
  events.foldl (applyEvent M) (seed M res.items)

/-- The WATCH that continues the adopted LIST is the current one, open or being opened, and the
cache stands where it was opened and its events led: while it has delivered nothing, where it was
opened. -/
def Continued (s : State T Raw) : Prop :=
  ∃ w, s.watches s.generation = some w ∧ w.continues = s.adoptions ∧ w.live = true ∧
    w.aborted = false ∧ s.resourceVersion = w.delivered.foldl (nextVersion M) w.start

/-- Whatever the cache answers, it can vouch for. -/
def Vouches (s : State T Raw) : Prop :=
  ∀ items, s.list = some items →
    items = (folded M s.adopted s.since).map Prod.snd ∧ Continued M s

def Sound (s : State T Raw) : Event T Raw → Prop
  | .timer => s.list = none
  | .stop => s.list = none
  | .listed _ _ => s.stopped = false
  | _ => True

def Answering (s : State T Raw) : Prop := s.synced = true ∧ s.healthy = true

theorem list_eq_none_iff : s.list = none ↔ ¬Answering s := by
  unfold State.list Answering
  by_cases hsynced : s.synced = true
  · by_cases hhealthy : s.healthy = true
    · simp [hsynced, hhealthy]
    · simp [hsynced, hhealthy]
  · simp [hsynced]

theorem list_of_answering (h : Answering s) : s.list = some (s.objects.map Prod.snd) := by
  unfold State.list
  rw [if_neg]
  rintro (hsynced | hhealthy)
  · exact hsynced h.1
  · exact hhealthy h.2

/-! ## The invariant -/

/-- No WATCH is of a later generation or continues a later LIST; a stopped cache is silent; and a
cache that answers holds the fold, with the current WATCH alone of those that continue the LIST. -/
structure Inv (s : State T Raw) : Prop where
  fresh : ∀ g, s.generation < g → s.watches g = none
  chains : ∀ g w, s.watches g = some w → w.continues ≤ s.adoptions
  stopped : s.stopped = true → ¬Answering s
  objects : Answering s → s.objects = folded M s.adopted s.since
  continued : Answering s → Continued M s
  alone : Answering s → ∀ g w, s.watches g = some w → w.continues = s.adoptions → w.live = true →
    g = s.generation

variable {M}

theorem Inv.vouches (hI : Inv M s) : Vouches M s := by
  intro items hitems
  by_cases hanswering : Answering s
  · rw [list_of_answering hanswering] at hitems
    rw [← Option.some.inj hitems, hI.objects hanswering]
    exact ⟨rfl, hI.continued hanswering⟩
  · rw [list_eq_none_iff.mpr hanswering] at hitems
    cases hitems

theorem inv_initial : Inv M (initial T Raw) where
  fresh _ _ := rfl
  chains _ _ h := by cases h
  stopped h := by cases h
  objects h := by cases h.1
  continued h := by cases h.1
  alone h := by cases h.1

/-- A silent cache has nothing to vouch for. -/
theorem Inv.of_silent (hfresh : ∀ g, s.generation < g → s.watches g = none)
    (hchains : ∀ g w, s.watches g = some w → w.continues ≤ s.adoptions) (hsilent : ¬Answering s) :
    Inv M s where
  fresh := hfresh
  chains := hchains
  stopped _ := hsilent
  objects h := absurd h hsilent
  continued h := absurd h hsilent
  alone h := absurd h hsilent

/-- A step that leaves alone what the invariant reads. -/
theorem Inv.congr (hI : Inv M s) (hwatches : s'.watches = s.watches)
    (hgeneration : s'.generation = s.generation) (hadoptions : s'.adoptions = s.adoptions)
    (hadopted : s'.adopted = s.adopted) (hsince : s'.since = s.since)
    (hobjects : s'.objects = s.objects) (hversion : s'.resourceVersion = s.resourceVersion)
    (hsynced : s'.synced = s.synced) (hhealthy : s'.healthy = s.healthy)
    (hstopped : s'.stopped = s.stopped) : Inv M s' := by
  have hanswering : Answering s' ↔ Answering s := by
    unfold Answering
    rw [hsynced, hhealthy]
  constructor
  · rw [hgeneration, hwatches]
    exact hI.fresh
  · rw [hwatches, hadoptions]
    exact hI.chains
  · rw [hstopped, hanswering]
    exact hI.stopped
  · rw [hanswering, hobjects, hadopted, hsince]
    exact hI.objects
  · rw [hanswering]
    unfold Continued
    rw [hwatches, hgeneration, hadoptions, hversion]
    exact hI.continued
  · rw [hanswering, hwatches, hadoptions, hgeneration]
    exact hI.alone

/-! ## Steps that keep or lose the answer -/

theorem inv_scheduleRelist (hI : Inv M s) (delayMs : ℕ) : Inv M (s.scheduleRelist delayMs) := by
  unfold State.scheduleRelist
  split
  · exact hI
  · exact hI.congr rfl rfl rfl rfl rfl rfl rfl rfl rfl rfl

theorem inv_fail (hfresh : ∀ g, s.generation < g → s.watches g = none)
    (hchains : ∀ g w, s.watches g = some w → w.continues ≤ s.adoptions) : Inv M s.fail := by
  unfold State.fail State.scheduleRelist
  split
  · exact Inv.of_silent hfresh hchains (by simp [Answering])
  · exact Inv.of_silent hfresh hchains (by simp [Answering])

theorem abortRequest_watches {g : ℕ} {w : Watch Raw} (h : s.abortRequest.watches g = some w) :
    ∃ w₀, s.watches g = some w₀ ∧ w.continues = w₀.continues := by
  unfold State.abortRequest at h
  simp only at h
  split at h
  · obtain ⟨w₀, hw₀, rfl⟩ := Option.map_eq_some_iff.mp h
    exact ⟨w₀, hw₀, rfl⟩
  · exact ⟨w, h, rfl⟩

theorem abortRequest_fresh {g : ℕ} (h : s.watches g = none) : s.abortRequest.watches g = none := by
  unfold State.abortRequest
  simp only [h, Option.map_none, ite_self]

theorem inv_stop (hI : Inv M s) (hsilent : s.list = none) : Inv M s.stop := by
  have hnot := list_eq_none_iff.mp hsilent
  apply Inv.of_silent
  · intro g hg
    apply abortRequest_fresh
    exact hI.fresh g (by
      have : s.stop.generation = s.generation + 1 := rfl
      omega)
  · intro g w hw
    obtain ⟨w₀, hw₀, hsame⟩ := abortRequest_watches hw
    rw [hsame]
    exact hI.chains g w₀ hw₀
  · exact hnot

theorem inv_relist (hI : Inv M s) (hsilent : s.list = none) : Inv M s.relist := by
  have hnot := list_eq_none_iff.mp hsilent
  apply Inv.of_silent
  · intro g hg
    apply abortRequest_fresh
    exact hI.fresh g (by
      have : s.relist.generation = s.generation + 1 := rfl
      omega)
  · intro g w hw
    obtain ⟨w₀, hw₀, hsame⟩ := abortRequest_watches hw
    rw [hsame]
    exact hI.chains g w₀ hw₀
  · exact hnot

/-- A new WATCH is the only one left of those that continue its LIST. -/
theorem inv_watch {continues : ℕ} (hfresh : ∀ g, s.generation < g → s.watches g = none)
    (hchains : ∀ g w, s.watches g = some w → w.continues ≤ s.adoptions)
    (hstopped : s.stopped = true → ¬Answering s)
    (hobjects : Answering s → s.objects = folded M s.adopted s.since)
    (hdead : Answering s → ∀ g w, s.watches g = some w → w.continues = s.adoptions → w.live = false)
    (hle : continues ≤ s.adoptions) (hcurrent : Answering s → continues = s.adoptions) :
    Inv M (s.watch continues) := by
  unfold State.watch
  split_ifs with hstop
  · exact Inv.of_silent hfresh hchains (hstopped hstop)
  constructor
  · intro g hg
    simp only at hg ⊢
    rw [Function.update_of_ne (by omega)]
    exact hfresh g (by omega)
  · intro g w hw
    simp only at hw ⊢
    by_cases hg : g = s.generation + 1
    · rw [hg, Function.update_self] at hw
      obtain rfl := Option.some.inj hw
      exact hle
    · rw [Function.update_of_ne hg] at hw
      exact hchains g w hw
  · intro h
    exact absurd h hstop
  · exact hobjects
  · intro h
    exact ⟨_, Function.update_self .., hcurrent h, rfl, rfl, rfl⟩
  · intro h g w hw hcontinues hlive
    simp only at hw hcontinues ⊢
    by_contra hg
    rw [Function.update_of_ne hg] at hw
    rw [hdead h g w hw hcontinues] at hlive
    cases hlive

theorem inv_adopt (hI : Inv M s) (hrunning : s.stopped = false) (res : Listing T) (now : ℕ) :
    Inv M (s.adopt M res now) := by
  unfold State.adopt
  apply inv_watch
  · exact hI.fresh
  · intro g w hw
    exact (hI.chains g w hw).trans (Nat.le_succ _)
  · intro hstopped
    simp [hrunning] at hstopped
  · intro _
    rfl
  · intro _ g w hw hcontinues
    have := hI.chains g w hw
    simp only at hcontinues
    omega
  · exact le_refl _
  · intro _
    rfl

section Reports

variable {s : State T Raw} {gen : ℕ} {w : Watch Raw}

theorem Inv.gen_le (hI : Inv M s) (hw : s.watches gen = some w) : gen ≤ s.generation := by
  by_contra hgt
  rw [hI.fresh gen (by omega)] at hw
  cases hw

theorem setWatch_fresh (hI : Inv M s) (hw : s.watches gen = some w) (w' : Watch Raw) :
    ∀ g, s.generation < g → (s.setWatch gen w').watches g = none := by
  intro g hg
  have hother : g ≠ gen := by
    have := hI.gen_le hw
    omega
  exact (Function.update_of_ne hother ..).trans (hI.fresh g hg)

theorem setWatch_chains (hI : Inv M s) (hw : s.watches gen = some w) {w' : Watch Raw}
    (hsame : w'.continues = w.continues) :
    ∀ g v, (s.setWatch gen w').watches g = some v → v.continues ≤ s.adoptions := by
  intro g v hv
  unfold State.setWatch at hv
  simp only at hv
  by_cases hg : g = gen
  · rw [hg, Function.update_self] at hv
    obtain rfl := Option.some.inj hv
    rw [hsame]
    exact hI.chains gen w hw
  · rw [Function.update_of_ne hg] at hv
    exact hI.chains g v hv

theorem inv_setWatch_of_ne (hI : Inv M s) (hw : s.watches gen = some w) (hgen : gen ≠ s.generation)
    {w' : Watch Raw} (hsame : w'.continues = w.continues) (hlive : w'.live = true → w.live = true) :
    Inv M (s.setWatch gen w') where
  fresh := setWatch_fresh hI hw w'
  chains := setWatch_chains hI hw hsame
  stopped := hI.stopped
  objects := hI.objects
  continued h := by
    obtain ⟨v, hv, hrest⟩ := hI.continued h
    exact ⟨v, (Function.update_of_ne hgen.symm ..).trans hv, hrest⟩
  alone h g v hv hcontinues hvlive := by
    unfold State.setWatch at hv
    simp only at hv
    by_cases hg : g = gen
    · rw [hg, Function.update_self] at hv
      obtain rfl := Option.some.inj hv
      rw [hg]
      exact hI.alone h gen w hw (hsame.symm.trans hcontinues) (hlive hvlive)
    · rw [Function.update_of_ne hg] at hv
      exact hI.alone h g v hv hcontinues hvlive

theorem inv_opened (hI : Inv M s) (hw : s.watches gen = some w) : Inv M (s.opened gen w) := by
  unfold State.opened
  by_cases hgen : gen = s.generation
  · rw [if_pos hgen]
    constructor
    · exact setWatch_fresh hI hw _
    · exact setWatch_chains hI hw rfl
    · exact hI.stopped
    · exact hI.objects
    · intro h
      obtain ⟨v, hv, hrest⟩ := hI.continued h
      rw [← hgen, hw] at hv
      obtain rfl := Option.some.inj hv
      refine ⟨{ w with opening := false }, ?_, hrest⟩
      simp only [State.setWatch, ← hgen]
      exact Function.update_self ..
    · intro h g v hv hcontinues hlive
      unfold State.setWatch at hv
      simp only at hv
      by_cases hg : g = gen
      · exact hg.trans hgen
      · rw [Function.update_of_ne hg] at hv
        exact hI.alone h g v hv hcontinues hlive
  · rw [if_neg hgen]
    exact inv_setWatch_of_ne hI hw hgen rfl id

theorem inv_openFailed (hI : Inv M s) (hw : s.watches gen = some w) :
    Inv M (s.setWatch gen { w with opening := false, live := false }).fail :=
  inv_fail (setWatch_fresh hI hw _) (setWatch_chains hI hw rfl)

theorem inv_deliver (hI : Inv M s) (hw : s.watches gen = some w) (hlive : w.live = true)
    (event : Phase × Raw) : Inv M (s.deliver M gen w event) := by
  unfold State.deliver
  simp only
  by_cases hgen : gen = s.generation
  · rw [if_pos hgen]
    unfold State.onEvent
    have hbefore : ∀ healthy, (if event.1 = .ERROR then false else healthy) = true →
        healthy = true := by
      intro healthy h
      split at h
      · cases h
      · exact h
    have hcurrent : Answering s → w.continues = s.adoptions ∧ w.aborted = false ∧
        s.resourceVersion = w.delivered.foldl (nextVersion M) w.start := by
      intro h
      obtain ⟨v, hv, hcontinues, -, haborted, hversion⟩ := hI.continued h
      rw [← hgen, hw] at hv
      obtain rfl := Option.some.inj hv
      exact ⟨hcontinues, haborted, hversion⟩
    constructor
    · exact setWatch_fresh hI hw _
    · exact setWatch_chains hI hw rfl
    · intro hstopped h
      exact hI.stopped hstopped ⟨h.1, hbefore _ h.2⟩
    · intro h
      have hanswering : Answering s := ⟨h.1, hbefore _ h.2⟩
      simp only [State.setWatch, if_pos (hcurrent hanswering).1]
      rw [hI.objects hanswering]
      unfold folded
      rw [List.foldl_append]
      rfl
    · intro h
      have hanswering : Answering s := ⟨h.1, hbefore _ h.2⟩
      obtain ⟨hcontinues, haborted, hversion⟩ := hcurrent hanswering
      refine ⟨{ w with delivered := w.delivered ++ [event] }, ?_, hcontinues, hlive, haborted, ?_⟩
      · simp only [State.setWatch, ← hgen]
        exact Function.update_self ..
      · simp only [State.setWatch]
        rw [List.foldl_append, ← hversion]
        rfl
    · intro h g v hv hcontinues hvlive
      have hanswering : Answering s := ⟨h.1, hbefore _ h.2⟩
      unfold State.setWatch at hv
      simp only at hv
      by_cases hg : g = gen
      · exact hg.trans hgen
      · rw [Function.update_of_ne hg] at hv
        exact hI.alone hanswering g v hv hcontinues hvlive
  · rw [if_neg hgen]
    have hset : Inv M (s.setWatch gen { w with delivered := w.delivered ++ [event] }) :=
      inv_setWatch_of_ne hI hw hgen rfl id
    by_cases hcontinues : w.continues = s.adoptions
    · have hsilent : ¬Answering s := fun h => hgen (hI.alone h gen w hw hcontinues hlive)
      exact Inv.of_silent hset.fresh hset.chains hsilent
    · rw [if_neg hcontinues]
      exact hset

/-- The current WATCH is opened again where it ended. -/
theorem inv_rewatch (hI : Inv M s) (hw : s.watches s.generation = some w) (request : Option ℕ) :
    Inv M ({ s.setWatch s.generation { w with live := false } with request := request }.watch
      w.continues) := by
  apply inv_watch
  · exact setWatch_fresh hI hw _
  · exact setWatch_chains hI hw rfl
  · exact hI.stopped
  · exact hI.objects
  · intro h g v hv hcontinues
    simp only [State.setWatch] at hv
    by_cases hg : g = s.generation
    · rw [hg, Function.update_self] at hv
      obtain rfl := Option.some.inj hv
      rfl
    · rw [Function.update_of_ne hg] at hv
      by_contra hlive
      exact hg (hI.alone h g v hv hcontinues (by simpa using hlive))
  · exact hI.chains _ w hw
  · intro h
    obtain ⟨v, hv, hcontinues, -⟩ := hI.continued h
    rw [hw] at hv
    obtain rfl := Option.some.inj hv
    exact hcontinues

theorem inv_finish (hI : Inv M s) (hw : s.watches gen = some w) (err : End) :
    Inv M (s.finish gen w err) := by
  unfold State.finish
  simp only
  by_cases hgen : gen = s.generation
  · rw [if_pos hgen]
    subst hgen
    unfold State.onDone
    simp only
    split_ifs with hstopped hfail
    · apply Inv.of_silent
      · exact setWatch_fresh hI hw _
      · exact setWatch_chains hI hw rfl
      · exact hI.stopped hstopped
    · exact inv_fail (setWatch_fresh hI hw _) (setWatch_chains hI hw rfl)
    · exact inv_rewatch hI hw none
  · rw [if_neg hgen]
    exact inv_setWatch_of_ne hI hw hgen rfl (fun h => by cases h)

end Reports

/-! ## Runs -/

theorem inv_step {e : Event T Raw} (hI : Inv M s) (h : step M s e = some s') (hsound : Sound s e) :
    Inv M s' := by
  cases e with
  | start =>
    obtain rfl := Option.some.inj h
    unfold State.start
    split
    · exact hI
    · apply inv_scheduleRelist
      exact hI.congr rfl rfl rfl rfl rfl rfl rfl rfl rfl rfl
  | stop =>
    obtain rfl := Option.some.inj h
    exact inv_stop hI hsound
  | list now =>
    obtain rfl := Option.some.inj h
    unfold State.afterList
    split_ifs
    · exact hI
    · exact inv_scheduleRelist hI 0
    · exact hI
  | timer =>
    obtain ⟨-, h⟩ := Option.ite_none_left_eq_some.mp h
    obtain rfl := Option.some.inj h
    exact inv_relist hI hsound
  | listed res now =>
    obtain ⟨-, h⟩ := Option.ite_none_left_eq_some.mp h
    obtain rfl := Option.some.inj h
    exact inv_adopt hI hsound res now
  | listFailed =>
    obtain ⟨-, h⟩ := Option.ite_none_left_eq_some.mp h
    obtain rfl := Option.some.inj h
    exact inv_fail hI.fresh hI.chains
  | opened gen =>
    obtain ⟨w, hw, h⟩ := Option.bind_eq_some_iff.mp h
    obtain ⟨-, h⟩ := Option.ite_none_right_eq_some.mp h
    obtain rfl := Option.some.inj h
    exact inv_opened hI hw
  | openFailed gen =>
    obtain ⟨w, hw, h⟩ := Option.bind_eq_some_iff.mp h
    obtain ⟨-, h⟩ := Option.ite_none_right_eq_some.mp h
    obtain rfl := Option.some.inj h
    exact inv_openFailed hI hw
  | delivered gen event =>
    obtain ⟨w, hw, h⟩ := Option.bind_eq_some_iff.mp h
    obtain ⟨hlive, h⟩ := Option.ite_none_right_eq_some.mp h
    obtain rfl := Option.some.inj h
    exact inv_deliver hI hw hlive event
  | ended gen err =>
    obtain ⟨w, hw, h⟩ := Option.bind_eq_some_iff.mp h
    obtain ⟨-, h⟩ := Option.ite_none_right_eq_some.mp h
    obtain rfl := Option.some.inj h
    exact inv_finish hI hw err

/-- A step that is not sound leads to a state that answers with nothing behind the answer. -/
theorem not_vouches_of_not_sound {e : Event T Raw} (hI : Inv M s) (h : step M s e = some s')
    (hsound : ¬Sound s e) : ¬Vouches M s' := by
  have hlost : ∀ s' : State T Raw, Answering s' → ¬Continued M s' → ¬Vouches M s' := by
    intro s' hanswering hnot hvouches
    exact hnot (hvouches _ (list_of_answering hanswering)).2
  cases e with
  | stop =>
    obtain rfl := Option.some.inj h
    have hanswering : Answering s := by
      by_contra hsilent
      exact hsound (list_eq_none_iff.mpr hsilent)
    apply hlost s.stop hanswering
    rintro ⟨w, hw, -⟩
    have hnone : s.stop.watches s.stop.generation = none :=
      abortRequest_fresh (hI.fresh _ (Nat.lt_succ_self _))
    rw [hnone] at hw
    cases hw
  | timer =>
    obtain ⟨-, h⟩ := Option.ite_none_left_eq_some.mp h
    obtain rfl := Option.some.inj h
    have hanswering : Answering s := by
      by_contra hsilent
      exact hsound (list_eq_none_iff.mpr hsilent)
    apply hlost s.relist hanswering
    rintro ⟨w, hw, -⟩
    have hnone : s.relist.watches s.relist.generation = none :=
      abortRequest_fresh (hI.fresh _ (Nat.lt_succ_self _))
    rw [hnone] at hw
    cases hw
  | listed res now =>
    obtain ⟨-, h⟩ := Option.ite_none_left_eq_some.mp h
    obtain rfl := Option.some.inj h
    have hstopped : s.stopped = true := by simpa [Sound] using hsound
    have hadopt : (s.adopt M res now).watches = s.watches ∧
        (s.adopt M res now).adoptions = s.adoptions + 1 ∧ Answering (s.adopt M res now) := by
      unfold State.adopt State.watch
      rw [if_pos hstopped]
      exact ⟨rfl, rfl, rfl, rfl⟩
    apply hlost _ hadopt.2.2
    rintro ⟨w, hw, hcontinues, -⟩
    rw [hadopt.1] at hw
    have := hI.chains _ w hw
    omega
  | start | list | listFailed | opened | openFailed | delivered | ended =>
    exact absurd trivial hsound

/-- The cache vouches for every answer of a run exactly if the steps of the run are sound. -/
theorem vouches_along_iff_sound (es : List (Event T Raw)) :
    Along (step M) (fun _ _ s' => Vouches M s') (initial T Raw) es ↔
      Along (step M) (fun s e _ => Sound s e) (initial T Raw) es := by
  have hgeneral : ∀ s : State T Raw, Inv M s →
      (Along (step M) (fun _ _ s' => Vouches M s') s es ↔
        Along (step M) (fun s e _ => Sound s e) s es) := by
    induction es with
    | nil => exact fun s _ => Iff.rfl
    | cons e es ih =>
      intro s hI
      constructor
      · intro hvouches s' hs'
        have hsound : Sound s e := by
          by_contra hnot
          exact not_vouches_of_not_sound hI hs' hnot (hvouches s' hs').1
        exact ⟨hsound, (ih s' (inv_step hI hs' hsound)).mp (hvouches s' hs').2⟩
      · intro hsound s' hs'
        have hI' : Inv M s' := inv_step hI hs' (hsound s' hs').1
        exact ⟨hI'.vouches, (ih s' hI').mpr (hsound s' hs').2⟩
  exact hgeneral _ inv_initial

def metaModel : Model Meta Meta := ⟨some, some, id⟩

def synced : List (Event Meta Meta) :=
  [.start, .timer, .listed ⟨[⟨some "tenant-a", some "seed", none⟩], some "10"⟩ 0, .opened 2]

theorem not_vouches_of_no_watch (hanswering : Answering s)
    (hwatch : s.watches s.generation = none) : ¬Vouches M s := by
  intro hvouches
  obtain ⟨-, w, hw, -⟩ := hvouches _ (list_of_answering hanswering)
  rw [hwatch] at hw
  cases hw

/-- The cache answers while the LIST of a resync hangs and its WATCH was told to stop, answers after
it is stopped, and answers from a LIST that returns after it is stopped. -/
theorem answers_with_no_watch : (∃ s, exec (step metaModel) (initial Meta Meta)
        (synced ++ [.list (RESYNC_MS + 1), .timer]) = some s ∧ ¬Vouches metaModel s) ∧
    (∃ s, exec (step metaModel) (initial Meta Meta) (synced ++ [.stop]) = some s ∧
        ¬Vouches metaModel s) ∧ ∃ s, exec (step metaModel) (initial Meta Meta)
        [.start, .timer, .stop, .listed ⟨[], some "10"⟩ 0] = some s ∧ ¬Vouches metaModel s := by
  refine ⟨⟨_, rfl, ?_⟩, ⟨_, rfl, ?_⟩, ⟨_, rfl, ?_⟩⟩
  · exact not_vouches_of_no_watch ⟨rfl, rfl⟩ rfl
  · exact not_vouches_of_no_watch ⟨rfl, rfl⟩ rfl
  · exact not_vouches_of_no_watch ⟨rfl, rfl⟩ rfl

end Insula.WatchCache
