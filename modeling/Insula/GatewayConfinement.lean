import Insula.GatewayCommands
import Mathlib.Data.List.Chain

/-!
# What the programs read on a rewritten command line

The gateway looks at each argument by itself; `rsync` and `scp` read the line. A word that begins
with a dash is an option only while options are read, a word without one may be the value of an
option, and a dot ends the options of a bundle only for the gateway. The line is read here as the
programs read it, and compared with what the gateway took each argument for.
-/

namespace Insula.SftpGateway

open Paths

/-! ## Reading a command line -/

structure Options where
  long : Text → Bool
  short : Char → Bool

inductive Item
  | path (p : Text)
  | long (name : Text)
  | value (name v : Text)
  | short (letter : Char) (glued : Text)
deriving DecidableEq

inductive Mode
  | options
  | owed (name : Option Text)
  | paths
deriving DecidableEq

def readBundle (o : Options) : Text → List Item × Mode
  | [] => ([], .options)
  | c :: cs =>
    if o.short c then ([.short c cs], if cs = [] then .owed none else .options)
    else (.short c [] :: (readBundle o cs).1, (readBundle o cs).2)

def readArg (o : Options) : Mode → Text → List Item × Mode
  | .paths, arg => ([.path arg], .paths)
  | .owed (some name), arg => ([.value name arg], .options)
  | .owed none, _ => ([], .options)
  | .options, arg =>
    if arg = ['-', '-'] then ([], .paths)
    else if ¬dashed arg ∨ arg = ['-'] then ([.path arg], .options)
    else if ['-', '-'] <+: arg then
      match cutEquals arg with
      | (name, some v) => ([.long name, .value name v], .options)
      | (name, none) => ([.long name], if o.long name then .owed (some name) else .options)
    else readBundle o (arg.drop 1)

def read (o : Options) : Mode → List Text → List Item
  | _, [] => []
  | mode, arg :: rest => (readArg o mode arg).1 ++ read o (readArg o mode arg).2 rest

/-- A denied letter, other than the `e` whose value begins with a dot: that one tells the server
that its client came through a remote shell. -/
def Dangerous (letter : Char) (glued : Text) : Prop :=
  letter ∈ rsyncDeniedLetters ∧ ¬(letter = 'e' ∧ glued.head? = some '.')

instance (letter : Char) (glued : Text) : Decidable (Dangerous letter glued) :=
  inferInstanceAs (Decidable (_ ∧ _))

def Obeys (root : Text) : Bool → List Item → Prop
  | _, [] => True
  | first, .path p :: items =>
    (AtOrBelow root p ∨ first = true ∧ p = ['.']) ∧ Obeys root false items
  | first, .long name :: items => ¬Denied name ∧ Obeys root first items
  | first, .value name v :: items => (PathBearing name → AtOrBelow root v) ∧ Obeys root first items
  | first, .short letter glued :: items => ¬Dangerous letter glued ∧ Obeys root first items

instance decidableObeys (root : Text) : ∀ first items, Decidable (Obeys root first items)
  | _, [] => inferInstanceAs (Decidable True)
  | _, .path _ :: items | _, .long _ :: items | _, .value _ _ :: items | _, .short _ _ :: items =>
    have := fun first => decidableObeys root first items
    inferInstanceAs (Decidable (_ ∧ _))

/-- The same for `scp`, which has no long options and no reference directory. -/
def ObeysSCP (root : Text) : Item → Prop
  | .path p => AtOrBelow root p
  | .short letter _ => letter ∈ scpAllowedFlags
  | .long _ | .value .. => False

/-! ## What the gateway takes an argument for -/

inductive Slot
  | placed
  | dot
  | option (arg : Text)
deriving DecidableEq

/-- An option whose value the gateway finds in the next argument. -/
def TakesNext (arg : Text) : Prop := ['-', '-'] <+: arg ∧ PathBearing arg ∧ '=' ∉ arg

instance (arg : Text) : Decidable (TakesNext arg) := inferInstanceAs (Decidable (_ ∧ _ ∧ _))

@[simp] def slots : List Text → List Slot
  | [] => []
  | arg :: rest =>
    if ¬dashed arg then (if arg = ['.'] then .dot else .placed) :: slots rest
    else if TakesNext arg then
      match rest with
      | [] => [.option arg]
      | _ :: rest => .option arg :: .placed :: slots rest
    else .option arg :: slots rest

/-- Behind a dot that no letter with a value precedes stands a denied letter. -/
def DotHides (o : Options) (opts : Text) : Prop :=
  ∃ a c b, opts = a ++ c :: b ∧ '.' ∈ a ∧ (∀ x ∈ a, o.short x = false) ∧ Dangerous c b

variable {o : Options} {opts arg root out : Text} {rest args outs : List Text}

theorem not_dotHides (h : '.' ∉ opts.takeWhile (fun c => !o.short c)) : ¬DotHides o opts := by
  rintro ⟨a, c, b, rfl, hdot, ha, -⟩
  apply h
  rw [List.takeWhile_append_of_pos (fun x hx => by simp [ha x hx])]
  exact List.mem_append_left _ hdot

/-- An option that is not a lone dash, has no empty path for its value and hides no letter. -/
def HarmlessOption (o : Options) (arg : Text) : Prop :=
  if ['-', '-'] <+: arg then PathBearing (cutEquals arg).1 → (cutEquals arg).2 ≠ some []
  else arg ≠ ['-'] ∧ ¬DotHides o (arg.drop 1)

def Harmless (o : Options) : Mode → Bool → List Slot → Prop
  | _, _, [] => True
  | .paths, first, slot :: rest =>
    (slot = .placed ∨ slot = .dot ∧ first = true) ∧ Harmless o .paths false rest
  | .owed _, first, _ :: rest => Harmless o .options first rest
  | .options, _, .placed :: rest => Harmless o .options false rest
  | .options, first, .dot :: rest => first = true ∧ Harmless o .options false rest
  | .options, first, .option arg :: rest =>
    HarmlessOption o arg ∧ Harmless o (readArg o .options arg).2 first rest

/-! ## What the rewriting did with each argument -/

/-- An option argument and what stands for it on the new line. -/
inductive Kept (root : Text) (arg : Text) : Text → Prop
  | bundle (hshort : ¬['-', '-'] <+: arg)
      (hclean : ∀ c ∈ checkedLetters (arg.drop 1), c ∉ rsyncDeniedLetters) : Kept root arg arg
  | long (hlong : ['-', '-'] <+: arg) (hdenied : ¬Denied (cutEquals arg).1)
      (hvalue : PathBearing (cutEquals arg).1 → ∀ v, (cutEquals arg).2 = some v → v = []) :
      Kept root arg arg
  | placed {p v : Text} (hlong : ['-', '-'] <+: arg) (hdenied : ¬Denied (cutEquals arg).1)
      (hvalue : (cutEquals arg).2 = some v) (hv : v ≠ []) (hp : AtOrBelow root p) :
      Kept root arg ((cutEquals arg).1 ++ '=' :: p)

def Placed (root : Text) : Slot → Text → Prop
  | .placed, out => AtOrBelow root out
  | .dot, out => out = ['.']
  | .option arg, out => dashed arg ∧ Kept root arg out

theorem takesNext_iff (hlong : ['-', '-'] <+: arg) :
    TakesNext arg ↔ PathBearing (cutEquals arg).1 ∧ (cutEquals arg).2 = none := by
  unfold TakesNext cutEquals
  by_cases h : '=' ∈ arg
  · simp [h]
  · simp [h, hlong]

theorem dashed_of_long (h : ['-', '-'] <+: arg) : dashed arg := by
  obtain ⟨rest, rfl⟩ := h
  rfl

theorem slots_option (h : dashed arg) (hnext : ¬TakesNext arg) :
    slots (arg :: rest) = .option arg :: slots rest := by
  cases rest <;> simp [slots, h, hnext]

theorem slots_undashed (h : ¬dashed arg) :
    slots (arg :: rest) = (if arg = ['.'] then .dot else .placed) :: slots rest := by
  cases rest <;> simp [slots, h]

theorem slots_next {val : Text} (h : TakesNext arg) :
    slots (arg :: val :: rest) = .option arg :: .placed :: slots rest := by
  simp [slots, dashed_of_long h.1, h]

theorem slots_last (h : TakesNext arg) : slots [arg] = [.option arg] := by
  simp [slots, dashed_of_long h.1, h]

/-- Each argument of an accepted line is placed as the gateway took it. -/
theorem placed_of_rewriteRsyncArgs (hroot : Rooted root)
    (h : rewriteRsyncArgs root args = some outs) :
    List.Forall₂ (Placed root) (slots args) outs := by
  fun_induction rewriteRsyncArgs root args generalizing outs with
  | case1 =>
    cases h
    exact .nil
  | case2 arg rest hdash ih =>
    obtain ⟨outs', hrest, rfl⟩ := Option.map_eq_some_iff.mp h
    rw [slots_undashed hdash]
    refine .cons ?_ (ih hrest)
    by_cases hdot : arg = ['.']
    · simp [hdot, Placed]
    · simpa only [hdot, if_false, Placed] using atOrBelow_sanitizePath arg hroot
  | case3 | case4 | case7 | case10 => cases h
  | case5 arg rest _ hlong name hdenied hpath val hdash heq ih =>
    obtain ⟨outs', hrest, rfl⟩ := Option.map_eq_some_iff.mp h
    have hnext : ¬TakesNext arg := by
      rw [takesNext_iff hlong, heq]
      simp
    rw [slots_option (dashed_of_long hlong) hnext]
    refine .cons ⟨dashed_of_long hlong, ?_⟩ (ih hrest)
    by_cases hval : val = []
    · simp only [hval, ne_eq, not_true, if_false]
      refine .long hlong (by rwa [heq]) ?_
      intro _ v hv
      rw [heq] at hv
      cases hv
      exact hval
    · simp only [ne_eq, hval, not_false_eq_true, if_true]
      have hkept : Kept root arg _ := .placed hlong (by rwa [heq])
        (by rw [heq]) hval (atOrBelow_sanitizePath val hroot)
      rwa [heq] at hkept
  | case6 arg _ hlong name hdenied hpath heq =>
    cases h
    have hnext : TakesNext arg := by
      rw [takesNext_iff hlong, heq]
      exact ⟨hpath, rfl⟩
    rw [slots_last hnext]
    refine .cons ⟨dashed_of_long hlong, .long hlong (by rwa [heq]) ?_⟩ .nil
    intro _ v hv
    rw [heq] at hv
    cases hv
  | case8 arg _ hlong name hdenied hpath val rest _ heq ih =>
    obtain ⟨outs', hrest, rfl⟩ := Option.map_eq_some_iff.mp h
    have hnext : TakesNext arg := by
      rw [takesNext_iff hlong, heq]
      exact ⟨hpath, rfl⟩
    rw [slots_next hnext]
    refine .cons ⟨dashed_of_long hlong, .long hlong (by rwa [heq]) ?_⟩
      (.cons (atOrBelow_sanitizePath val hroot) (ih hrest))
    intro _ v hv
    rw [heq] at hv
    cases hv
  | case9 arg rest _ hlong name value heq hdenied hpath ih =>
    obtain ⟨outs', hrest, rfl⟩ := Option.map_eq_some_iff.mp h
    have hnext : ¬TakesNext arg := by
      rw [takesNext_iff hlong, heq]
      exact fun hboth => hpath hboth.1
    rw [slots_option (dashed_of_long hlong) hnext]
    refine .cons ⟨dashed_of_long hlong, .long hlong (by rwa [heq]) ?_⟩ (ih hrest)
    intro hbearing
    rw [heq] at hbearing
    exact absurd hbearing hpath
  | case11 arg rest hdash hshort hclean ih =>
    obtain ⟨outs', hrest, rfl⟩ := Option.map_eq_some_iff.mp h
    have hnext : ¬TakesNext arg := fun hnext => hshort hnext.1
    rw [slots_option (not_not.mp hdash) hnext]
    refine .cons ⟨not_not.mp hdash, .bundle hshort ?_⟩ (ih hrest)
    intro c hc hbad
    exact hclean ⟨c, hc, hbad⟩

/-- Behind an option that finds its value in the next argument stands a placed argument. -/
def Owes (slot next : Slot) : Prop := ∀ arg, slot = .option arg → TakesNext arg → next = .placed

theorem isChain_slots (args : List Text) : (slots args).IsChain Owes := by
  fun_induction slots args with
  | case1 => exact .nil
  | case2 arg rest hdash ih =>
    apply List.isChain_cons.mpr ⟨?_, ih⟩
    intro next _ arg' harg'
    by_cases hdot : arg = ['.'] <;> simp [hdot] at harg'
  | case3 => exact .singleton _
  | case4 arg _ _ rest _ ih =>
    apply List.isChain_cons.mpr ⟨?_, List.isChain_cons.mpr ⟨?_, ih⟩⟩
    · intro next hnext _ _ _
      cases hnext
      rfl
    · intro _ _ _ harg
      cases harg
  | case5 arg rest _ hnext ih =>
    apply List.isChain_cons.mpr ⟨?_, ih⟩
    intro _ _ arg' harg' htakes
    cases harg'
    exact absurd htakes hnext

/-! ## Reading a bundle -/

theorem mem_readBundle {c : Char} {v : Text} :
    .short c v ∈ (readBundle o opts).1 ↔ ∃ a b, opts = a ++ c :: b ∧ (∀ x ∈ a, o.short x = false) ∧
        v = if o.short c then b else [] := by
  induction opts with
  | nil => simp [readBundle]
  | cons d opts ih =>
    unfold readBundle
    by_cases hd : o.short d = true
    · rw [if_pos hd]
      constructor
      · intro h
        simp only [List.mem_singleton, Item.short.injEq] at h
        obtain ⟨rfl, rfl⟩ := h
        exact ⟨[], _, rfl, by simp, by simp [hd]⟩
      · rintro ⟨a, b, heq, ha, rfl⟩
        cases a with
        | nil =>
          cases heq
          simp [hd]
        | cons x a =>
          cases heq
          have hx := ha d List.mem_cons_self
          rw [hd] at hx
          cases hx
    · rw [if_neg hd]
      have hd' : o.short d = false := by simpa using hd
      constructor
      · intro h
        rcases List.mem_cons.mp h with h | h
        · cases h
          exact ⟨[], _, rfl, by simp, by simp [hd']⟩
        · obtain ⟨a, b, rfl, ha, hv⟩ := ih.mp h
          refine ⟨d :: a, b, rfl, ?_, hv⟩
          intro x hx
          rcases List.mem_cons.mp hx with rfl | hx
          · exact hd'
          · exact ha x hx
      · rintro ⟨a, b, heq, ha, hv⟩
        cases a with
        | nil =>
          cases heq
          simp [hv, hd']
        | cons x a =>
          cases heq
          apply List.mem_cons_of_mem
          exact ih.mpr ⟨a, b, rfl, fun x hx => ha x (List.mem_cons_of_mem _ hx), hv⟩

theorem short_of_mem_readBundle {item : Item} (h : item ∈ (readBundle o opts).1) :
    ∃ c v, item = .short c v := by
  induction opts with
  | nil => cases h
  | cons d opts ih =>
    unfold readBundle at h
    split at h
    · exact ⟨_, _, List.mem_singleton.mp h⟩
    · rcases List.mem_cons.mp h with h | h
      · exact ⟨_, _, h⟩
      · exact ih h

theorem readBundle_allowed {letters : Text} (hletters : ∀ c ∈ letters, o.short c = false)
    (hopts : ∀ c ∈ opts, c ∈ letters) :
    (∀ c v, .short c v ∈ (readBundle o opts).1 → c ∈ letters) ∧
      (readBundle o opts).2 = .options := by
  constructor
  · intro c v hmem
    obtain ⟨a, b, rfl, -⟩ := mem_readBundle.mp hmem
    exact hopts c (by simp)
  · induction opts with
    | nil => rfl
    | cons c opts ih =>
      have hc := hletters c (hopts c List.mem_cons_self)
      unfold readBundle
      rw [if_neg (by simp [hc])]
      exact ih (fun d hd => hopts d (List.mem_cons_of_mem _ hd))

/-- The letters of a bundle are read at once; the rest of the line obeys by itself. -/
theorem obeys_shorts {first : Bool} {items rest : List Item}
    (h : ∀ item ∈ items, ∃ c v, item = .short c v) : Obeys root first (items ++ rest) ↔
      (∀ c v, .short c v ∈ items → ¬Dangerous c v) ∧ Obeys root first rest := by
  induction items with
  | nil => simp
  | cons item items ih =>
    obtain ⟨c, v, rfl⟩ := h item List.mem_cons_self
    rw [List.cons_append, Obeys, ih (fun item hitem => h item (List.mem_cons_of_mem _ hitem))]
    simp only [List.mem_cons, Item.short.injEq]
    constructor
    · rintro ⟨hfirst, hitems, hrest⟩
      refine ⟨?_, hrest⟩
      rintro c' v' (⟨rfl, rfl⟩ | hmem)
      · exact hfirst
      · exact hitems c' v' hmem
    · rintro ⟨hall, hrest⟩
      exact ⟨hall c v (.inl ⟨rfl, rfl⟩), fun c' v' hmem => hall c' v' (.inr hmem), hrest⟩

/-- For a letter other than `e` the value does not matter, and `e` has one. -/
theorem dangerous_value_iff (he : o.short 'e' = true) (c : Char) (b : Text) :
    Dangerous c (if o.short c then b else []) ↔ Dangerous c b := by
  unfold Dangerous
  by_cases hc : c = 'e'
  · subst hc
    rw [he]
    simp
  · simp [hc]

/-- A denied letter before the first dot is looked at. -/
theorem mem_checkedLetters {a b : Text} {c : Char} (hdot : '.' ∉ a) (hc : c ≠ '.')
    (hmarker : ¬(c = 'e' ∧ b.head? = some '.')) : c ∈ checkedLetters (a ++ c :: b) := by
  unfold checkedLetters
  split
  · have hplain : ∀ x ∈ a ++ [c], decide (x ≠ '.') = true := by
      intro x hx
      rcases List.mem_append.mp hx with hx | hx
      · exact decide_eq_true fun h => hdot (h ▸ hx)
      · cases List.mem_singleton.mp hx
        exact decide_eq_true hc
    have htake : (a ++ c :: b).takeWhile (· ≠ '.') = (a ++ [c]) ++ b.takeWhile (· ≠ '.') := by
      rw [List.append_cons, List.takeWhile_append_of_pos hplain]
    rw [htake]
    cases hb : b.takeWhile (· ≠ '.') with
    | nil =>
      rw [List.append_nil, trimSuffixE]
      split
      · next hlast =>
        -- a dropped `e` stands before the dot
        rw [List.getLast?_concat] at hlast
        cases hlast
        exfalso
        cases b with
        | nil => simp_all
        | cons d b =>
          apply hmarker
          refine ⟨rfl, ?_⟩
          by_contra hd
          have hne : d ≠ '.' := fun h => hd (by rw [h]; rfl)
          simp [hne] at hb
      · simp
    | cons d ds =>
      rw [trimSuffixE]
      split
      · rw [List.dropLast_append_of_ne_nil (by simp)]
        simp
      · simp
  · simp

theorem dangerous_iff_dotHides (he : o.short 'e' = true)
    (hclean : ∀ c ∈ checkedLetters opts, c ∉ rsyncDeniedLetters) :
    (∃ c v, .short c v ∈ (readBundle o opts).1 ∧ Dangerous c v) ↔ DotHides o opts := by
  constructor
  · rintro ⟨c, v, hmem, hdanger⟩
    obtain ⟨a, b, rfl, ha, rfl⟩ := mem_readBundle.mp hmem
    rw [dangerous_value_iff he] at hdanger
    refine ⟨a, c, b, rfl, ?_, ha, hdanger⟩
    by_contra hdot
    have hc : c ≠ '.' := by
      rintro rfl
      exact absurd hdanger.1 (by decide)
    exact hclean c (mem_checkedLetters hdot hc hdanger.2) hdanger.1
  · rintro ⟨a, c, b, rfl, -, ha, hdanger⟩
    refine ⟨c, _, mem_readBundle.mpr ⟨a, b, rfl, ha, rfl⟩, ?_⟩
    rwa [dangerous_value_iff he]

/-! ## Reading the new line -/

theorem not_atOrBelow_of_dashed (root : Text) (h : dashed out) : ¬AtOrBelow root out :=
  fun hbelow => not_dashed_of_rooted hbelow.1 h

theorem not_pathBearing_separator : ¬PathBearing ['-', '-'] := by
  unfold PathBearing
  decide

/-- What is written back for an option with a value is read as that option with the new value. -/
theorem cutEquals_placed {p v : Text} (hlong : ['-', '-'] <+: arg)
    (hvalue : (cutEquals arg).2 = some v) :
    cutEquals ((cutEquals arg).1 ++ '=' :: p) = ((cutEquals arg).1, some p) ∧
      ['-', '-'] <+: (cutEquals arg).1 ++ '=' :: p := by
  have heq : '=' ∈ arg := by
    unfold cutEquals at hvalue
    split at hvalue
    · assumption
    · cases hvalue
  have hname : (cutEquals arg).1 = arg.takeWhile (· ≠ '=') := by simp [cutEquals, heq]
  have hplain : ∀ x ∈ arg.takeWhile (· ≠ '='), decide (x ≠ '=') = true := by
    intro x hx
    have hkept := List.mem_takeWhile_imp hx
    exact hkept
  rw [hname]
  constructor
  · unfold cutEquals
    rw [if_pos (by simp), List.takeWhile_append_of_pos hplain, List.dropWhile_append_of_pos hplain]
    simp
  · obtain ⟨rest, rfl⟩ := hlong
    exact ⟨rest.takeWhile (· ≠ '=') ++ '=' :: p, by simp⟩

theorem readArg_options (o : Options) (arg : Text) : readArg o .options arg =
      if arg = ['-', '-'] then ([], .paths)
      else if ¬dashed arg ∨ arg = ['-'] then ([.path arg], .options) else if ['-', '-'] <+: arg then
        match cutEquals arg with
        | (name, some v) => ([.long name, .value name v], .options)
        | (name, none) => ([.long name], if o.long name then .owed (some name) else .options)
      else readBundle o (arg.drop 1) := rfl

theorem readArg_long (hlong : ['-', '-'] <+: arg) (hsep : arg ≠ ['-', '-']) :
    readArg o .options arg = match cutEquals arg with
      | (name, some v) => ([.long name, .value name v], .options)
      | (name, none) => ([.long name], if o.long name then .owed (some name) else .options) := by
  have hdash : ¬(¬dashed arg ∨ arg = ['-']) := by
    rintro (h | rfl)
    · exact h (dashed_of_long hlong)
    · exact absurd hlong (by decide)
  rw [readArg_options, if_neg hsep, if_neg hdash, if_pos hlong]

section Options

variable {o : Options} {root arg out : Text}

theorem readArg_mode (h : Kept root arg out) :
    (readArg o .options out).2 = (readArg o .options arg).2 := by
  cases h with
  | bundle => rfl
  | long => rfl
  | @placed p v hlong hdenied hvalue hv hp =>
    obtain ⟨hcut, hlong'⟩ := cutEquals_placed (p := p) hlong hvalue
    have hne : ∀ q : Text, (cutEquals arg).1 ++ '=' :: q ≠ ['-', '-'] := by
      intro q h
      have hmem : '=' ∈ (['-', '-'] : Text) := h ▸ by simp
      exact absurd hmem (by decide)
    have hsep : arg ≠ ['-', '-'] := by
      rintro rfl
      have hnone : (cutEquals ['-', '-']).2 = none := by decide
      rw [hnone] at hvalue
      cases hvalue
    rw [readArg_long hlong' (hne p), readArg_long hlong hsep, hcut]
    rcases hc : cutEquals arg with ⟨name, value⟩
    rw [hc] at hvalue
    cases hvalue
    rfl

theorem obeys_option (he : o.short 'e' = true) (hdash : dashed arg) (h : Kept root arg out)
    (first : Bool) (rest : List Item) : Obeys root first ((readArg o .options out).1 ++ rest) ↔
      HarmlessOption o arg ∧ Obeys root first rest := by
  cases h with
  | bundle hshort hclean =>
    unfold HarmlessOption
    rw [if_neg hshort]
    by_cases hlone : arg = ['-']
    · subst hlone
      simp [readArg, Obeys, not_atOrBelow_of_dashed _ hdash]
    · have hsep : arg ≠ ['-', '-'] := by
        rintro rfl
        exact hshort (List.prefix_refl _)
      have hread : readArg o .options arg = readBundle o (arg.drop 1) := by
        rw [readArg_options, if_neg hsep, if_neg (by simp [hdash, hlone]), if_neg hshort]
      rw [hread, obeys_shorts (fun item hitem => short_of_mem_readBundle hitem),
        ← dangerous_iff_dotHides he hclean]
      simp [hlone]
  | long hlong hdenied hvalue =>
    unfold HarmlessOption
    rw [if_pos hlong]
    by_cases hsep : arg = ['-', '-']
    · subst hsep
      have hname : (cutEquals ['-', '-']).1 = ['-', '-'] := by decide
      simp [readArg, hname, not_pathBearing_separator]
    · rw [readArg_long hlong hsep]
      rcases hc : cutEquals arg with ⟨name, value⟩
      rw [hc] at hvalue hdenied
      cases value with
      | none => simp [Obeys, hdenied]
      | some v =>
        simp only [List.cons_append, List.nil_append, Obeys]
        constructor
        · rintro ⟨-, hplaced, hrest⟩
          refine ⟨?_, hrest⟩
          rintro hpath hempty
          cases hempty
          have hrooted := (hplaced hpath).1
          cases hrooted
        · rintro ⟨hharmless, hrest⟩
          refine ⟨hdenied, ?_, hrest⟩
          intro hpath
          cases hvalue hpath v rfl
          exact absurd rfl (hharmless hpath)
  | @placed p v hlong hdenied hvalue hv hp =>
    obtain ⟨hcut, hlong'⟩ := cutEquals_placed (p := p) hlong hvalue
    have hne : (cutEquals arg).1 ++ '=' :: p ≠ ['-', '-'] := by
      intro h
      have hmem : '=' ∈ (['-', '-'] : Text) := h ▸ by simp
      exact absurd hmem (by decide)
    unfold HarmlessOption
    rw [if_pos hlong, readArg_long hlong' hne, hcut]
    simp only [List.cons_append, List.nil_append, Obeys, hdenied, not_false_eq_true, true_and,
      hvalue]
    constructor
    · rintro ⟨-, hrest⟩
      exact ⟨fun _ h => hv (Option.some.inj h), hrest⟩
    · rintro ⟨-, hrest⟩
      exact ⟨fun _ => hp, hrest⟩

/-- The program owes a path where the gateway has found it. -/
theorem takesNext_of_owed {name : Text} (h : (readArg o .options arg).2 = .owed (some name))
    (hpath : PathBearing name) : TakesNext arg := by
  rw [readArg_options] at h
  split at h
  · cases h
  · split at h
    · cases h
    · split at h
      · next hlong =>
        rw [takesNext_iff hlong]
        rcases hc : cutEquals arg with ⟨name', value⟩
        rw [hc] at h
        cases value with
        | some v => cases h
        | none =>
          dsimp only at h
          split at h
          · cases h
            exact ⟨hpath, rfl⟩
          · cases h
      · exfalso
        generalize arg.drop 1 = opts at h
        induction opts with
        | nil => cases h
        | cons c opts ih =>
          unfold readBundle at h
          split at h
          · dsimp only at h
            split at h <;> cases h
          · exact ih h

end Options

theorem dashed_of_kept (hdash : dashed arg) (h : Kept root arg out) : dashed out := by
  cases h with
  | bundle => exact hdash
  | long => exact hdash
  | @placed p v hlong _ hvalue =>
    exact dashed_of_long (cutEquals_placed (p := p) hlong hvalue).2

theorem atOrBelow_iff_placed {slot : Slot} (h : Placed root slot out) :
    AtOrBelow root out ↔ slot = .placed := by
  cases slot with
  | placed => simp [show AtOrBelow root out from h]
  | dot =>
    cases show out = ['.'] from h
    have hno : ¬AtOrBelow root ['.'] := fun h => absurd h.1 (by decide)
    simp [hno]
  | option arg =>
    obtain ⟨hdash, hkept⟩ := h
    simp [not_atOrBelow_of_dashed _ (dashed_of_kept hdash hkept)]

theorem eq_dot_iff {slot : Slot} (h : Placed root slot out) : out = ['.'] ↔ slot = .dot := by
  constructor
  · rintro rfl
    cases slot with
    | placed =>
      have hrooted := (show AtOrBelow root ['.'] from h).1
      cases hrooted
    | dot => rfl
    | option arg =>
      obtain ⟨hdash, hkept⟩ := h
      cases dashed_of_kept hdash hkept
  · rintro rfl
    exact h

theorem readArg_undashed (h : ¬dashed out) : readArg o .options out = ([.path out], .options) := by
  have hsep : out ≠ ['-', '-'] := by
    rintro rfl
    exact h rfl
  rw [readArg_options, if_neg hsep, if_pos (.inl h)]

/-- A line is read within the root exactly when it is harmless as the gateway took it. -/
theorem obeys_iff_harmless (he : o.short 'e' = true) {line : List Slot}
    (hplaced : List.Forall₂ (Placed root) line outs) (hchain : line.IsChain Owes) (mode : Mode)
    (first : Bool) (hsync : ∀ name, mode = .owed (some name) → PathBearing name →
      ∀ slot ∈ line.head?, slot = .placed) :
    Obeys root first (read o mode outs) ↔ Harmless o mode first line := by
  induction hplaced generalizing mode first with
  | nil => cases mode <;> simp [read, Harmless, Obeys]
  | @cons slot out line outs hslot _ ih =>
    obtain ⟨hhead, htail⟩ := List.isChain_cons.mp hchain
    have hpath := atOrBelow_iff_placed hslot
    have hdot := eq_dot_iff hslot
    rw [read]
    cases mode with
    | paths =>
      have hrest := ih htail .paths false (by simp)
      simp only [readArg, List.cons_append, List.nil_append, Obeys, Harmless, hrest, hpath, hdot,
        and_comm]
    | owed name =>
      have hrest := ih htail .options first (by simp)
      cases name with
      | none => simpa only [readArg, List.nil_append, Harmless] using hrest
      | some name =>
        simp only [readArg, List.cons_append, List.nil_append, Obeys, Harmless, hrest, hpath]
        apply and_iff_right
        intro hbearing
        exact hsync name rfl hbearing slot rfl
    | options =>
      have hrest := ih htail .options false (by simp)
      cases slot with
      | placed =>
        have hrooted := (hpath.mpr rfl).1
        simp [readArg_undashed (not_dashed_of_rooted hrooted), Obeys, Harmless, hrest, hpath]
      | dot =>
        have hundashed : ¬dashed out := by
          rw [hdot.mpr rfl]
          decide
        simp [readArg_undashed hundashed, Obeys, Harmless, hrest, hpath, hdot]
      | option arg =>
        obtain ⟨hdash, hkept⟩ := hslot
        rw [obeys_option he hdash hkept, Harmless, readArg_mode hkept]
        have hrest := ih htail (readArg o .options arg).2 first
          (fun name howed hbearing slot hmem =>
            hhead slot hmem arg rfl (takesNext_of_owed howed hbearing))
        rw [hrest]

/-! ## scp -/

theorem mapM_forall₂ {f : Text → Option Text} (h : args.mapM f = some outs) :
    List.Forall₂ (fun arg out => f arg = some out) args outs := by
  induction args generalizing outs with
  | nil =>
    cases h
    exact .nil
  | cons arg args ih =>
    rw [List.mapM_cons] at h
    obtain ⟨out, hout, h⟩ := Option.bind_eq_some_iff.mp h
    obtain ⟨outs', houts, h⟩ := Option.bind_eq_some_iff.mp h
    cases h
    exact .cons hout (ih houts)

/-- Options are letters that are allowed, and all other arguments are placed, apart from a dash
alone. -/
theorem obeysSCP_iff (hroot : Rooted root) (hletters : ∀ c ∈ scpAllowedFlags, o.short c = false)
    (h : List.Forall₂ (fun arg out => rewriteSCPArg root arg = some out) args outs) :
    (∀ item ∈ read o .options outs, ObeysSCP root item) ↔ ['-'] ∉ args := by
  induction h with
  | nil => simp [read]
  | @cons arg out args outs harg _ ih =>
    unfold rewriteSCPArg at harg
    split at harg
    · next hdash =>
      obtain ⟨hallowed, harg⟩ := Option.ite_none_right_eq_some.mp harg
      cases harg
      have hlong : ¬['-', '-'] <+: arg := by
        rintro ⟨rest, rfl⟩
        exact absurd (hallowed '-' (by simp)) (by decide)
      have hsep : arg ≠ ['-', '-'] := by
        rintro rfl
        exact hlong (List.prefix_refl _)
      by_cases hlone : arg = ['-']
      · subst hlone
        have hno := not_atOrBelow_of_dashed root hdash
        simp [read, readArg, ObeysSCP, hno]
      · have hread : readArg o .options arg = readBundle o (arg.drop 1) := by
          rw [readArg_options, if_neg hsep, if_neg (by simp [hdash, hlone]), if_neg hlong]
        have hbundle := readBundle_allowed hletters hallowed
        rw [read, hread, hbundle.2, List.forall_mem_append, ih, List.mem_cons]
        constructor
        · rintro ⟨-, hrest⟩ (heq | hmem)
          · exact hlone heq.symm
          · exact hrest hmem
        · intro hno
          refine ⟨?_, fun hmem => hno (.inr hmem)⟩
          intro item hitem
          obtain ⟨c, v, rfl⟩ := short_of_mem_readBundle hitem
          exact hbundle.1 c v hitem
    · next hdash =>
      cases harg
      have hbelow := atOrBelow_sanitizePath arg hroot
      have hne : ['-'] ≠ arg := by
        rintro rfl
        exact hdash rfl
      rw [read, readArg_undashed (not_dashed_of_rooted hbelow.1), List.forall_mem_append, ih]
      simp [ObeysSCP, hbelow, hne]

end Insula.SftpGateway
