import Insula.PeerPersist

/-!
# The boot file over restarts and power cuts

Whatever fails, a power cut leaves the first file or a whole rendering. That a call which returned
has made its rendering durable fails where a call trusts `synced` although the file has been
replaced, and replaced back, since.
-/

namespace Insula.PeerFile

open Program Durability Transition

/-! ## What survives, and what is left alone -/

/-- What a power cut may leave is the first file or a rendering that was asked for, and what a call
has vouched for it leaves. -/
structure Survives (first : Option Text) (m : Machine) : Prop where
  whole : ∀ k lost, (m.world.disk.cut k lost).read .file = first ∨
    ∃ c ∈ m.asked, (m.world.disk.cut k lost).read .file = some c
  vouched : ∀ c ∈ m.vouched, ∀ k lost, (m.world.disk.cut k lost).read .file = some c

/-- A call that has read its own rendering does not replace the file. -/
def LeavesEqual (m : Machine) : Event → Machine → Prop
  | .act .rename (.ok _), _ => ∀ want rest, m.call = some (want, rest) → m.world.seen ≠ some want
  | _, _ => True

/-- A call does not trust `synced` while a replacement of the file is pending. -/
def TrustsSettled (m : Machine) : Event → Machine → Prop
  | .act .readSynced (.ok synced), _ =>
    ∀ want rest, m.call = some (want, rest) → synced.getD [] = want → m.world.disk.Untouched .file
  | _, _ => True

structure Start (first : Option Text) (m : Machine) : Prop where
  call : m.call = none
  asked : m.asked = []
  vouched : m.vouched = none
  synced : m.world.synced = none
  guarded : m.world.disk.Guarded (· = first) .file .tmp

/-! ## What a call knows -/

inductive Phase
  | begun | matched | differing | opened | written | stable | renamed | settled | failed

def Phase.next (want : Text) : Phase → (o : Op) → Ans o → Phase
  | .begun, .readFile, .ok content => if content = want then .matched else .differing
  | .begun, .readFile, .error _ => .differing
  | .matched, .readSynced, .ok synced => if synced.getD [] = want then .settled else .matched
  | .matched, .fsyncDir, .ok _ => .settled
  | .differing, .openTmp, .ok _ => .opened
  | .opened, .writeTmp _, .ok _ => .written
  | .written, .fsyncTmp, .ok _ => .stable
  | .stable, .rename, .ok _ => .renamed
  | .renamed, .fsyncDir, .ok _ => .settled
  | _, _, .error _ => .failed
  | b, _, .ok _ => b

def Allowed (want : Text) (b : Phase) : Op → Prop
  | .readFile => b = .begun
  | .readSynced => b = .matched
  | .setSynced content => content = want ∧ b = .settled
  | .openTmp => b = .differing
  | .writeTmp content => content = want ∧ b = .opened
  | .fsyncTmp => b = .written
  | .removeTmp => b = .failed
  | .rename => b = .stable
  | .fsyncFile => b = .matched
  | .fsyncDir => b = .matched ∨ b = .renamed
  | _ => True

def discipline (want : Text) : Discipline Op Ans Phase where
  allowed := Allowed want
  next b o r := some (b.next want o r)

/-- A task ends well in a phase that satisfies `R`, or it has failed. -/
abbrev Ends {α : Type} (R : Phase → α → Prop) : Phase → Except Failure α → Prop :=
  Program.Ends R (· = .failed)

section Follows

variable {want : Text} {b : Phase} {α : Type}

theorem ask_ends {o : Op} {R : Phase → Val o → Prop} (hallowed : Allowed want b o)
    (hok : ∀ a, R (b.next want o (.ok a)) a) (herror : ∀ e, b.next want o (.error e) = .failed) :
    Follows (discipline want) (Ends R) (ask o).run b := by
  refine follows_run_request.mpr ⟨hallowed, ?_, ?_⟩
  · intro a b' hb'
    cases hb'
    exact hok a
  · intro e b' hb'
    cases hb'
    exact herror e

theorem wrapping_ends {R : Phase → α → Prop} {x : Task α} (context : String)
    (hx : Follows (discipline want) (Ends R) x.run b) :
    Follows (discipline want) (Ends R) (wrapping context x).run b :=
  ends_tryCatch hx fun _ _ hb' => ends_throw hb'

theorem next_failed (o : Op) (r : Ans o) : Phase.failed.next want o r = .failed := by
  cases o with
  | _ =>
    cases r with
    | ok a => rfl
    | error e => rfl

/-- What is closed or removed after an error does not matter. -/
theorem cleaning_ends {R : Phase → Unit → Prop} {o : Op} (ho : Allowed want .failed o) {x : Task Unit}
    (hx : Follows (discipline want) (Ends R) x.run b) :
    Follows (discipline want) (Ends R) (cleaning o x).run b := by
  refine follows_run_tryCatch.mpr (follows_mono ?_ hx)
  intro b' r h
  cases r with
  | ok a => exact h
  | error e =>
    change b' = .failed at h
    subst h
    change Follows _ _ (ExceptT.run (tryCatch _ _ >>= fun _ => throw e)) _
    refine follows_run_bind.mpr (follows_run_tryCatch.mpr (follows_run_bind.mpr
      (follows_run_request.mpr ⟨ho, ?_, ?_⟩)))
    · intro a b' hb'
      cases hb'
      exact next_failed o _
    · intro e b' hb'
      cases hb'
      exact next_failed o _

theorem writeSynced_ends (path : String) :
    Follows (discipline want) (Ends fun b _ => b = .stable) (writeSynced path want).run .differing := by
  unfold writeSynced
  refine ends_bind (R := fun b _ => b = .opened)
    (wrapping_ends _ (ask_ends rfl (fun _ => rfl) fun _ => rfl)) ?_
  rintro _ - rfl
  refine ends_bind (R := fun b _ => b = .written)
    (cleaning_ends (o := .closeTmp) trivial
      (wrapping_ends _ (ask_ends ⟨rfl, rfl⟩ (fun _ => rfl) fun _ => rfl))) ?_
  rintro _ - rfl
  refine ends_bind (R := fun b _ => b = .stable)
    (cleaning_ends (o := .closeTmp) trivial
      (wrapping_ends _ (ask_ends rfl (fun _ => rfl) fun _ => rfl))) ?_
  rintro _ - rfl
  exact wrapping_ends _ (ask_ends trivial (fun _ => rfl) fun _ => rfl)

theorem syncDirectory_ends (dir : String) (hb : b = .matched ∨ b = .renamed) :
    Follows (discipline want) (Ends fun b _ => b = .settled) (syncDirectory dir).run b := by
  unfold syncDirectory
  refine ends_bind (R := fun b' _ => b' = b) (wrapping_ends _ (ask_ends trivial ?_ ?_)) ?_
  · intro _
    rcases hb with rfl | rfl
    · rfl
    · rfl
  · intro _
    rcases hb with rfl | rfl
    · rfl
    · rfl
  · rintro _ - rfl
    refine wrapping_ends _ (ask_ends hb ?_ ?_)
    · intro _
      rcases hb with rfl | rfl
      · rfl
      · rfl
    · intro _
      rcases hb with rfl | rfl
      · rfl
      · rfl

theorem replace_ends (path dir : String) :
    Follows (discipline want) (Ends fun b _ => b = .settled)
    (replace path dir want).run .differing := by
  unfold replace
  refine ends_bind (R := fun b _ => b = .differing)
    (wrapping_ends _ (ask_ends trivial (fun _ => rfl) fun _ => rfl)) ?_
  rintro _ - rfl
  apply ends_bind (R := fun b _ => b = .stable)
    (cleaning_ends (o := .removeTmp) rfl (writeSynced_ends path))
  rintro _ - rfl
  refine ends_bind (R := fun b _ => b = .renamed)
    (cleaning_ends (o := .removeTmp) rfl
      (wrapping_ends _ (ask_ends rfl (fun _ => rfl) fun _ => rfl))) ?_
  rintro _ - rfl
  exact syncDirectory_ends dir (.inr rfl)

theorem setSynced_ends :
    Follows (discipline want) (Ends fun b _ => b = .settled) (ask (.setSynced want)).run .settled :=
  ask_ends ⟨rfl, rfl⟩ (fun _ => rfl) fun _ => rfl

theorem persistMatching_ends (path dir : String) :
    Follows (discipline want) (Ends fun b _ => b = .settled) (persistMatching path dir want).run
      .matched := by
  unfold persistMatching
  refine ends_bind (R := fun b (synced : Option Text) =>
    b = if synced.getD [] = want then .settled else .matched)
    (ask_ends rfl (fun _ => rfl) fun _ => rfl) ?_
  rintro _ synced rfl
  by_cases hsynced : synced.getD [] = want
  · rw [if_pos hsynced, if_pos hsynced]
    rfl
  · rw [if_neg hsynced, if_neg hsynced]
    apply ends_bind (R := fun b _ => b = .settled)
    · unfold syncExisting
      refine ends_bind (R := fun b _ => b = .matched)
        (wrapping_ends _ (ask_ends trivial (fun _ => rfl) fun _ => rfl)) ?_
      rintro _ - rfl
      refine ends_bind (R := fun b _ => b = .matched)
        (wrapping_ends _ (ask_ends rfl (fun _ => rfl) fun _ => rfl)) ?_
      rintro _ - rfl
      exact syncDirectory_ends dir (.inl rfl)
    · rintro _ - rfl
      exact setSynced_ends

theorem readExisting_ends : Follows (discipline want) (Ends fun b existing =>
      b = if existing = some want then .matched else .differing) readExisting.run .begun := by
  unfold readExisting
  refine follows_run_tryCatch.mpr (follows_run_bind.mpr (follows_run_request.mpr ⟨rfl, ?_, ?_⟩))
  · intro content b' hb'
    cases hb'
    change Phase.next want .begun .readFile (.ok content) = _
    by_cases hcontent : content = want
    · rw [if_pos (congrArg some hcontent)]
      exact if_pos hcontent
    · rw [if_neg fun h => hcontent (Option.some.inj h)]
      exact if_neg hcontent
  · intro e b' hb'
    cases hb'
    rfl

/-- A call that returns without an error has settled the file. -/
theorem persist_ends (path dir : String) (s : PeerNftSets) :
    Follows (discipline (renderPeerSets s)) (Ends fun b _ => b = .settled) (persist path dir s).run
      .begun := by
  unfold persist
  apply ends_bind readExisting_ends
  rintro _ existing rfl
  by_cases hexisting : existing = some (renderPeerSets s)
  · rw [if_pos hexisting, if_pos hexisting]
    exact persistMatching_ends path dir
  · rw [if_neg hexisting, if_neg hexisting]
    unfold persistReplacing
    apply ends_bind (replace_ends path dir)
    rintro _ - rfl
    exact setSynced_ends

end Follows

/-! ## What the calls do to the disk -/

def Holds (want : Text) (d : Disk Name Char) : Prop :=
  ∃ id, d.current .tmp = some id ∧ (d.inodes id).data = want

def HoldsSynced (want : Text) (d : Disk Name Char) : Prop :=
  ∃ id, d.current .tmp = some id ∧ (d.inodes id).synced = true ∧ (d.inodes id).data = want

def Knows (want : Text) (w : World) : Phase → Prop
  | .begun => True
  | .matched => w.disk.read .file = some want
  | .differing => w.seen ≠ some want
  | .opened => w.seen ≠ some want ∧ ∃ id, w.disk.current .tmp = some id
  | .written => w.seen ≠ some want ∧ Holds want w.disk
  | .stable => w.seen ≠ some want ∧ HoldsSynced want w.disk
  | .renamed => w.disk.read .file = some want
  | .settled => w.disk.read .file = some want ∧ w.disk.Untouched .file
  | .failed => True

section Respond

variable {P : Option Text → Prop} {want : Text} {w w' : World} {b : Phase}

theorem respond_keeps {o : Op} {r : Ans o} (h : w.respond o r = some w')
    (hguarded : w.disk.Guarded P .file .tmp) (ho : ∀ a, ⟨o, r⟩ ≠ (⟨.rename, .ok a⟩ : Sigma Ans)) :
    w'.disk.Guarded P .file .tmp ∧ Disk.Keeps .file w.disk w'.disk := by
  have hne : Name.file ≠ .tmp := by decide
  have hsame : some w = some w' →
      w'.disk.Guarded P .file .tmp ∧ Disk.Keeps .file w.disk w'.disk := by
    intro h
    cases h
    exact ⟨hguarded, rfl, fun h => h⟩
  cases o with
  | readFile =>
    cases r with
    | ok content =>
      obtain ⟨-, h⟩ := Option.ite_none_right_eq_some.mp h
      cases h
      exact ⟨hguarded, rfl, fun h => h⟩
    | error e =>
      cases h
      exact ⟨hguarded, rfl, fun h => h⟩
  | readSynced =>
    cases r with
    | ok synced =>
      obtain ⟨-, h⟩ := Option.ite_none_right_eq_some.mp h
      exact hsame h
    | error e => cases h
  | setSynced content =>
    cases r with
    | ok _ =>
      cases h
      exact ⟨hguarded, rfl, fun h => h⟩
    | error e => cases h
  | mkdirAll => cases r with | _ => exact hsame h
  | openTmp =>
    cases r with
    | ok _ =>
      cases h
      exact ⟨hguarded.openTrunc hne, hguarded.keeps_openTrunc hne⟩
    | error e => exact hsame h
  | writeTmp content =>
    cases r with
    | ok _ =>
      cases h
      exact ⟨hguarded.write _, hguarded.keeps_write _⟩
    | error e =>
      cases h
      exact ⟨hguarded.write _, hguarded.keeps_write _⟩
  | fsyncTmp =>
    cases r with
    | ok _ =>
      cases h
      exact ⟨hguarded.fsync _, Disk.keeps_fsync _ _⟩
    | error e => exact hsame h
  | closeTmp => cases r with | _ => exact hsame h
  | removeTmp =>
    cases r with
    | ok _ =>
      cases h
      exact ⟨hguarded.unlink hne, Disk.keeps_change (by decide)⟩
    | error e => exact hsame h
  | rename =>
    cases r with
    | ok a => exact absurd rfl (ho a)
    | error e => exact hsame h
  | openFile => cases r with | _ => exact hsame h
  | fsyncFile =>
    cases r with
    | ok _ =>
      cases h
      exact ⟨hguarded.fsync _, Disk.keeps_fsync _ _⟩
    | error e => exact hsame h
  | openDir => cases r with | _ => exact hsame h
  | fsyncDir =>
    cases r with
    | ok _ =>
      cases h
      exact ⟨hguarded.syncDir, Disk.keeps_syncDir _⟩
    | error e => exact hsame h

theorem respond_rename {a : Unit} (h : w.respond .rename (.ok a) = some w')
    (hguarded : w.disk.Guarded P .file .tmp) (hwant : P (some want))
    (hholds : HoldsSynced want w.disk) :
    w'.disk.Guarded P .file .tmp ∧ w'.disk.read .file = some want := by
  have hne : Name.file ≠ .tmp := by decide
  obtain ⟨id, hid, hsynced, hdata⟩ := hholds
  obtain ⟨-, h⟩ := Option.ite_none_right_eq_some.mp h
  cases h
  refine ⟨hguarded.rename hne hid hsynced ?_, ?_⟩
  · rw [hdata]
    exact hwant
  · exact (Disk.read_rename hne hid).trans (congrArg some hdata)

theorem knows_readFile {r : Ans .readFile} (h : w.respond .readFile r = some w') :
    Knows want w' (Phase.next want .begun .readFile r) := by
  cases r with
  | ok content =>
    obtain ⟨hread, h⟩ := Option.ite_none_right_eq_some.mp h
    cases h
    change Knows want _ (if content = want then Phase.matched else Phase.differing)
    by_cases hcontent : content = want
    · rw [if_pos hcontent, ← hcontent]
      exact hread
    · rw [if_neg hcontent]
      exact fun heq => hcontent (Option.some.inj heq)
  | error e =>
    cases h
    exact fun heq => nomatch heq

theorem knows_readSynced {r : Ans .readSynced} (h : w.respond .readSynced r = some w')
    (hknows : Knows want w .matched)
    (htrusts : ∀ synced, r = .ok synced → synced.getD [] = want → w.disk.Untouched .file) :
    Knows want w' (Phase.next want .matched .readSynced r) := by
  cases r with
  | ok synced =>
    obtain ⟨-, h⟩ := Option.ite_none_right_eq_some.mp h
    cases h
    change Knows want _ (if synced.getD [] = want then Phase.settled else Phase.matched)
    by_cases hsynced : synced.getD [] = want
    · rw [if_pos hsynced]
      exact ⟨hknows, htrusts synced rfl hsynced⟩
    · rw [if_neg hsynced]
      exact hknows
  | error e => cases h

theorem knows_openTmp {r : Ans .openTmp} (h : w.respond .openTmp r = some w')
    (hknows : Knows want w .differing) : Knows want w' (Phase.next want .differing .openTmp r) := by
  cases r with
  | ok _ =>
    cases h
    exact ⟨hknows, Disk.exists_current_openTrunc _⟩
  | error e => trivial

theorem knows_writeTmp {r : Ans (.writeTmp want)} (h : w.respond (.writeTmp want) r = some w')
    (hknows : Knows want w .opened) :
    Knows want w' (Phase.next want .opened (.writeTmp want) r) := by
  obtain ⟨hseen, id, hid⟩ := hknows
  cases r with
  | ok _ =>
    cases h
    exact ⟨hseen, id, Disk.write_of_current hid _⟩
  | error e => trivial

theorem knows_fsyncTmp {r : Ans .fsyncTmp} (h : w.respond .fsyncTmp r = some w')
    (hknows : Knows want w .written) : Knows want w' (Phase.next want .written .fsyncTmp r) := by
  obtain ⟨hseen, id, hid, hdata⟩ := hknows
  cases r with
  | ok _ =>
    cases h
    obtain ⟨hcurrent, hsynced, hsame⟩ := Disk.fsync_of_current hid
    exact ⟨hseen, id, hcurrent, hsynced, hsame.trans hdata⟩
  | error e => trivial

theorem knows_fsyncFile {r : Ans .fsyncFile} (h : w.respond .fsyncFile r = some w')
    (hknows : Knows want w .matched) : Knows want w' (Phase.next want .matched .fsyncFile r) := by
  cases r with
  | ok _ =>
    cases h
    exact (Disk.keeps_fsync Name.file Name.file).1.trans hknows
  | error e => trivial

theorem knows_fsyncDir {r : Ans .fsyncDir} (h : w.respond .fsyncDir r = some w')
    (hb : b = .matched ∨ b = .renamed) (hknows : Knows want w b) :
    Knows want w' (b.next want .fsyncDir r) := by
  have hread : w.disk.read .file = some want := by
    rcases hb with rfl | rfl
    · exact hknows
    · exact hknows
  cases r with
  | ok a =>
    cases h
    have hsettled : b.next want .fsyncDir (.ok a) = .settled := by
      rcases hb with rfl | rfl
      · rfl
      · rfl
    rw [hsettled]
    exact ⟨(Disk.keeps_syncDir Name.file).1.trans hread, Disk.untouched_syncDir _⟩
  | error e =>
    rcases hb with rfl | rfl
    · trivial
    · trivial

theorem respond_knows {o : Op} {r : Ans o} (h : w.respond o r = some w')
    (hguarded : w.disk.Guarded P .file .tmp) (hwant : P (some want)) (hallowed : Allowed want b o)
    (hknows : Knows want w b)
    (htrusts : ∀ synced, (⟨o, r⟩ : Sigma Ans) = ⟨.readSynced, .ok synced⟩ → synced.getD [] = want →
      w.disk.Untouched .file) : Knows want w' (b.next want o r) := by
  have hquiet : some w = some w' → ∀ a, b.next want o (.ok a) = b →
    Knows want w' (b.next want o (.ok a)) := by
    intro h a hnext
    cases h
    rw [hnext]
    exact hknows
  cases o with
  | readFile =>
    cases hallowed
    exact knows_readFile h
  | readSynced =>
    cases hallowed
    exact knows_readSynced h hknows fun synced hr => htrusts synced (hr ▸ rfl)
  | setSynced content =>
    obtain ⟨-, rfl⟩ := hallowed
    cases r with
    | ok _ =>
      cases h
      exact hknows
    | error e => cases h
  | openTmp =>
    cases hallowed
    exact knows_openTmp h hknows
  | writeTmp content =>
    obtain ⟨rfl, rfl⟩ := hallowed
    exact knows_writeTmp h hknows
  | fsyncTmp =>
    cases hallowed
    exact knows_fsyncTmp h hknows
  | removeTmp =>
    cases hallowed
    rw [next_failed]
    trivial
  | rename =>
    cases hallowed
    cases r with
    | ok a => exact (respond_rename h hguarded hwant hknows.2).2
    | error e => trivial
  | fsyncFile =>
    cases hallowed
    exact knows_fsyncFile h hknows
  | fsyncDir => exact knows_fsyncDir h hallowed hknows
  | mkdirAll =>
    cases r with
    | ok a => exact hquiet h a (by cases b with | _ => rfl)
    | error e => cases b with | _ => trivial
  | closeTmp =>
    cases r with
    | ok a => exact hquiet h a (by cases b with | _ => rfl)
    | error e => cases b with | _ => trivial
  | openFile =>
    cases r with
    | ok a => exact hquiet h a (by cases b with | _ => rfl)
    | error e => cases b with | _ => trivial
  | openDir =>
    cases r with
    | ok a => exact hquiet h a (by cases b with | _ => rfl)
    | error e => cases b with | _ => trivial

end Respond

/-! ## Runs -/

def Whole (first : Option Text) (asked : List Text) (content : Option Text) : Prop :=
  content = first ∨ ∃ c ∈ asked, content = some c

def CallKnows (m : Machine) : Prop :=
  ∀ want rest, m.call = some (want, rest) → want ∈ m.asked ∧ ∃ b, Knows want m.world b ∧
    Follows (discipline want) (Ends fun b _ => b = .settled) rest b

structure Kept (first : Option Text) (m : Machine) : Prop where
  guarded : m.world.disk.Guarded (Whole first m.asked) .file .tmp
  vouched : ∀ c ∈ m.vouched, m.world.disk.read .file = some c ∧ m.world.disk.Untouched .file
  call : CallKnows m

theorem guarded_mono {P P' : Option Text → Prop} (hP : ∀ c, P c → P' c) {d : Disk Name Char}
    (h : d.Guarded P .file .tmp) : d.Guarded P' .file .tmp where
  shows k id hn := ⟨(h.shows k id hn).1, hP _ (h.shows k id hn).2⟩
  missing k hn := hP _ (h.missing k hn)
  apart := h.apart
  fresh := h.fresh
  scratch := h.scratch

theorem kept_of_start {first : Option Text} {m : Machine} (h : Start first m) : Kept first m where
  guarded := guarded_mono (fun _ => .inl) h.guarded
  vouched := by
    intro c hc
    rw [h.vouched] at hc
    cases hc
  call := by
    intro want rest hcall
    rw [h.call] at hcall
    cases hcall

theorem survives_of_kept {first : Option Text} {m : Machine} (h : Kept first m) : Survives first m where
  whole k lost := (h.guarded.cut k lost).read
  vouched := by
    intro c hc k lost
    obtain ⟨hread, huntouched⟩ := h.vouched c hc
    exact (h.guarded.read_cut huntouched k lost).trans hread

section Steps

variable {path dir : String} {first : Option Text} {m m' : Machine}

theorem kept_begin (h : Kept first m) (s : PeerNftSets) : Kept first (m.beginCall path dir s) where
  guarded := by
    refine guarded_mono ?_ h.guarded
    rintro c (hc | ⟨a, ha, hc⟩)
    · exact .inl hc
    · exact .inr ⟨a, List.mem_append_left _ ha, hc⟩
  vouched := h.vouched
  call := by
    intro want rest hcall
    cases hcall
    exact ⟨List.mem_append_right _ (List.mem_singleton_self _), .begun, trivial,
      persist_ends path dir s⟩

theorem kept_act {o : Op} {r : Ans o} (h : Kept first m)
    (hs : step path dir m (.act o r) = some m') (hcond : TrustsSettled m (.act o r) m') :
    Kept first m' ∧ LeavesEqual m (.act o r) m' := by
  obtain ⟨⟨want, rest⟩, hcall, hact⟩ := Option.bind_eq_some_iff.mp hs
  cases rest with
  | pure result => cases hact
  | call o' next =>
    change (if h : o = o' then _ else none) = some m' at hact
    split_ifs at hact with ho
    subst ho
    obtain ⟨w, hw, rfl⟩ := Option.map_eq_some_iff.mp hact
    obtain ⟨hwant, b, hknows, hallowed, hnext⟩ := h.call want _ hcall
    have hwhole : Whole first m.asked (some want) := .inr ⟨want, hwant, rfl⟩
    have htrusts : ∀ synced, (⟨o, r⟩ : Sigma Ans) = ⟨.readSynced, .ok synced⟩ →
        synced.getD [] = want → m.world.disk.Untouched .file := by
      rintro synced heq hsynced
      cases heq
      exact hcond want _ hcall hsynced
    have hafter := respond_knows hw h.guarded hwhole hallowed hknows htrusts
    have hcallKnows : CallKnows
        { m with world := w, call := some (want, next r), vouched := vouchedAfter m.vouched o r } := by
      intro want' rest' hcall'
      cases hcall'
      exact ⟨hwant, _, hafter, hnext r _ rfl⟩
    by_cases hrename : ∃ a, (⟨o, r⟩ : Sigma Ans) = ⟨.rename, .ok a⟩
    · obtain ⟨a, heq⟩ := hrename
      cases heq
      cases hallowed
      refine ⟨⟨(respond_rename hw h.guarded hwhole hknows.2).1, ?_, hcallKnows⟩, ?_⟩
      · exact fun c hc => nomatch hc
      · intro want' rest' hcall'
        rw [hcall] at hcall'
        cases hcall'
        exact hknows.1
    · have hnot : ∀ a, (⟨o, r⟩ : Sigma Ans) ≠ ⟨.rename, .ok a⟩ := fun a heq => hrename ⟨a, heq⟩
      obtain ⟨hguarded, hkeeps⟩ := respond_keeps hw h.guarded hnot
      have hvouched : vouchedAfter m.vouched o r = m.vouched := by
        unfold vouchedAfter
        split
        · exact absurd rfl (hnot _)
        · rfl
      refine ⟨⟨hguarded, ?_, hcallKnows⟩, ?_⟩
      · intro c hc
        obtain ⟨hread, huntouched⟩ := h.vouched c (hvouched ▸ hc)
        exact ⟨hkeeps.1.trans hread, hkeeps.2 huntouched⟩
      · unfold LeavesEqual
        split
        · rename_i heq
          cases heq
          exact absurd rfl (hnot _)
        · trivial

theorem kept_finish (h : Kept first m) (hs : step path dir m .finish = some m') : Kept first m' := by
  obtain ⟨⟨want, rest⟩, hcall, hfinish⟩ := Option.bind_eq_some_iff.mp hs
  obtain ⟨hwant, b, hknows, hfollows⟩ := h.call want rest hcall
  cases rest with
  | call o next => cases hfinish
  | pure result =>
    cases result with
    | ok a =>
      cases hfinish
      have hsettled : b = .settled := hfollows
      subst hsettled
      refine ⟨h.guarded, ?_, ?_⟩
      · intro c hc
        cases hc
        exact hknows
      · exact fun want' rest' hcall' => nomatch hcall'
    | error e =>
      cases hfinish
      refine ⟨h.guarded, h.vouched, ?_⟩
      exact fun want' rest' hcall' => nomatch hcall'

theorem kept_cut (h : Kept first m) (k : ℕ) (lost : ℕ → Text)
    (hs : step path dir m (.cut k lost) = some m') : Kept first m' := by
  cases hs
  refine ⟨h.guarded.cut k lost, ?_, ?_⟩
  · intro c hc
    obtain ⟨hread, huntouched⟩ := h.vouched c hc
    exact ⟨(h.guarded.read_cut huntouched k lost).trans hread, Disk.untouched_cut k lost _⟩
  · exact fun want rest hcall => nomatch hcall

theorem kept_step {e : Event} (h : Kept first m) (hs : step path dir m e = some m')
    (hcond : TrustsSettled m e m') : Kept first m' ∧ LeavesEqual m e m' := by
  cases e with
  | begin s =>
    change (if m.call.isNone = true then _ else none) = some m' at hs
    split_ifs at hs
    cases hs
    exact ⟨kept_begin h s, trivial⟩
  | act o r => exact kept_act h hs hcond
  | finish => exact ⟨kept_finish h hs, trivial⟩
  | restart =>
    cases hs
    exact ⟨⟨h.guarded, h.vouched, fun want rest hcall => nomatch hcall⟩, trivial⟩
  | cut k lost => exact ⟨kept_cut h k lost hs, trivial⟩

end Steps

/-- In a run in which no call trusts `synced` while a replacement of the file is pending, the boot
file survives every power cut, and a call that has read its own rendering replaces nothing. -/
theorem boot_file_survives (path dir : String) {first : Option Text} {m m' : Machine} {es : List Event}
    (hstart : Start first m) (hcond : Along (step path dir) TrustsSettled m es)
    (hexec : exec (step path dir) m es = some m') :
    Survives first m' ∧ Along (step path dir) LeavesEqual m es := by
  have hkept := kept_of_start hstart
  clear hstart
  induction es generalizing m with
  | nil =>
    cases hexec
    exact ⟨survives_of_kept hkept, trivial⟩
  | cons e es ih =>
    obtain ⟨n, hn, hrest⟩ := (exec_cons_eq_some _).mp hexec
    obtain ⟨hkept', hleaves⟩ := kept_step hkept hn (hcond n hn).1
    obtain ⟨hsurvives, halong⟩ := ih (hcond n hn).2 hrest hkept'
    exact ⟨hsurvives, along_cons_of _ hn hleaves halong⟩

/-! ### Two sets of peers -/

def onePeer (peer : String) : PeerNftSets where
  peersV4 := [peer]
  peersV6 := []
  trustedV4 := []
  trustedV6 := []

def headerText : Text :=
  "# Generated by firewall-reconciler. Do not edit.\n".toList ++
    ("# Last-known-good set members, replayed at boot so a rebooted node\n".toList ++
      "# can reach its peers before the cluster is reachable.\n".toList)

theorem header_toList : header.toList = headerText := by
  unfold header
  rw [String.toList_append, String.toList_append]
  unfold headerText
  exact List.append_assoc _ _ _

def rendered (peer : String) : Text :=
  headerText ++ ("add element inet filter cluster_peers_v4 \x7b ".toList ++ (peer.toList ++ " \x7d\n".toList))

theorem render_onePeer (peer : String) : renderPeerSets (onePeer peer) = rendered peer := by
  unfold rendered
  rw [← header_toList]
  simp only [renderPeerSets, onePeer, writeSet, String.toList_append, List.length_cons, List.length_nil,
    List.mergeSort_singleton]
  simp

section Texts

variable (path dir : String) (text : PeerNftSets → Text)

def stepWith (m : Machine) : Event → Option Machine
  | .begin s =>
    if m.call.isNone then
      some { m with
        world := { m.world with seen := none }
        call := some (text s, (do
          let existing ← readExisting
          if existing = some (text s) then persistMatching path dir (text s)
          else persistReplacing path dir (text s) : Task Unit).run)
        asked := m.asked ++ [text s] }
    else none
  | e => step path dir m e

theorem exec_stepWith {es : List Event} (h : ∀ s, .begin s ∈ es → text s = renderPeerSets s)
    (m : Machine) :
    exec (step path dir) m es = exec (stepWith path dir text) m es := by
  induction es generalizing m with
  | nil => rfl
  | cons e es ih =>
    have hstep : step path dir m e = stepWith path dir text m e := by
      cases e with
      | begin s =>
        unfold stepWith
        dsimp only
        rw [h s (List.mem_cons_self ..)]
        rfl
      | _ => rfl
    have hrest : ∀ n, exec (step path dir) n es = exec (stepWith path dir text) n es :=
      ih fun s hs => h s (List.mem_cons_of_mem _ hs)
    rw [exec_cons, exec_cons, hstep]
    congr 1
    funext n
    exact hrest n

end Texts

def knownText (s : PeerNftSets) : Text := rendered (s.peersV4.headD "")

theorem knownText_onePeer (peer : String) : knownText (onePeer peer) = renderPeerSets (onePeer peer) :=
  (render_onePeer peer).symm

def fresh : Machine where
  world :=
    { disk := { inodes := fun _ => { data := [], synced := true }, next := 0
                durable := fun _ => none, pending := [] }
      synced := none
      seen := none }
  call := none
  asked := []
  vouched := none

theorem dirAt_fresh (k : ℕ) (n : Name) : fresh.world.disk.dirAt k n = none := by
  unfold Disk.dirAt
  rw [show fresh.world.disk.pending = [] from rfl, List.take_nil]
  rfl

theorem start_fresh : Start none fresh where
  call := rfl
  asked := rfl
  vouched := rfl
  synced := rfl
  guarded :=
    { shows := fun k id hn => by simp [dirAt_fresh] at hn
      missing := fun _ _ => rfl
      apart := fun j k id _ hn => by simp [dirAt_fresh] at hn
      fresh := fun k id hn => by simp [dirAt_fresh] at hn
      scratch := fun k id hn => by simp [dirAt_fresh] at hn }

def replacing (s : PeerNftSets) (r : Ans .readFile) : List Event :=
  [.begin s, .act .readFile r, .act .mkdirAll (.ok ()), .act .openTmp (.ok ()),
    .act (.writeTmp (renderPeerSets s)) (.ok ()), .act .fsyncTmp (.ok ()), .act .closeTmp (.ok ()),
    .act .rename (.ok ()), .act .openDir (.ok ())]

def failure : Failure := { message := "input/output error", written := 0 }

def firstWrite (s : PeerNftSets) : List Event :=
  replacing s (.error failure) ++
    [.act .fsyncDir (.ok ()), .act (.setSynced (renderPeerSets s)) (.ok ()), .finish]

theorem firstWrite_trusts (s : PeerNftSets) :
    Along (step "/p" "/") TrustsSettled fresh (firstWrite s) := by
  refine along_of_forall _ ?_ _
  intro e he m m'
  unfold TrustsSettled
  split
  · simp [firstWrite, replacing] at he
  · trivial

/-- After the call its rendering survives. -/
theorem first_write_survives : ∃ m', exec (step "/p" "/") fresh (firstWrite (onePeer "10.0.0.1")) =
    some m' ∧ m'.vouched.isSome ∧ Survives none m' := by
  have hrun : ((exec (step "/p" "/") fresh (firstWrite (onePeer "10.0.0.1"))).any
      fun m' => m'.vouched.isSome) = true := by
    rw [exec_stepWith _ _ knownText]
    · unfold firstWrite replacing
      rw [render_onePeer]
      decide +kernel
    · intro s hs
      obtain rfl : s = onePeer "10.0.0.1" := by simpa [firstWrite, replacing] using hs
      exact knownText_onePeer _
  obtain ⟨m', hexec, hvouched⟩ := (Option.any_eq_true _ _).mp hrun
  exact ⟨m', hexec, hvouched, (boot_file_survives "/p" "/" start_fresh (firstWrite_trusts _) hexec).1⟩

/-- The first set is written; the second replaces it and then the first the second, but neither sync
of the directory succeeds; then a call finds the first set in the file and in `synced`. -/
def backAndForth : List Event :=
  let a := onePeer "10.0.0.1"
  let b := onePeer "10.0.0.2"
  firstWrite a ++
    replacing b (.ok (renderPeerSets a)) ++ [.act .fsyncDir (.error failure), .finish] ++
    replacing a (.ok (renderPeerSets b)) ++ [.act .fsyncDir (.error failure), .finish] ++
    [.begin a, .act .readFile (.ok (renderPeerSets a)),
      .act .readSynced (.ok (some (renderPeerSets a))), .finish]

/-- The last call returned without an error, and a power cut can bring the second set back. -/
theorem second_set_comes_back : ¬ ∀ (path dir : String) (first : Option Text) (m m' : Machine)
    (es : List Event), Start first m → exec (step path dir) m es = some m' → Survives first m' := by
  intro hall
  have hrun : ((exec (step "/p" "/") fresh backAndForth).any fun m' =>
      m'.vouched = some (renderPeerSets (onePeer "10.0.0.1")) &&
        (m'.world.disk.cut 2 fun _ => []).read .file ≠
          some (renderPeerSets (onePeer "10.0.0.1"))) = true := by
    rw [exec_stepWith _ _ knownText]
    · unfold backAndForth firstWrite replacing
      dsimp only
      rw [render_onePeer, render_onePeer]
      decide +kernel
    · intro s hs
      have hpeer : s = onePeer "10.0.0.1" ∨ s = onePeer "10.0.0.2" := by
        simp [backAndForth, firstWrite, replacing] at hs
        tauto
      rcases hpeer with rfl | rfl
      · exact knownText_onePeer _
      · exact knownText_onePeer _
  obtain ⟨m', hexec, hm'⟩ := (Option.any_eq_true _ _).mp hrun
  obtain ⟨hvouched, hcut⟩ := Bool.and_eq_true_iff.mp hm'
  have hsurvives := hall "/p" "/" none fresh m' backAndForth start_fresh hexec
  exact of_decide_eq_true hcut (hsurvives.vouched _ (of_decide_eq_true hvouched) 2 fun _ => [])

end Insula.PeerFile
