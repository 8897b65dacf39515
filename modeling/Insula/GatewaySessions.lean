import Insula.GatewayConfinement

/-!
# Sessions within the directory of the user

Three inputs lead out of the directory of the user: a home that climbs above the volume, a line with
an argument that the program reads otherwise than the gateway took it, and for `scp` a dash alone.
On all others the rewriting confines the session.
-/

namespace Insula.SftpGateway

open Paths

/-! ## The home of the user -/

inductive Place
  | inside (depth : ℕ)
  | root
  | outside (depth : ℕ)

def volume : Text := ['d', 'a', 't', 'a']

def Place.up : Place → Place
  | .inside 0 | .outside 0 | .root => .root
  | .inside (depth + 1) => .inside depth
  | .outside (depth + 1) => .outside depth

def Place.down (name : Text) : Place → Place
  | .inside depth => .inside (depth + 1)
  | .outside depth => .outside (depth + 1)
  | .root => if name = volume then .inside 0 else .outside 0

def Place.enter (place : Place) (part : Text) : Place :=
  if part = [] ∨ part = ['.'] then place
  else if part = ['.', '.'] then place.up
  else place.down part

/-- A climb above the volume is taken back by naming the volume again. -/
def HomeStays (homePath : Text) : Prop :=
  ∃ depth, (homePath.splitOn '/').foldl Place.enter (.inside 0) = .inside depth

def Place.Of : Place → List Text → Prop
  | .inside depth, dirs => ∃ below, dirs = volume :: below ∧ below.length = depth
  | .root, dirs => dirs = []
  | .outside depth, dirs => ∃ name below, dirs = name :: below ∧ name ≠ volume ∧ below.length = depth

variable {place : Place} {dirs : List Text}

theorem Place.of_up (h : place.Of dirs) : place.up.Of dirs.dropLast := by
  -- the last directory is the first one, or one below it
  cases place with
  | root =>
    cases h
    rfl
  | inside depth =>
    obtain ⟨below, rfl, rfl⟩ := h
    cases below with
    | nil => rfl
    | cons name below => exact ⟨_, rfl, by simp⟩
  | outside depth =>
    obtain ⟨first, below, rfl, hne, rfl⟩ := h
    cases below with
    | nil => rfl
    | cons name below => exact ⟨_, _, rfl, hne, by simp⟩

theorem Place.of_down (h : place.Of dirs) (name : Text) :
    (place.down name).Of (dirs ++ [name]) := by
  cases place with
  | root =>
    cases h
    by_cases hname : name = volume
    · simp [Place.down, Place.Of, hname]
    · simp [Place.down, Place.Of, hname]
  | inside depth =>
    obtain ⟨below, rfl, rfl⟩ := h
    exact ⟨below ++ [name], rfl, by simp⟩
  | outside depth =>
    obtain ⟨first, below, rfl, hne, rfl⟩ := h
    exact ⟨first, below ++ [name], rfl, hne, by simp⟩

theorem Place.of_foldl_enter (h : place.Of dirs) (names : List Text) :
    (names.foldl Place.enter place).Of (names.foldl Paths.enter dirs) := by
  induction names generalizing place dirs with
  | nil => exact h
  | cons part names ih =>
    apply ih
    unfold Place.enter Paths.enter
    split
    · exact h
    · split
      · exact Place.of_up h
      · exact Place.of_down h part

theorem prefix_iff_inside (h : place.Of dirs) :
    [volume] <+: dirs ↔ ∃ depth, place = .inside depth := by
  cases place with
  | root =>
    cases h
    simp
  | inside depth =>
    obtain ⟨below, rfl, rfl⟩ := h
    simp
  | outside depth =>
    obtain ⟨first, below, rfl, hne, rfl⟩ := h
    simp [hne.symm]

theorem foldl_enter_trimPrefixSlash (homePath : Text) (dirs : List Text) :
    ((trimPrefixSlash homePath).splitOn '/').foldl Paths.enter dirs =
      (homePath.splitOn '/').foldl Paths.enter dirs := by
  unfold trimPrefixSlash
  split
  · next rest =>
    rw [splitOn_cons_slash]
    rfl
  · rfl

theorem parts_dataRoot (homePath : Text) :
    parts (dataRoot homePath) = (homePath.splitOn '/').foldl Paths.enter [volume] := by
  have hdata : parts "/data".toList = [volume] := by decide +kernel
  have hprefix : "/data/".toList = "/data".toList ++ ['/'] := by decide +kernel
  rw [dataRoot, parts_clean, hprefix, List.append_assoc, List.singleton_append,
    parts_append_slash, hdata, foldl_enter_trimPrefixSlash]

theorem atOrBelow_dataRoot_iff (homePath : Text) :
    AtOrBelow "/data".toList (dataRoot homePath) ↔ HomeStays homePath := by
  have hstart : (Place.inside 0).Of [volume] := ⟨[], rfl, rfl⟩
  have hplace := Place.of_foldl_enter hstart (homePath.splitOn '/')
  have hdata : parts "/data".toList = [volume] := by decide +kernel
  unfold AtOrBelow
  rw [hdata, parts_dataRoot, prefix_iff_inside hplace, and_iff_right]
  · rfl
  · exact rooted_clean _

/-- Without `..` what is entered does not depend on where one is. -/
theorem foldl_enter_append {comps : List Text} (h : ['.', '.'] ∉ comps) (dirs : List Text) :
    comps.foldl Paths.enter dirs = dirs ++ comps.foldl Paths.enter [] := by
  induction comps generalizing dirs with
  | nil => exact (List.append_nil dirs).symm
  | cons part comps ih =>
    have hpart : part ≠ ['.', '.'] := fun heq => h (heq ▸ List.mem_cons_self)
    have ih := ih fun hmem => h (List.mem_cons_of_mem part hmem)
    rw [List.foldl_cons, List.foldl_cons, ih, ih (Paths.enter [] part)]
    unfold Paths.enter
    split_ifs
    · rfl
    · rw [List.append_assoc, List.nil_append]

theorem foldl_enter_replicate (n : ℕ) (dirs : List Text) :
    (List.replicate n []).foldl Paths.enter dirs = dirs := by
  induction n with
  | zero => rfl
  | succ n ih => exact ih

theorem splitOn_trimSlashes (homePath : Text) : ∃ m n, homePath.splitOn '/' =
    List.replicate m [] ++ (trimSlashes homePath).splitOn '/' ++ List.replicate n [] := by
  have hfront : ∀ s : Text, ∃ m, s.splitOn '/' =
      List.replicate m [] ++ (s.dropWhile (· = '/')).splitOn '/' := by
    intro s
    induction s with
    | nil => exact ⟨0, rfl⟩
    | cons c s ih =>
      by_cases hc : c = '/'
      · obtain ⟨m, hm⟩ := ih
        exact ⟨m + 1, by rw [hc, splitOn_cons_slash, hm]; rfl⟩
      · exact ⟨0, by rw [List.dropWhile_cons_of_neg (by simpa using hc)]; rfl⟩
  have hback : ∀ s : Text, ∃ n, s.splitOn '/' =
      (s.rdropWhile (· = '/')).splitOn '/' ++ List.replicate n [] := by
    intro s
    induction s using List.reverseRecOn with
    | nil => exact ⟨0, rfl⟩
    | append_singleton s c ih =>
      by_cases hc : c = '/'
      · obtain ⟨n, hn⟩ := ih
        refine ⟨n + 1, ?_⟩
        rw [hc, List.rdropWhile_concat_pos _ _ _ (by simp), List.splitOn_append_cons_self, hn,
          List.splitOn_nil, List.append_assoc, List.replicate_succ']
      · exact ⟨0, by rw [List.rdropWhile_concat_neg _ _ _ (by simpa using hc), List.replicate_zero,
          List.append_nil]⟩
  obtain ⟨m, hm⟩ := hfront homePath
  obtain ⟨n, hn⟩ := hback (homePath.dropWhile (· = '/'))
  exact ⟨m, n, by rw [hm, hn, List.append_assoc]; rfl⟩

/-- `sftp-serve` is confined to the whole volume where the home has a `..` or a NUL, and else to the
directory that `scp` and `rsync` have for the home. -/
theorem parts_confineHome (homePath : Text) :
    (Char.ofNat 0 ∈ homePath ∨ ['.', '.'] ∈ homePath.splitOn '/' →
      parts ("/data".toList ++ confineHome homePath) = [volume]) ∧
    (¬ (Char.ofNat 0 ∈ homePath ∨ ['.', '.'] ∈ homePath.splitOn '/') →
      parts ("/data".toList ++ confineHome homePath) = parts (dataRoot homePath)) := by
  obtain ⟨m, n, hsplit⟩ := splitOn_trimSlashes homePath
  have hdots : ['.', '.'] ∈ homePath.splitOn '/' ↔ ['.', '.'] ∈ (trimSlashes homePath).splitOn '/' := by
    rw [hsplit]
    simp
  have hroot : parts ("/data".toList ++ ['/']) = [volume] := by decide +kernel
  have hsub : ¬ (Char.ofNat 0 ∈ homePath ∨ ['.', '.'] ∈ homePath.splitOn '/') →
      parts (dataRoot homePath) = [volume] ++ parts (trimSlashes homePath) := by
    intro h
    rw [parts_dataRoot, foldl_enter_append (not_or.mp h).2, hsplit, List.foldl_append,
      List.foldl_append, foldl_enter_replicate, foldl_enter_replicate, parts]
  unfold confineHome
  dsimp only
  split_ifs with hnul hnil hdot hcandidate
  · exact ⟨fun _ => hroot, fun h => absurd (.inl hnul) h⟩
  · refine ⟨fun _ => hroot, fun h => ?_⟩
    rw [hroot, hsub h, hnil]
    rfl
  · exact ⟨fun _ => hroot, fun h => absurd (.inr (hdots.mpr hdot)) h⟩
  · refine ⟨fun h => absurd h (not_or.mpr ⟨hnul, mt hdots.mp hdot⟩), fun h => ?_⟩
    rw [parts_append_clean, parts_cons_slash, hsub h, ← parts_append_slash_nil, hroot]
  · exact absurd (.inr ⟨_, rfl⟩) hcandidate

/-! ## The sessions -/

section Sessions

variable (rsync scp : Options)

/-- The commands and homes that keep a session within the directory of its user. -/
theorem confined_iff (hshell : rsync.short 'e' = true)
    (hletters : ∀ c ∈ scpAllowedFlags, scp.short c = false) :
    (∀ cmd root args, AtOrBelow "/data".toList root → rewriteRsyncCommand cmd root = some args →
      (Obeys root true (read rsync .options args.tail) ↔
        Harmless rsync .options true (slots (fields cmd).tail))) ∧
    (∀ cmd root args, AtOrBelow "/data".toList root → rewriteSCPCommand cmd root = some args →
      ((∀ item ∈ read scp .options args.tail, ObeysSCP root item) ↔ ['-'] ∉ (fields cmd).tail)) ∧
    ∀ homePath, AtOrBelow "/data".toList (dataRoot homePath) ↔ HomeStays homePath := by
  refine ⟨?_, ?_, atOrBelow_dataRoot_iff⟩
  · intro cmd root args hroot h
    unfold rewriteRsyncCommand at h
    split at h
    · cases h
    · next program rest hfields =>
      obtain ⟨outs, houts, rfl⟩ := Option.map_eq_some_iff.mp h
      rw [hfields]
      exact obeys_iff_harmless hshell (placed_of_rewriteRsyncArgs hroot.1 houts)
        (isChain_slots rest) .options true (by simp)
  · intro cmd root args hroot h
    unfold rewriteSCPCommand at h
    split at h
    · cases h
    · next program rest hfields =>
      obtain ⟨outs, houts, rfl⟩ := Option.map_eq_some_iff.mp h
      rw [hfields]
      exact obeysSCP_iff hroot.1 hletters (mapM_forall₂ houts)

end Sessions

def rsyncOptions : Options where
  long name := PathBearing name
  short c := c = 'e' ∨ c = 'B'

def scpOptions : Options where
  long _ := false
  short c := c = 'l'

/-- A line as a client sends it stays below the home. -/
theorem confined_client_line :
    rewriteRsyncCommand "rsync --server -vlogDtpre.iLsfxCIvu . a/".toList "/data/site".toList =
      some (["rsync", "--server", "-vlogDtpre.iLsfxCIvu", ".", "/data/site/a/"].map
        String.toList) ∧ Obeys "/data/site".toList true (read rsyncOptions .options
      (["--server", "-vlogDtpre.iLsfxCIvu", ".", "/data/site/a/"].map String.toList)) := by
  have hrewritten : rewriteRsyncCommand "rsync --server -vlogDtpre.iLsfxCIvu . a/".toList
      "/data/site".toList = some (["rsync", "--server", "-vlogDtpre.iLsfxCIvu", ".",
        "/data/site/a/"].map String.toList) := by decide +kernel
  obtain ⟨hrsync, -⟩ := confined_iff rsyncOptions scpOptions (by decide) (by decide)
  refine ⟨hrewritten, (hrsync _ _ _ (by decide +kernel) hrewritten).mpr ?_⟩
  have hslots : slots (fields "rsync --server -vlogDtpre.iLsfxCIvu . a/".toList).tail =
      [.option "--server".toList, .option "-vlogDtpre.iLsfxCIvu".toList, .dot, .placed] := by
    decide +kernel
  have hserver : HarmlessOption rsyncOptions "--server".toList := by
    unfold HarmlessOption
    rw [if_pos (by decide +kernel)]
    decide +kernel
  have hbundle : HarmlessOption rsyncOptions "-vlogDtpre.iLsfxCIvu".toList := by
    unfold HarmlessOption
    rw [if_neg (by decide +kernel)]
    exact ⟨by decide +kernel, not_dotHides (by decide +kernel)⟩
  have hmodes : (readArg rsyncOptions .options "--server".toList).2 = .options ∧
      (readArg rsyncOptions .options "-vlogDtpre.iLsfxCIvu".toList).2 = .options := by
    decide +kernel
  rw [hslots]
  simp only [Harmless, hserver, hbundle, hmodes, true_and]

/-- Behind the reference directory a second dot stays what it is, and a home that climbs leaves the
volume. -/
theorem not_confined :
    rewriteRsyncCommand "rsync --server --sender . .".toList "/data/site".toList =
        some (["rsync", "--server", "--sender", ".", "."].map String.toList) ∧
      ¬Obeys "/data/site".toList true
        (read rsyncOptions .options (["--server", "--sender", ".", "."].map String.toList)) ∧
      dataRoot "../etc".toList = "/etc".toList ∧
      ¬AtOrBelow "/data".toList (dataRoot "../etc".toList) := by
  decide +kernel

end Insula.SftpGateway
