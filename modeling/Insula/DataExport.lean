import Insula.Javascript
import Mathlib

/-!
# Bundle export and import

A bundle is streamed as an archive of its meta data and the entries of its sources, compressed and,
with a passphrase, encrypted; an import reads the entries of such an archive back. The compression,
the cipher and the tar library enter through their laws.
-/

namespace Insula.DataExport

open Javascript (utf16Length)

abbrev Text := List Char

abbrev Bytes := List UInt8

/-- What the header of an archive entry says it is; only a file has bytes. -/
inductive Content
  | file (body : Bytes)
  | directory
  | link (target : Text)
deriving DecidableEq

structure Entry where
  name : Text
  content : Content
deriving DecidableEq

namespace Entry

variable (e : Entry)

def body : Bytes :=
  match e.content with
  | .file body => body
  | _ => []

def isFile : Bool :=
  match e.content with
  | .file _ => true
  | _ => false

end Entry

def magic : Bytes := "Salted__".toList.map fun c => UInt8.ofNat c.toNat

/-- What the libraries do: each way back undoes the way there. -/
structure Codecs where
  pack : List Entry → Bytes
  unpack : Bytes → Option (List Entry)
  unpack_pack : ∀ entries, unpack (pack entries) = some entries
  gzip : Bytes → Bytes
  gunzip : Bytes → Option Bytes
  gunzip_gzip : ∀ tar, gunzip (gzip tar) = some tar
  /-- A compressed stream starts with its magic bytes and is longer than its header. -/
  gzip_head : ∀ tar, ∃ rest, gzip tar = 0x1f :: 0x8b :: rest ∧ 6 ≤ rest.length
  /-- Key and initial vector of a passphrase and a salt. -/
  pbkdf2 : Text → Bytes → Bytes
  encrypt : Bytes → Bytes → Bytes
  decrypt : Bytes → Bytes → Option Bytes
  decrypt_encrypt : ∀ key plain, decrypt key (encrypt key plain) = some plain

/-! ## Export -/

def dropSlashes (s : Text) : Text := s.dropWhile (· = '/')

/-- Without a leading `./`, then without leading slashes. -/
def relative (name : Text) : Text :=
  match name with
  | '.' :: '/' :: rest => dropSlashes rest
  | _ => dropSlashes name

def trimSlashes (s : Text) : Text := (dropSlashes s).rdropWhile (· = '/')

def belowRoot (stripPrefix name : Text) : Text :=
  let rel := relative name
  let strip := trimSlashes stripPrefix
  if strip ≠ [] ∧ (rel = strip ∨ (strip ++ ['/']).isPrefixOf rel) then
    dropSlashes (rel.drop strip.length)
  else rel

inductive Source
  /-- An artifact with the size and the bytes that the store has of it. -/
  | object (component name : Text) (stored : Option (ℕ × Bytes))
  /-- A snapshot with the entries of its tar stream, unless the stream fails. -/
  | restic (component name stripPrefix : Text) (stream : Except Text (List Entry))

def componentPath (component name : Text) : Text :=
  "components/".toList ++ component ++ '/' :: name

def reemit (component name stripPrefix : Text) (e : Entry) : Option Entry :=
  let rel := belowRoot stripPrefix e.name
  if rel = [] then none
  else some { e with name := componentPath component name ++ '/' :: rel }

def feedSourceIntoTar : Source → Except Text (List Entry)
  | .object component name stored =>
    match stored with
    | none => .error ("data-export: component ".toList ++ component ++ '/' :: name ++
        " is missing from the target".toList)
    | some (sizeBytes, body) =>
      if body.length = sizeBytes then .ok [⟨componentPath component name, .file body⟩]
      else .error "Size mismatch".toList
  | .restic component name stripPrefix stream => do
    let entries ← stream
    let emitted := entries.filterMap (reemit component name stripPrefix)
    if emitted = [] then
      .error ("data-export: restic source ".toList ++ component ++ '/' :: name ++
        " produced no entries".toList)
    else .ok emitted

def archive (metaBuf : Bytes) (components : List Source) : Except Text (List Entry) := do
  let fed ← components.mapM feedSourceIntoTar
  return ⟨"meta.json".toList, .file metaBuf⟩ :: fed.flatten

structure ExportArgs where
  /-- The meta data as JSON text. -/
  metaBuf : Bytes
  components : List Source
  passphrase : Option Text
  /-- Eight random bytes. -/
  salt : Bytes
  salt_length : salt.length = 8

def ExportArgs.encrypts (args : ExportArgs) : Option Text := args.passphrase.filter (· ≠ [])

def streamEncryptedExport (c : Codecs) (args : ExportArgs) : Except Text Bytes := do
  let entries ← archive args.metaBuf args.components
  let gzipped := c.gzip (c.pack entries)
  match args.encrypts with
  | none => return gzipped
  | some passphrase =>
    return magic ++ args.salt ++ c.encrypt (c.pbkdf2 passphrase args.salt) gzipped

/-! ## Import -/

structure ImportEntry where
  path : Text
  buffer : Bytes
deriving DecidableEq

inductive ImportFormat
  | tarEncrypted | tarPlain | zip
deriving DecidableEq, Repr

/-- The length that the language counts, in units of sixteen bits. -/

def splitSlashes (s : Text) : List Text := s.splitOn '/'

def unsafePath (name : Text) : Option Text :=
  if name = [] then some "archive entry has empty path".toList
  else if 1024 < utf16Length name then
    some ("archive entry path too long (".toList ++ Nat.toDigits 10 (utf16Length name) ++
      " chars)".toList)
  else if "/".toList.isPrefixOf name ∨ "\\".toList.isPrefixOf name then
    some ("archive entry path is absolute: ".toList ++ name)
  else if '\\' ∈ name then some ("archive entry path contains backslash: ".toList ++ name)
  else if name.any fun c => c.toNat < 0x20 then
    some ("archive entry path contains control characters: ".toList ++ name)
  else if (splitSlashes name).contains "..".toList then
    some ("archive entry path traversal: ".toList ++ name)
  else none

def maxArchiveDecompressedBytes : ℕ := 4 * 1024 * 1024 * 1024

structure Collected where
  totalBytes : ℕ
  safetyError : Option Text
  entries : List ImportEntry

def collectEntry (cap : Text) (acc : Collected) (e : Entry) : Collected :=
  match unsafePath e.name with
  | some why => { acc with safetyError := acc.safetyError.or (some why) }
  | none =>
    let totalBytes := acc.totalBytes + e.body.length
    let safetyError :=
      if maxArchiveDecompressedBytes < totalBytes then acc.safetyError.or (some cap)
      else acc.safetyError
    match safetyError with
    | some why => ⟨totalBytes, some why, acc.entries⟩
    | none => ⟨totalBytes, none, acc.entries ++ [⟨e.name, e.body⟩]⟩

/-- Violations are reported once the archive has been read to its end. -/
def collect (cap : Text) (entries : List Entry) : Except Text (List ImportEntry) :=
  let acc := entries.foldl (collectEntry cap) ⟨0, none, []⟩
  match acc.safetyError with
  | some why => .error why
  | none => .ok acc.entries

def extractPlainTarGz (c : Codecs) (blob : Bytes) : Except Text (List ImportEntry) :=
  match (c.gunzip blob).bind c.unpack with
  | none => .error "extractPlainTarGz: corrupt tar.gz".toList
  | some entries =>
    collect "extractPlainTarGz: archive exceeds 4294967296 byte cap (zip-bomb guard)".toList entries

/-- `toString('ascii')` drops the high bits. -/
def salted (blob : Bytes) : Prop := (blob.take 8).map (· &&& 0x7f) = magic

instance (blob : Bytes) : Decidable (salted blob) := inferInstanceAs (Decidable (_ = _))

def decryptImportTarball (c : Codecs) (cipherBlob : Bytes) (passphrase : Text) :
    Except Text (List ImportEntry) :=
  if passphrase = [] then .error "decryptImportTarball: passphrase required".toList
  else if cipherBlob.length < 16 ∨ ¬ salted cipherBlob then
    .error "decryptImportTarball: not an OpenSSL Salted__ envelope".toList
  else
    let salt := (cipherBlob.drop 8).take 8
    match c.decrypt (c.pbkdf2 passphrase salt) (cipherBlob.drop 16) with
    | none => .error "import-decrypt failed (wrong passphrase or corrupt blob)".toList
    | some plaintext =>
      match (c.gunzip plaintext).bind c.unpack with
      | none => .error "import-extract failed (corrupt tarball)".toList
      | some entries =>
        collect "decryptImportTarball: archive exceeds 4294967296 byte cap (zip-bomb guard)".toList
          entries

def detectImportFormat (blob : Bytes) : Except Text ImportFormat :=
  if blob.length < 8 then .error "detectImportFormat: blob too short".toList
  else if salted blob then .ok .tarEncrypted
  else if blob.take 2 = [0x1f, 0x8b] then .ok .tarPlain
  else if blob.take 4 = [0x50, 0x4b, 0x03, 0x04] then .ok .zip
  else .error "detectImportFormat: unrecognized archive (not Salted__/gzip/zip)".toList

/-- `extractZip` is the reader of the other format. -/
def extractImportArchive (c : Codecs) (extractZip : Bytes → Except Text (List ImportEntry))
    (blob : Bytes) (passphrase : Option Text) :
    Except Text (ImportFormat × List ImportEntry) := do
  match ← detectImportFormat blob with
  | .tarEncrypted =>
    match passphrase.filter (· ≠ []) with
    | none => .error "extractImportArchive: tar-encrypted bundle requires a passphrase".toList
    | some passphrase => return (.tarEncrypted, ← decryptImportTarball c blob passphrase)
  | .tarPlain => return (.tarPlain, ← extractPlainTarGz c blob)
  | .zip => return (.zip, ← extractZip blob)

/-! ## What is collected -/

def Entry.imported (e : Entry) : ImportEntry := ⟨e.name, e.body⟩

def bodyBytes (entries : List Entry) : ℕ := (entries.map fun e => e.body.length).sum

variable {cap : Text} {e : Entry} {source : Source}

theorem collect_fold_safe {entries : List Entry} (hsafe : ∀ e ∈ entries, unsafePath e.name = none)
    {total : ℕ} {done : List ImportEntry}
    (hsize : total + bodyBytes entries ≤ maxArchiveDecompressedBytes) :
    entries.foldl (collectEntry cap) ⟨total, none, done⟩ =
      ⟨total + bodyBytes entries, none, done ++ entries.map Entry.imported⟩ := by
  induction entries generalizing total done with
  | nil => simp [bodyBytes]
  | cons e entries ih =>
    have hcons : bodyBytes (e :: entries) = e.body.length + bodyBytes entries := by
      simp [bodyBytes]
    have hwithin : ¬ maxArchiveDecompressedBytes < total + e.body.length := by omega
    have hstep : collectEntry cap ⟨total, none, done⟩ e =
        ⟨total + e.body.length, none, done ++ [e.imported]⟩ := by
      unfold collectEntry
      rw [hsafe e List.mem_cons_self]
      dsimp only
      rw [if_neg hwithin]
      rfl
    rw [List.foldl_cons, hstep,
      ih (fun e he => hsafe e (List.mem_cons_of_mem _ he)) (by omega), hcons]
    simp [Nat.add_assoc]

theorem safetyError_kept (entries : List Entry) {acc : Collected} (h : acc.safetyError ≠ none) :
    (entries.foldl (collectEntry cap) acc).safetyError ≠ none := by
  induction entries generalizing acc with
  | nil => exact h
  | cons e entries ih =>
    apply ih
    obtain ⟨why, hwhy⟩ := Option.ne_none_iff_exists'.mp h
    unfold collectEntry
    rw [hwhy]
    split
    · exact Option.some_ne_none _
    · dsimp only [Option.some_or]
      rw [ite_self]
      exact Option.some_ne_none _

theorem safetyError_of_refused (cap : Text) {entries : List Entry} (acc : Collected)
    (he : e ∈ entries) (hrefused : unsafePath e.name ≠ none) :
    (entries.foldl (collectEntry cap) acc).safetyError ≠ none := by
  induction entries generalizing acc with
  | nil => cases he
  | cons f entries ih =>
    rcases List.mem_cons.mp he with rfl | he
    · apply safetyError_kept entries
      obtain ⟨why, hwhy⟩ := Option.ne_none_iff_exists'.mp hrefused
      unfold collectEntry
      rw [hwhy]
      dsimp only
      cases acc.safetyError with
      | none => exact Option.some_ne_none _
      | some first => exact Option.some_ne_none _
    · exact ih _ he

/-- Within the cap an archive is read in full just when no path of it is refused. -/
theorem collect_eq_iff {entries : List Entry}
    (hsize : bodyBytes entries ≤ maxArchiveDecompressedBytes) {result : List ImportEntry} :
    collect cap entries = .ok result ↔
      (∀ e ∈ entries, unsafePath e.name = none) ∧ result = entries.map Entry.imported := by
  unfold collect
  by_cases hsafe : ∀ e ∈ entries, unsafePath e.name = none
  · rw [collect_fold_safe hsafe (by omega)]
    dsimp only [List.nil_append]
    rw [and_iff_right hsafe, Except.ok.injEq]
    exact eq_comm
  · refine iff_of_false ?_ fun h => hsafe h.1
    push Not at hsafe
    obtain ⟨e, he, hrefused⟩ := hsafe
    obtain ⟨why, hwhy⟩ := Option.ne_none_iff_exists'.mp
      (safetyError_of_refused cap ⟨0, none, []⟩ he hrefused)
    dsimp only
    rw [hwhy]
    exact fun h => nomatch h

/-! ## What is exported -/

def Source.entries : Source → List Entry
  | .object component name (some (_, body)) => [⟨componentPath component name, .file body⟩]
  | .restic component name stripPrefix (.ok entries) =>
    entries.filterMap (reemit component name stripPrefix)
  | _ => []

def Source.files (source : Source) : List ImportEntry :=
  (source.entries.filter Entry.isFile).map Entry.imported

theorem feedSourceIntoTar_ok {entries : List Entry} (h : feedSourceIntoTar source = .ok entries) :
    entries = source.entries := by
  cases source with
  | object component name stored =>
    rcases stored with - | ⟨sizeBytes, body⟩
    · cases h
    · change (if body.length = sizeBytes then _ else _) = _ at h
      split at h
      · exact (Except.ok.inj h).symm
      · cases h
  | restic component name stripPrefix stream =>
    cases stream with
    | error e => cases h
    | ok streamed =>
      change (if streamed.filterMap (reemit component name stripPrefix) = [] then _ else _) = _ at h
      split at h
      · cases h
      · exact (Except.ok.inj h).symm

theorem mapM_feedSourceIntoTar_ok {components : List Source} {fed : List (List Entry)}
    (h : components.mapM feedSourceIntoTar = .ok fed) :
    fed.flatten = components.flatMap Source.entries := by
  induction components generalizing fed with
  | nil =>
    rw [List.mapM_nil] at h
    rw [← Except.ok.inj h]
    rfl
  | cons source components ih =>
    rw [List.mapM_cons] at h
    cases hsource : feedSourceIntoTar source with
    | error e =>
      rw [hsource] at h
      cases h
    | ok entries =>
      rw [hsource] at h
      cases hrest : components.mapM feedSourceIntoTar with
      | error e =>
        rw [hrest] at h
        cases h
      | ok rest =>
        rw [hrest] at h
        rw [← Except.ok.inj h, List.flatten_cons, List.flatMap_cons, ih hrest,
          feedSourceIntoTar_ok hsource]

def metaEntry (metaBuf : Bytes) : Entry := ⟨"meta.json".toList, .file metaBuf⟩

def ExportArgs.entries (args : ExportArgs) : List Entry :=
  metaEntry args.metaBuf :: args.components.flatMap Source.entries

theorem archive_ok {args : ExportArgs} {entries : List Entry}
    (h : archive args.metaBuf args.components = .ok entries) : entries = args.entries := by
  unfold archive at h
  cases hfed : args.components.mapM feedSourceIntoTar with
  | error e =>
    rw [hfed] at h
    cases h
  | ok fed =>
    rw [hfed] at h
    rw [← Except.ok.inj h]
    unfold ExportArgs.entries
    rw [← mapM_feedSourceIntoTar_ok hfed]
    rfl

theorem magic_length : magic.length = 8 := rfl

theorem detectImportFormat_gzip {rest : Bytes} (h : 6 ≤ rest.length) :
    detectImportFormat (0x1f :: 0x8b :: rest) = .ok .tarPlain := by
  have hlong : ¬ (0x1f :: 0x8b :: rest).length < 8 := by
    rw [List.length_cons, List.length_cons]
    omega
  have hsalted : ¬ salted (0x1f :: 0x8b :: rest) := by
    intro heq
    have hhead : some (0x1f : UInt8) = magic.head? := congrArg List.head? heq
    exact absurd hhead (by decide)
  have hgzip : (0x1f :: 0x8b :: rest).take 2 = [0x1f, 0x8b] := rfl
  unfold detectImportFormat
  rw [if_neg hlong, if_neg hsalted, if_pos hgzip]

theorem salted_magic (rest : Bytes) : salted (magic ++ rest) := by
  rw [salted, List.take_left' magic_length]
  decide

theorem detectImportFormat_salted {rest : Bytes} :
    detectImportFormat (magic ++ rest) = .ok .tarEncrypted := by
  have hlong : ¬ (magic ++ rest).length < 8 := by
    rw [List.length_append, magic_length]
    omega
  unfold detectImportFormat
  rw [if_neg hlong, if_pos (salted_magic rest)]

theorem gunzip_unpack (c : Codecs) (entries : List Entry) :
    (c.gunzip (c.gzip (c.pack entries))).bind c.unpack = some entries := by
  rw [c.gunzip_gzip]
  exact c.unpack_pack entries

theorem extractPlainTarGz_gzip (c : Codecs) (entries : List Entry) :
    ∃ cap, extractPlainTarGz c (c.gzip (c.pack entries)) = collect cap entries := by
  unfold extractPlainTarGz
  rw [gunzip_unpack]
  exact ⟨_, rfl⟩

theorem decryptImportTarball_envelope (c : Codecs) {passphrase : Text} (hne : passphrase ≠ [])
    {salt : Bytes} (hsalt : salt.length = 8) (entries : List Entry) :
    ∃ cap, decryptImportTarball c (magic ++ salt ++
      c.encrypt (c.pbkdf2 passphrase salt) (c.gzip (c.pack entries))) passphrase =
        collect cap entries := by
  have hplain := c.decrypt_encrypt (c.pbkdf2 passphrase salt) (c.gzip (c.pack entries))
  generalize c.encrypt (c.pbkdf2 passphrase salt) (c.gzip (c.pack entries)) = cipher at hplain ⊢
  have hlength : 16 ≤ (magic ++ salt ++ cipher).length := by
    rw [List.length_append, List.length_append, magic_length, hsalt]
    omega
  have hopened : ¬ ((magic ++ salt ++ cipher).length < 16 ∨ ¬ salted (magic ++ salt ++ cipher)) := by
    rw [not_or, not_not]
    refine ⟨by omega, ?_⟩
    rw [List.append_assoc]
    exact salted_magic _
  have hread : ((magic ++ salt ++ cipher).drop 8).take 8 = salt := by
    rw [List.append_assoc, List.drop_left' magic_length]
    exact List.take_left' hsalt
  have hrest : (magic ++ salt ++ cipher).drop 16 = cipher := by
    apply List.drop_left'
    rw [List.length_append, magic_length, hsalt]
  unfold decryptImportTarball
  rw [if_neg hne, if_neg hopened]
  dsimp only
  rw [hread, hrest, hplain]
  dsimp only
  rw [gunzip_unpack]
  exact ⟨_, rfl⟩

theorem extractImportArchive_export (c : Codecs)
    (extractZip : Bytes → Except Text (List ImportEntry)) {args : ExportArgs} {blob : Bytes}
    (h : streamEncryptedExport c args = .ok blob) :
    ∃ format cap, extractImportArchive c extractZip blob args.passphrase =
      (collect cap args.entries).map fun entries => (format, entries) := by
  unfold streamEncryptedExport at h
  cases harchive : archive args.metaBuf args.components with
  | error e =>
    rw [harchive] at h
    cases h
  | ok entries =>
    obtain rfl := archive_ok harchive
    rw [harchive] at h
    dsimp only [bind, Except.bind] at h
    unfold extractImportArchive
    cases hpass : args.encrypts with
    | none =>
      rw [hpass] at h
      obtain rfl : c.gzip (c.pack args.entries) = blob := Except.ok.inj h
      obtain ⟨cap, hplain⟩ := extractPlainTarGz_gzip c args.entries
      obtain ⟨rest, hgzip, hlength⟩ := c.gzip_head (c.pack args.entries)
      have hformat : detectImportFormat (c.gzip (c.pack args.entries)) = .ok .tarPlain := by
        rw [hgzip]
        exact detectImportFormat_gzip hlength
      refine ⟨.tarPlain, cap, ?_⟩
      rw [hformat]
      dsimp only [bind, Except.bind]
      rw [hplain]
      cases collect cap args.entries with
      | error e => rfl
      | ok entries => rfl
    | some passphrase =>
      have hne : passphrase ≠ [] := of_decide_eq_true (Option.filter_eq_some_iff.mp hpass).2
      rw [hpass] at h
      obtain rfl := Except.ok.inj h
      obtain ⟨cap, hopened⟩ :=
        decryptImportTarball_envelope c hne args.salt_length args.entries
      refine ⟨.tarEncrypted, cap, ?_⟩
      rw [List.append_assoc, detectImportFormat_salted, ← List.append_assoc]
      dsimp only [bind, Except.bind]
      unfold ExportArgs.encrypts at hpass
      rw [hpass]
      dsimp only
      rw [hopened]
      cases collect cap args.entries with
      | error e => rfl
      | ok entries => rfl

/-! ## What comes back -/

/-- A file under a name that an import accepts: not too long, without a backslash or a control
character, and with no step up. -/
structure Importable (e : Entry) : Prop where
  file : e.isFile = true
  short : utf16Length e.name ≤ 1024
  backslash : '\\' ∉ e.name
  control : ∀ c ∈ e.name, 0x20 ≤ c.toNat
  traversal : "..".toList ∉ splitSlashes e.name

theorem unsafePath_eq_none_iff (c : Char) (rest : Text) (hslash : c ≠ '/') (hback : c ≠ '\\') :
    unsafePath (c :: rest) = none ↔ utf16Length (c :: rest) ≤ 1024 ∧ '\\' ∉ c :: rest ∧
      (∀ d ∈ c :: rest, 0x20 ≤ d.toNat) ∧ "..".toList ∉ splitSlashes (c :: rest) := by
  have habsolute : ¬ ("/".toList.isPrefixOf (c :: rest) = true ∨
      "\\".toList.isPrefixOf (c :: rest) = true) := by
    rintro (h | h)
    · exact hslash (List.cons_prefix_cons.mp (List.isPrefixOf_iff_prefix.mp h)).1.symm
    · exact hback (List.cons_prefix_cons.mp (List.isPrefixOf_iff_prefix.mp h)).1.symm
  have hcontrol : ((c :: rest).any fun d => d.toNat < 0x20) = true ↔
      ¬ ∀ d ∈ c :: rest, 0x20 ≤ d.toNat := by
    rw [List.any_eq_true]
    push Not
    simp only [decide_eq_true_eq]
  unfold unsafePath
  rw [if_neg (List.cons_ne_nil c rest), if_neg habsolute]
  generalize c :: rest = name at hcontrol ⊢
  by_cases hlong : 1024 < utf16Length name
  · rw [if_pos hlong]
    exact iff_of_false (Option.some_ne_none _) fun h => Nat.not_lt_of_le h.1 hlong
  · rw [if_neg hlong]
    by_cases hslashes : '\\' ∈ name
    · rw [if_pos hslashes]
      exact iff_of_false (Option.some_ne_none _) fun h => h.2.1 hslashes
    · rw [if_neg hslashes]
      by_cases hchars : (name.any fun d => d.toNat < 0x20) = true
      · rw [if_pos hchars]
        exact iff_of_false (Option.some_ne_none _) fun h => hcontrol.mp hchars h.2.2.1
      · rw [if_neg hchars]
        by_cases hup : "..".toList ∈ splitSlashes name
        · rw [if_pos (List.contains_iff_mem.mpr hup)]
          exact iff_of_false (Option.some_ne_none _) fun h => h.2.2.2 hup
        · rw [if_neg (mt List.contains_iff_mem.mp hup)]
          exact iff_of_true rfl ⟨Nat.le_of_not_lt hlong, hslashes, not_not.mp (hcontrol.not.mp hchars),
            hup⟩

/-- Every name of an export is relative. -/
theorem name_of_mem_entries (h : e ∈ source.entries) : ∃ rest, e.name = 'c' :: rest := by
  cases source with
  | object component name stored =>
    rcases stored with - | ⟨sizeBytes, body⟩
    · cases h
    · rw [List.mem_singleton.mp h]
      exact ⟨_, rfl⟩
  | restic component name stripPrefix stream =>
    cases stream with
    | error reason => cases h
    | ok streamed =>
      obtain ⟨f, -, hf⟩ := List.mem_filterMap.mp h
      unfold reemit at hf
      dsimp only at hf
      split at hf
      · cases hf
      · rw [← Option.some.inj hf]
        exact ⟨_, rfl⟩

theorem importable_iff (h : e ∈ source.entries) :
    Importable e ↔ e.isFile = true ∧ unsafePath e.name = none := by
  obtain ⟨rest, hname⟩ := name_of_mem_entries h
  have hiff := unsafePath_eq_none_iff 'c' rest (by decide) (by decide)
  rw [← hname] at hiff
  rw [hiff]
  constructor
  · rintro ⟨hfile, hshort, hback, hcontrol, hup⟩
    exact ⟨hfile, hshort, hback, hcontrol, hup⟩
  · rintro ⟨hfile, hshort, hback, hcontrol, hup⟩
    exact ⟨hfile, hshort, hback, hcontrol, hup⟩

def ExportArgs.totalBytes (args : ExportArgs) : ℕ := bodyBytes args.entries

def ExportArgs.files (args : ExportArgs) : List ImportEntry :=
  (metaEntry args.metaBuf).imported :: args.components.flatMap Source.files

theorem files_eq (args : ExportArgs) :
    args.files = (args.entries.filter Entry.isFile).map Entry.imported := by
  unfold ExportArgs.files ExportArgs.entries Source.files
  rw [List.filter_cons_of_pos rfl, List.map_cons, List.filter_flatMap, List.map_flatMap]

/-- An export that stays below the size cap comes back as its meta data and one entry for each file
just when every entry of its sources is a file whose name the import accepts. -/
theorem import_of_export_iff (c : Codecs) (extractZip : Bytes → Except Text (List ImportEntry))
    (args : ExportArgs) (blob : Bytes) (hexport : streamEncryptedExport c args = .ok blob)
    (hsize : args.totalBytes ≤ maxArchiveDecompressedBytes) :
    (∃ format, extractImportArchive c extractZip blob args.passphrase = .ok (format, args.files)) ↔
      ∀ source ∈ args.components, ∀ e ∈ source.entries, Importable e := by
  obtain ⟨format, cap, hextract⟩ := extractImportArchive_export c extractZip hexport
  have hcollect : (∃ format, extractImportArchive c extractZip blob args.passphrase =
      .ok (format, args.files)) ↔ collect cap args.entries = .ok args.files := by
    rw [hextract]
    cases collect cap args.entries with
    | error why =>
      refine iff_of_false ?_ fun h => nomatch h
      rintro ⟨format, h⟩
      cases h
    | ok entries =>
      constructor
      · rintro ⟨format, h⟩
        rw [(Prod.mk.inj (Except.ok.inj h)).2]
      · intro h
        rw [Except.ok.inj h]
        exact ⟨format, rfl⟩
  rw [hcollect, collect_eq_iff hsize, files_eq]
  have hall : args.entries.filter Entry.isFile = args.entries ↔
      ∀ source ∈ args.components, ∀ e ∈ source.entries, e.isFile = true := by
    rw [List.filter_eq_self]
    unfold ExportArgs.entries
    constructor
    · intro h source hsource e he
      exact h e (List.mem_cons_of_mem _ (List.mem_flatMap.mpr ⟨source, hsource, he⟩))
    · intro h e he
      rcases List.mem_cons.mp he with rfl | he
      · rfl
      · obtain ⟨source, hsource, he⟩ := List.mem_flatMap.mp he
        exact h source hsource e he
  constructor
  · rintro ⟨hsafe, hlist⟩ source hsource e he
    have hmem : e ∈ args.entries :=
      List.mem_cons_of_mem _ (List.mem_flatMap.mpr ⟨source, hsource, he⟩)
    have hfiltered : args.entries.filter Entry.isFile = args.entries := by
      have hlength := congrArg List.length hlist
      rw [List.length_map, List.length_map] at hlength
      exact List.filter_sublist.eq_of_length hlength
    exact (importable_iff he).mpr ⟨hall.mp hfiltered source hsource e he, hsafe e hmem⟩
  · intro h
    have hfiltered := hall.mpr fun source hsource e he => (h source hsource e he).file
    rw [hfiltered]
    refine ⟨?_, rfl⟩
    intro e he
    rcases List.mem_cons.mp he with rfl | he
    · rfl
    · obtain ⟨source, hsource, he⟩ := List.mem_flatMap.mp he
      exact ((importable_iff he).mp (h source hsource e he)).2

/-! ### A name with a backslash -/

instance encodableChar : Encodable Char :=
  Encodable.ofLeftInverse Char.toNat Char.ofNat Char.ofNat_toNat

instance encodableByte : Encodable UInt8 :=
  Encodable.ofLeftInverse UInt8.toNat UInt8.ofNat fun _ => UInt8.ofNat_toNat

def Entry.parts (e : Entry) : Text × Option Bytes × Option Text :=
  match e.content with
  | .file body => (e.name, some body, none)
  | .directory => (e.name, none, none)
  | .link target => (e.name, none, some target)

def Entry.ofParts : Text × Option Bytes × Option Text → Entry
  | (name, some body, _) => ⟨name, .file body⟩
  | (name, none, none) => ⟨name, .directory⟩
  | (name, none, some target) => ⟨name, .link target⟩

theorem Entry.ofParts_parts (e : Entry) : Entry.ofParts e.parts = e := by
  obtain ⟨name, content⟩ := e
  cases content with
  | file body => rfl
  | directory => rfl
  | link target => rfl

instance encodableEntry : Encodable Entry :=
  Encodable.ofLeftInverse Entry.parts Entry.ofParts Entry.ofParts_parts

def countingCodecs : Codecs where
  pack entries := List.replicate (Encodable.encode entries) 0
  unpack tar := Encodable.decode tar.length
  unpack_pack entries := by rw [List.length_replicate, Encodable.encodek]
  gzip tar := [0x1f, 0x8b, 8, 0, 0, 0, 0, 0] ++ tar
  gunzip blob := some (blob.drop 8)
  gunzip_gzip tar := rfl
  gzip_head tar := ⟨_, rfl, Nat.le_add_left _ _⟩
  pbkdf2 _ _ := []
  encrypt _ plain := plain
  decrypt _ cipher := some cipher
  decrypt_encrypt _ _ := rfl

def filesOf (names : List Text) : Source :=
  .restic "files".toList "archive".toList "/source".toList
    (.ok (names.map fun name => ⟨"source/".toList ++ name, .file [104, 105]⟩))

def exportOf (sources : List Source) : ExportArgs where
  metaBuf := "\x7b\x7d".toList.map fun c => UInt8.ofNat c.toNat
  components := sources
  passphrase := none
  salt := List.replicate 8 0
  salt_length := rfl

theorem export_plain (c : Codecs) {sources : List Source} {fed : List (List Entry)}
    (hfed : sources.mapM feedSourceIntoTar = .ok fed) :
    streamEncryptedExport c (exportOf sources) =
      .ok (c.gzip (c.pack (metaEntry (exportOf sources).metaBuf :: fed.flatten))) := by
  have harchive : archive (exportOf sources).metaBuf sources =
      .ok (metaEntry (exportOf sources).metaBuf :: fed.flatten) := by
    unfold archive
    rw [hfed]
    rfl
  change (archive (exportOf sources).metaBuf sources).bind _ = _
  rw [harchive]
  rfl

def storedConfig : Source := .object "config".toList "config.json".toList (some (2, [123, 125]))

def plainFiles : List Entry :=
  [⟨"components/config/config.json".toList, .file [123, 125]⟩,
    ⟨"components/files/archive/a.txt".toList, .file [104, 105]⟩,
    ⟨"components/files/archive/b/c.txt".toList, .file [104, 105]⟩]

theorem import_of_plain_files : ∃ blob,
    streamEncryptedExport countingCodecs
        (exportOf [storedConfig, filesOf ["a.txt".toList, "b/c.txt".toList]]) = .ok blob ∧
      ∃ format, extractImportArchive countingCodecs (fun _ => .ok []) blob none =
        .ok (format, (exportOf [storedConfig, filesOf ["a.txt".toList, "b/c.txt".toList]]).files) := by
  have hexport := @export_plain countingCodecs
    [storedConfig, filesOf ["a.txt".toList, "b/c.txt".toList]] [_, _] rfl
  refine ⟨_, hexport, ?_⟩
  apply (import_of_export_iff countingCodecs (fun _ => .ok []) _ _ hexport (by decide)).mpr
  intro source hsource e he
  have hmem : e ∈ plainFiles := by
    have hentries : [storedConfig, filesOf ["a.txt".toList, "b/c.txt".toList]].flatMap
        Source.entries = plainFiles := by decide
    rw [← hentries]
    exact List.mem_flatMap.mpr ⟨source, hsource, he⟩
  have hplain : ∀ e ∈ plainFiles, e.isFile = true ∧ utf16Length e.name ≤ 1024 ∧ '\\' ∉ e.name ∧
      e.name.all (fun c => decide (0x20 ≤ c.toNat)) = true ∧
      "..".toList ∉ splitSlashes e.name := by decide
  obtain ⟨hfile, hshort, hback, hcontrol, htraversal⟩ := hplain e hmem
  exact ⟨hfile, hshort, hback, fun c hc => of_decide_eq_true (List.all_eq_true.mp hcontrol c hc),
    htraversal⟩

def backslashFile : Entry := ⟨"components/files/archive/a\\b".toList, .file [104, 105]⟩

/-- A file whose name has a backslash is exported and makes the import fail. -/
theorem backslash_not_imported :
    ¬ ∀ (c : Codecs) (extractZip : Bytes → Except Text (List ImportEntry)) (args : ExportArgs)
      (blob : Bytes), streamEncryptedExport c args = .ok blob →
      args.totalBytes ≤ maxArchiveDecompressedBytes →
      ∃ format, extractImportArchive c extractZip blob args.passphrase = .ok (format, args.files) := by
  intro hall
  have hexport := @export_plain countingCodecs [filesOf ["a\\b".toList]] [[backslashFile]] rfl
  obtain ⟨format, hfiles⟩ := hall countingCodecs (fun _ => .ok []) _ _ hexport (by decide)
  obtain ⟨format', cap, hextract⟩ := extractImportArchive_export countingCodecs (fun _ => .ok [])
    hexport
  rw [hextract] at hfiles
  have hcollect : ¬ ∃ result,
      collect cap (exportOf [filesOf ["a\\b".toList]]).entries = .ok result := by
    rintro ⟨result, hresult⟩
    have hsafe := ((collect_eq_iff (by decide)).mp hresult).1 backslashFile (by decide)
    exact absurd hsafe (by decide)
  cases hresult : collect cap (exportOf [filesOf ["a\\b".toList]]).entries with
  | error why =>
    rw [hresult] at hfiles
    cases hfiles
  | ok result => exact hcollect ⟨result, hresult⟩

end Insula.DataExport
