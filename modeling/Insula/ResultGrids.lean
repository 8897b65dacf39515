import Insula.DnsNames
import Insula.Paths
import Insula.Utf8Chunks

/-!
# Result grids

`db-manager.ts` reads the rows of a query from what the client of the database prints. `execInPod`
decodes the output chunk by chunk and trims it; `parseMysqlBatchOutput` reads the tab-separated
lines of the one client, and `parsePgCsvOutput` the quoted fields of the other.
-/

namespace Insula.ResultGrids

open Javascript (isSpace trim)
open DnsServers (trim_cases trim_eq_self)
open Utf8Chunks (encode received Whole replacement received_cases)

abbrev Text := List Char

structure Grid where
  header : List Text
  rows : List (List Text)
  columns : header ≠ []
  width : ∀ row ∈ rows, row.length = header.length

def Grid.lines (g : Grid) : List (List Text) := g.header :: g.rows

def execInPod (chunks : List (List UInt8)) : Text := trim (received chunks)

/-! ## MySQL -/

def unescaped (c : Char) : Option Char :=
  if c = 't' then some '\t'
  else if c = 'n' then some '\n'
  else if c = '0' then some '\x00'
  else if c = '\\' then some '\\'
  else none

def unescapeMysqlBatchField : Text → Text
  | [] => []
  | [c] => [c]
  | c :: d :: rest =>
    match if c = '\\' then unescaped d else none with
    | some e => e :: unescapeMysqlBatchField rest
    | none => c :: unescapeMysqlBatchField (d :: rest)

def parseMysqlBatchOutput (output : Text) : List Text × List (List Text) :=
  let lines := output.splitOn '\n'
  let lines := if lines.getLast? = some [] then lines.dropLast else lines
  match lines with
  | [] => ([], [])
  | first :: rest => (first.splitOn '\t', rest.map fun line => (line.splitOn '\t').map unescapeMysqlBatchField)

def escapeChar (c : Char) : Text :=
  if c = '\\' then ['\\', '\\']
  else if c = '\t' then ['\\', 't']
  else if c = '\n' then ['\\', 'n']
  else if c = '\x00' then ['\\', '0']
  else [c]

def escape (cell : Text) : Text := cell.flatMap escapeChar

/-- The fields that `mysql --batch` prints: the names as they are, the cells escaped. -/
def Grid.mysqlFields (g : Grid) : List (List Text) := g.header :: g.rows.map fun row => row.map escape

def tabbed (fields : List Text) : Text := ['\t'].intercalate fields

def mysqlBatch (g : Grid) : Text := g.mysqlFields.flatMap fun fields => tabbed fields ++ ['\n']

/-! ## PostgreSQL -/

structure Csv where
  result : List (List Text) := []
  current : List Text := []
  field : Text := []
  inQuotes : Bool := false

def kept (row : List Text) : Bool := row.any fun f => f != []

def Csv.finish (s : Csv) : Csv :=
  { s with
    result := if kept (s.current ++ [s.field]) then s.result ++ [s.current ++ [s.field]] else s.result
    current := []
    field := [] }

def csvLoop : Csv → Bool → Text → Csv
  | s, _, [] => s
  | s, true, _ :: rest => csvLoop s false rest
  | s, false, c :: rest =>
    if s.inQuotes then
      if c = '"' then
        if rest.head? = some '"' then csvLoop { s with field := s.field ++ ['"'] } true rest
        else csvLoop { s with inQuotes := false } false rest
      else csvLoop { s with field := s.field ++ [c] } false rest
    else if c = '"' then csvLoop { s with inQuotes := true } false rest
    else if c = ',' then csvLoop { s with current := s.current ++ [s.field], field := [] } false rest
    else if c = '\n' then csvLoop s.finish false rest
    else if c = '\r' then csvLoop s false rest
    else csvLoop { s with field := s.field ++ [c] } false rest

def parseCsvLines (input : Text) : List (List Text) :=
  let s := csvLoop {} false input
  if s.field ≠ [] ∨ 0 < s.current.length then s.finish.result else s.result

def parsePgCsvOutput (output : Text) : List Text × List (List Text) :=
  match parseCsvLines output with
  | [] => ([], [])
  | first :: rest => (first, rest)

def isSpecial (c : Char) : Bool := c == ',' || c == '"' || c == '\r' || c == '\n'

def doubled (field : Text) : Text := field.flatMap fun c => if c = '"' then ['"', '"'] else [c]

def csvField (field : Text) : Text :=
  if field.any isSpecial then '"' :: doubled field ++ ['"'] else field

def separated (fields : List Text) : Text := [','].intercalate fields

def psqlCsv (g : Grid) : Text := g.lines.flatMap fun row => separated (row.map csvField) ++ ['\n']

/-! ## When they are read back -/

/-- The printed text, without its last newline, neither begins nor ends with white space, and is not
empty. -/
structure Unspaced (printed : Text) : Prop where
  nonempty : printed.dropLast ≠ []
  first : ∀ c ∈ printed.dropLast.head?, isSpace c = false
  last : ∀ c ∈ printed.dropLast.getLast?, isSpace c = false

/-! ## Counting -/

section Counting

variable {q : Char → Bool} {x : Char} {printed : Text}

def cost (q : Char → Bool) (cells : List Text) : ℕ := (cells.map fun cell => cell.countP q + 1).sum

theorem cost_cons (cell : Text) (cells : List Text) :
    cost q (cell :: cells) = cell.countP q + 1 + cost q cells := rfl

theorem cost_append (cells more : List Text) : cost q (cells ++ more) = cost q cells + cost q more := by
  simp only [cost, List.map_append, List.sum_append]

/-- Between characters of the kind. -/
theorem countP_intercalate (hx : q x = true) {cells : List Text} (hne : cells ≠ []) :
    ([x].intercalate cells).countP q + 1 = cost q cells := by
  induction cells with
  | nil => exact absurd rfl hne
  | cons cell cells ih =>
    by_cases hcells : cells = []
    · subst hcells
      rw [List.intercalate_singleton]
      rfl
    · rw [List.intercalate_cons_of_ne_nil hcells, List.countP_append, List.countP_append,
        List.countP_singleton, if_pos hx, cost_cons, ← ih hcells]
      omega

/-- Between other characters. -/
theorem countP_intercalate_of_not (hx : q x = false) (cells : List Text) :
    ([x].intercalate cells).countP q = cells.flatten.countP q := by
  induction cells with
  | nil => rfl
  | cons cell cells ih =>
    by_cases hcells : cells = []
    · subst hcells
      rw [List.intercalate_singleton, List.flatten_singleton]
    · rw [List.intercalate_cons_of_ne_nil hcells, List.countP_append, List.countP_append,
        List.countP_singleton, hx, ih, List.flatten_cons, List.countP_append]
      rfl

theorem trim_eq_dropLast (h : Unspaced printed) (hlast : printed.getLast? = some '\n') :
    trim printed = printed.dropLast := by
  obtain ⟨hne, hfirst, hend⟩ := h
  have hprinted := (List.dropLast_append_getLast? '\n' hlast).symm
  generalize printed.dropLast = t at hne hfirst hend hprinted
  subst hprinted
  have hfront : (t ++ ['\n']).dropWhile isSpace = t ++ ['\n'] := by
    cases t with
    | nil => exact absurd rfl hne
    | cons c t => rw [List.cons_append, List.dropWhile_cons, hfirst c rfl, if_neg Bool.false_ne_true]
  rw [trim, hfront, List.rdropWhile_concat_pos isSpace t '\n' rfl, List.rdropWhile_eq_self_iff]
  intro hne'
  rw [hend _ (List.getLast?_eq_some_getLast hne')]
  exact Bool.false_ne_true

/-- An output from which trimming takes no more than the last newline. -/
theorem unspaced_of_count (hq : ∀ c, isSpace c = true → q c = true)
    (hlast : printed.getLast? = some '\n')
    (hne : trim printed ≠ []) (hle : printed.countP q ≤ (trim printed).countP q + 1) :
    Unspaced printed := by
  obtain ⟨before, after, heq, hbefore, hafter, hhead⟩ := trim_cases printed
  have hend : isSpace ((trim printed).getLast hne) = false :=
    Bool.eq_false_iff.mpr (List.rdropWhile_last_not isSpace _ hne)
  have hlength : ∀ part : Text, (∀ c ∈ part, isSpace c = true) → part.countP q = part.length :=
    fun part hpart => List.countP_eq_length.mpr fun c hc => hq c (hpart c hc)
  have hcount := congrArg (List.countP q) heq
  rw [List.countP_append, List.countP_append, hlength before hbefore, hlength after hafter] at hcount
  have hafter_ne : after ≠ [] := by
    intro hnil
    rw [hnil, List.append_nil] at heq
    rw [heq, List.getLast?_append_of_ne_nil _ hne, List.getLast?_eq_some_getLast hne] at hlast
    rw [Option.some.inj hlast] at hend
    cases hend
  have hpos := List.length_pos_iff.mpr hafter_ne
  have hbefore_nil : before = [] := List.length_eq_zero_iff.mp (by omega)
  obtain ⟨x, hx⟩ := List.length_eq_one_iff.mp (show after.length = 1 by omega)
  have hdrop : printed.dropLast = trim printed := by
    have hprinted : printed = trim printed ++ [x] := by
      rw [← hx]
      rwa [hbefore_nil, List.nil_append] at heq
    exact (congrArg List.dropLast hprinted).trans List.dropLast_concat
  constructor
  · rw [hdrop]
    exact hne
  · rw [hdrop]
    exact hhead
  · rw [hdrop, List.getLast?_eq_some_getLast hne]
    intro c hc
    cases hc
    exact hend

theorem getLast?_trim_space {t : Text} (hne : trim t ≠ []) :
    ∀ c ∈ (trim t).getLast?, isSpace c = false := by
  intro c hc
  rw [List.getLast?_eq_some_getLast hne] at hc
  cases hc
  exact Bool.eq_false_iff.mpr (List.rdropWhile_last_not isSpace _ hne)

theorem countP_trim {t : Text} (hq : ∀ c, isSpace c = true → q c = false) :
    (trim t).countP q = t.countP q := by
  obtain ⟨before, after, heq, hbefore, hafter, -⟩ := trim_cases t
  have hzero : ∀ part : Text, (∀ c ∈ part, isSpace c = true) → part.countP q = 0 := by
    intro part hpart
    rw [List.countP_eq_zero]
    intro c hc
    rw [hq c (hpart c hc)]
    exact Bool.false_ne_true
  have hcount := congrArg (List.countP q) heq
  rw [List.countP_append, List.countP_append, hzero before hbefore, hzero after hafter] at hcount
  omega

theorem replacement_not_space : ∀ c, isSpace c = true → (c == replacement) = false := by
  intro c hc
  rw [Bool.eq_false_iff, ne_eq, beq_iff_eq]
  intro heq
  rw [heq] at hc
  cases hc

end Counting

/-! ## What MySQL prints -/

section Mysql

variable {q : Char → Bool} {g : Grid} {chunks : List (List UInt8)} {output : Text}

theorem unescape_cons {c : Char} (hc : c ≠ '\\') (rest : Text) :
    unescapeMysqlBatchField (c :: rest) = c :: unescapeMysqlBatchField rest := by
  cases rest with
  | nil => rfl
  | cons d rest => rw [unescapeMysqlBatchField, if_neg hc]

theorem unescape_escape (cell : Text) : unescapeMysqlBatchField (escape cell) = cell := by
  induction cell with
  | nil => rfl
  | cons c cell ih =>
    rw [escape] at ih
    rw [escape, List.flatMap_cons, escapeChar]
    by_cases hback : c = '\\'
    · subst hback
      exact congrArg ('\\' :: ·) ih
    · rw [if_neg hback]
      by_cases htab : c = '\t'
      · subst htab
        exact congrArg ('\t' :: ·) ih
      · rw [if_neg htab]
        by_cases hline : c = '\n'
        · subst hline
          exact congrArg ('\n' :: ·) ih
        · rw [if_neg hline]
          by_cases hnul : c = '\x00'
          · subst hnul
            exact congrArg ('\x00' :: ·) ih
          · rw [if_neg hnul, List.singleton_append, unescape_cons hback, ih]

theorem escapeChar_cases (c : Char) : escapeChar c = [c] ∧ c ≠ '\t' ∧ c ≠ '\n' ∨
    c ∈ ['\\', '\t', '\n', '\x00'] ∧ ∃ d ∈ ['\\', 't', 'n', '0'], escapeChar c = ['\\', d] := by
  rw [escapeChar]
  split
  · next h => exact .inr ⟨by simp [h], '\\', by simp, rfl⟩
  · split
    · next h => exact .inr ⟨by simp [h], 't', by simp, rfl⟩
    · next htab =>
      split
      · next h => exact .inr ⟨by simp [h], 'n', by simp, rfl⟩
      · next hline =>
        split
        · next h => exact .inr ⟨by simp [h], '0', by simp, rfl⟩
        · exact .inl ⟨rfl, htab, hline⟩

theorem notMem_escape {c : Char} (hc : c = '\t' ∨ c = '\n') (cell : Text) : c ∉ escape cell := by
  intro hmem
  obtain ⟨d, -, hd⟩ := List.mem_flatMap.mp hmem
  rcases escapeChar_cases d with ⟨heq, htab, hline⟩ | ⟨-, e, he, heq⟩
  · rw [heq, List.mem_singleton] at hd
    subst hd
    exact hc.elim htab hline
  · rw [heq] at hd
    rcases hc with rfl | rfl
    · simp at hd he
      subst hd
      simp at he
    · simp at hd he
      subst hd
      simp at he

/-- A kind of characters that the escapes are not of. -/
def Unescaped (q : Char → Bool) : Prop :=
  ∀ c ∈ ['\\', 't', 'n', '0', '\t', '\n', '\x00'], q c = false

theorem countP_escape (h : Unescaped q) (cell : Text) : (escape cell).countP q = cell.countP q := by
  induction cell with
  | nil => rfl
  | cons c cell ih =>
    rw [escape] at ih
    rw [escape, List.flatMap_cons, List.countP_append, ih, List.countP_cons]
    rcases escapeChar_cases c with ⟨heq, -⟩ | ⟨hc, e, he, heq⟩
    · rw [heq, List.countP_singleton]
      exact Nat.add_comm _ _
    · have hqc : q c = false := h c (by simp at hc ⊢; tauto)
      have hqe : q e = false := h e (by simp at he ⊢; tauto)
      have hback : q '\\' = false := h _ (by simp)
      simp [heq, hqc, hqe, hback]

theorem unescaped_cases {d e : Char} (h : unescaped d = some e) :
    d ∈ ['\\', 't', 'n', '0'] ∧ e ∈ ['\\', '\t', '\n', '\x00'] := by
  rw [unescaped] at h
  split at h
  · next hd => cases h; simp [hd]
  · split at h
    · next hd => cases h; simp [hd]
    · split at h
      · next hd => cases h; simp [hd]
      · split at h
        · next hd => cases h; simp [hd]
        · cases h

theorem countP_unescape (h : Unescaped q) (field : Text) :
    (unescapeMysqlBatchField field).countP q = field.countP q := by
  induction field using unescapeMysqlBatchField.induct with
  | case1 => rfl
  | case2 c => rfl
  | case3 c d rest e he ih =>
    rw [unescapeMysqlBatchField, he]
    split at he
    · next hback =>
      obtain ⟨hd, hmem⟩ := unescaped_cases he
      have hqd : q d = false := h d (by simp at hd ⊢; tauto)
      have hqe : q e = false := h e (by simp at hmem ⊢; tauto)
      have hqc : q c = false := h c (by simp [hback])
      simp [ih, hqd, hqe, hqc]
    · cases he
  | case4 c d rest he ih =>
    rw [unescapeMysqlBatchField, he, List.countP_cons, List.countP_cons, ih]

/-! ### Fields and lines -/

theorem cost_flatMap {α : Type} (f : α → List Text) (g : α → Text) (l : List α)
    (h : ∀ a ∈ l, (g a).countP q + 1 = cost q (f a)) : cost q (l.flatMap f) = cost q (l.map g) := by
  induction l with
  | nil => rfl
  | cons a l ih =>
    rw [List.flatMap_cons, cost_append, List.map_cons, cost_cons, h a List.mem_cons_self,
      ih fun b hb => h b (List.mem_cons_of_mem a hb)]

theorem cost_map {q' : Char → Bool} (f : Text → Text) (cells : List Text)
    (h : ∀ cell ∈ cells, (f cell).countP q = cell.countP q') :
    cost q (cells.map f) = cost q' cells := by
  simp only [cost, List.map_map]
  congr 1
  exact List.map_congr_left fun cell hcell => congrArg (· + 1) (h cell hcell)

theorem flatMap_lines {x : Char} {lines : List Text} (hne : lines ≠ []) :
    lines.flatMap (· ++ [x]) = [x].intercalate lines ++ [x] := by
  induction lines with
  | nil => exact absurd rfl hne
  | cons line lines ih =>
    by_cases hlines : lines = []
    · subst hlines
      rw [List.intercalate_singleton, List.flatMap_singleton]
    · rw [List.flatMap_cons, ih hlines, List.intercalate_cons_of_ne_nil hlines]
      simp only [List.append_assoc]

def fields (output : Text) : List (List Text) := (output.splitOn '\n').map fun line => line.splitOn '\t'

theorem cost_fields (output : Text) : cost isSpace
    (fields output).flatten = output.countP isSpace + 1 := by
  have hlines : cost isSpace (fields output).flatten = cost isSpace ((output.splitOn '\n').map id) := by
    rw [fields, ← List.flatMap_def]
    refine cost_flatMap _ _ _ fun line _ => ?_
    have hline := countP_intercalate (q := isSpace) (x := '\t') rfl (List.splitOn_ne_nil '\t' line)
    rwa [List.intercalate_splitOn] at hline
  have houtput := countP_intercalate (q := isSpace) (x := '\n') rfl (List.splitOn_ne_nil '\n' output)
  rw [List.intercalate_splitOn] at houtput
  rw [hlines, List.map_id, houtput]

theorem countP_fields (htab : q '\t' = false) (hline : q '\n' = false) (output : Text) :
    (fields output).flatten.flatten.countP q = output.countP q := by
  have houtput := countP_intercalate_of_not hline (output.splitOn '\n')
  rw [List.intercalate_splitOn] at houtput
  rw [houtput, fields]
  generalize output.splitOn '\n' = lines
  induction lines with
  | nil => rfl
  | cons line lines ih =>
    have hfirst := countP_intercalate_of_not htab (line.splitOn '\t')
    rw [List.intercalate_splitOn] at hfirst
    rw [List.map_cons, List.flatten_cons, List.flatten_append, List.countP_append, ih,
      List.flatten_cons, List.countP_append, hfirst]

def blank (c : Char) : Bool := isSpace c && c != '\t' && c != '\n'

theorem unescaped_blank : Unescaped blank := by
  intro c hc
  simp only [List.mem_cons, List.not_mem_nil, or_false] at hc
  rcases hc with rfl | rfl | rfl | rfl | rfl | rfl | rfl <;> rfl

theorem countP_blank {t : Text} (htab : '\t' ∉ t) (hline : '\n' ∉ t) :
    t.countP isSpace = t.countP blank := by
  refine List.countP_congr fun c hc => ?_
  have hctab : c ≠ '\t' := fun heq => htab (heq ▸ hc)
  have hcline : c ≠ '\n' := fun heq => hline (heq ▸ hc)
  simp [blank, hctab, hcline]

theorem intercalate_concat {x : Char} {lines : List Text} (hne : lines ≠ []) (line : Text) :
    [x].intercalate (lines ++ [line]) = [x].intercalate lines ++ x :: line := by
  induction lines with
  | nil => exact absurd rfl hne
  | cons first lines ih =>
    rw [List.cons_append, List.intercalate_cons_of_ne_nil (List.concat_ne_nil line lines)]
    by_cases hlines : lines = []
    · subst hlines
      simp
    · rw [ih hlines, List.intercalate_cons_of_ne_nil hlines]
      simp only [List.append_assoc]

/-- A text that does not end with a newline has no empty last line. -/
theorem not_popped (hne : output ≠ []) (hlast : ∀ c ∈ output.getLast?, c ≠ '\n') :
    (output.splitOn '\n').getLast? ≠ some [] := by
  intro hempty
  have houtput : ['\n'].intercalate (output.splitOn '\n') = output := List.intercalate_splitOn '\n'
  rw [← List.dropLast_append_getLast? _ hempty] at houtput
  by_cases hinit : (output.splitOn '\n').dropLast = []
  · rw [hinit] at houtput
    exact hne houtput.symm
  · rw [intercalate_concat hinit] at houtput
    refine hlast '\n' ?_ rfl
    rw [← houtput, List.getLast?_concat]
    rfl

/-- Fields that have been split have no separators. -/
theorem notMem_fields {line : List Text} {field : Text} (hline : line ∈ fields output)
    (hfield : field ∈ line) : '\t' ∉ field ∧ '\n' ∉ field := by
  obtain ⟨text, htext, rfl⟩ := List.mem_map.mp hline
  refine ⟨Paths.notMem_of_mem_splitOn text field hfield, fun hmem => ?_⟩
  apply Paths.notMem_of_mem_splitOn output text htext
  have hcount := countP_intercalate_of_not (q := (· == '\n')) (x := '\t') rfl (text.splitOn '\t')
  rw [List.intercalate_splitOn] at hcount
  rw [← List.count_pos_iff, List.count, hcount, List.countP_pos_iff]
  exact ⟨'\n', List.mem_flatten.mpr ⟨field, hfield, hmem⟩, rfl⟩

def cells (parsed : List Text × List (List Text)) : List Text := parsed.1 ++ parsed.2.flatten

theorem parse_fields (h : (output.splitOn '\n').getLast? ≠ some []) :
    ∃ first rest, fields output = first :: rest ∧
      parseMysqlBatchOutput output = (first, rest.map fun line =>
        line.map unescapeMysqlBatchField) := by
  rw [parseMysqlBatchOutput, if_neg h, fields]
  cases hlines : output.splitOn '\n' with
  | nil => exact absurd hlines (List.splitOn_ne_nil '\n' output)
  | cons line lines =>
    refine ⟨_, _, List.map_cons, ?_⟩
    rw [List.map_map]
    rfl

theorem countP_flatten_map (f : Text → Text) (fields : List Text)
    (h : ∀ field ∈ fields, (f field).countP q = field.countP q) :
    (fields.map f).flatten.countP q = fields.flatten.countP q := by
  induction fields with
  | nil => rfl
  | cons field fields ih =>
    rw [List.map_cons, List.flatten_cons, List.countP_append, h field List.mem_cons_self,
      ih fun other hother => h other (List.mem_cons_of_mem field hother), List.flatten_cons,
      List.countP_append]

/-- The cells that are read have the white space of the output, but for the separators. -/
theorem cost_parse (h : (output.splitOn '\n').getLast? ≠ some []) :
    cost blank (cells (parseMysqlBatchOutput output)) = output.countP isSpace + 1 := by
  obtain ⟨first, rest, hfields, hparse⟩ := parse_fields h
  have hblank : ∀ line ∈ fields output, ∀ field ∈ line, field.countP blank = field.countP isSpace := by
    intro line hline field hfield
    obtain ⟨htab, hnewline⟩ := notMem_fields hline hfield
    exact (countP_blank htab hnewline).symm
  rw [← cost_fields, hfields, hparse, cells, List.flatten_cons, cost_append, cost_append]
  rw [hfields] at hblank
  congr 1
  · have hfirst : cost blank (first.map id) = cost isSpace first :=
      cost_map id first fun field hfield => hblank first List.mem_cons_self field hfield
    rwa [List.map_id] at hfirst
  · rw [← List.map_flatten]
    refine cost_map _ _ fun field hfield => ?_
    obtain ⟨line, hline, hfield⟩ := List.mem_flatten.mp hfield
    rw [countP_unescape unescaped_blank]
    exact hblank line (List.mem_cons_of_mem first hline) field hfield

theorem countP_parse (hq : Unescaped q) (h : (output.splitOn '\n').getLast? ≠ some []) :
    (cells (parseMysqlBatchOutput output)).flatten.countP q = output.countP q := by
  obtain ⟨first, rest, hfields, hparse⟩ := parse_fields h
  rw [← countP_fields (hq '\t' (by simp)) (hq '\n' (by simp)) output, hfields, hparse, cells,
    List.flatten_append, List.countP_append, ← List.map_flatten,
    countP_flatten_map _ _ fun field _ => countP_unescape hq field, List.flatten_cons,
    List.flatten_append, List.countP_append]

/-! ### The printed text -/

theorem Grid.row_ne_nil (g : Grid) {row : List Text} (hrow : row ∈ g.rows) : row ≠ [] := by
  intro hnil
  have hwidth := g.width row hrow
  rw [hnil, List.length_nil] at hwidth
  exact g.columns (List.length_eq_zero_iff.mp hwidth.symm)

theorem Grid.fields_ne_nil (g : Grid) {fields : List Text} (h : fields ∈ g.mysqlFields) :
    fields ≠ [] := by
  rcases List.mem_cons.mp h with rfl | h
  · exact g.columns
  · obtain ⟨row, hrow, rfl⟩ := List.mem_map.mp h
    exact fun hnil => g.row_ne_nil hrow (List.map_eq_nil_iff.mp hnil)

def Grid.cells (g : Grid) : List Text := ResultGrids.cells (g.header, g.rows)

theorem flatten_mysqlFields (g : Grid) :
    g.mysqlFields.flatten = g.header ++ g.rows.flatten.map escape := by
  rw [Grid.mysqlFields, List.flatten_cons, ← List.map_flatten]

theorem mysqlBatch_eq (g : Grid) :
    mysqlBatch g = ['\n'].intercalate (g.mysqlFields.map tabbed) ++ ['\n'] := by
  rw [← flatMap_lines (by simp [Grid.mysqlFields]), List.flatMap_map]
  rfl

def Plain (g : Grid) : Prop := ∀ name ∈ g.header, '\t' ∉ name ∧ '\n' ∉ name

theorem cost_mysqlBatch (h : Plain g) : (mysqlBatch g).countP isSpace = cost blank g.cells := by
  have hlines : (mysqlBatch g).countP isSpace = cost isSpace (g.mysqlFields.map tabbed) := by
    rw [mysqlBatch_eq, List.countP_append]
    exact countP_intercalate (q := isSpace) (x := '\n') rfl (by simp [Grid.mysqlFields])
  have hfields : cost isSpace g.mysqlFields.flatten = cost isSpace (g.mysqlFields.map tabbed) := by
    rw [← List.flatMap_id]
    exact cost_flatMap _ _ _ fun fields hmem =>
      countP_intercalate (q := isSpace) (x := '\t') rfl (g.fields_ne_nil hmem)
  rw [hlines, ← hfields, flatten_mysqlFields, cost_append, Grid.cells, cells, cost_append]
  congr 1
  · have hheader : cost isSpace (g.header.map id) = cost blank g.header :=
      cost_map id g.header fun name hname => countP_blank (h name hname).1 (h name hname).2
    rwa [List.map_id] at hheader
  · refine cost_map _ _ fun cell _ => ?_
    rw [countP_blank (notMem_escape (.inl rfl) cell) (notMem_escape (.inr rfl) cell),
      countP_escape unescaped_blank]

theorem countP_mysqlBatch (hq : Unescaped q) : (mysqlBatch g).countP q = g.cells.flatten.countP q := by
  have hnewline : q '\n' = false := hq _ (by simp)
  have hlines : ∀ lines : List (List Text),
      (lines.map tabbed).flatten.countP q = lines.flatten.flatten.countP q := by
    intro lines
    induction lines with
    | nil => rfl
    | cons line lines ih =>
      rw [List.map_cons, List.flatten_cons, List.countP_append, ih, tabbed,
        countP_intercalate_of_not (hq '\t' (by simp)), List.flatten_cons, List.flatten_append,
        List.countP_append]
  rw [mysqlBatch_eq, List.countP_append, countP_intercalate_of_not hnewline, hlines,
    flatten_mysqlFields, List.countP_singleton, hnewline, List.flatten_append, List.countP_append,
    countP_flatten_map _ _ fun cell _ => countP_escape hq cell, Grid.cells, cells, List.flatten_append,
    List.countP_append]
  rfl

/-! ### Read back -/

theorem getLast?_mysqlBatch (g : Grid) : (mysqlBatch g).getLast? = some '\n' := by
  rw [mysqlBatch_eq, List.getLast?_concat]

theorem dropLast_mysqlBatch (g : Grid) :
    (mysqlBatch g).dropLast = ['\n'].intercalate (g.mysqlFields.map tabbed) := by
  rw [mysqlBatch_eq, List.dropLast_concat]

/-- A text without white space at its end is not taken for one with an empty last line. -/
theorem not_popped_of_trimmed (hne : output ≠ [])
    (hlast : ∀ c ∈ output.getLast?, isSpace c = false) :
    (output.splitOn '\n').getLast? ≠ some [] := by
  refine not_popped hne fun c hc hline => ?_
  have hspace := hlast c hc
  rw [hline] at hspace
  cases hspace

theorem notMem_tabbed {fields : List Text} (h : ∀ field ∈ fields, '\n' ∉ field) :
    '\n' ∉ tabbed fields := by
  have hcount := countP_intercalate_of_not (q := (· == '\n')) (x := '\t') rfl fields
  rw [tabbed, ← List.count_eq_zero, List.count, hcount, List.countP_eq_zero]
  intro c hc
  obtain ⟨field, hfield, hmem⟩ := List.mem_flatten.mp hc
  rw [beq_iff_eq]
  intro heq
  exact h field hfield (heq ▸ hmem)

theorem parse_mysqlBatch (hplain : Plain g) (h : Unspaced (mysqlBatch g)) :
    parseMysqlBatchOutput (mysqlBatch g).dropLast = (g.header, g.rows) := by
  have hpopped := not_popped_of_trimmed h.nonempty h.last
  obtain ⟨first, rest, hfields, hparse⟩ := parse_fields hpopped
  have hraw : ∀ fields ∈ g.mysqlFields, ∀ field ∈ fields, '\t' ∉ field ∧ '\n' ∉ field := by
    intro fields hmem field hfield
    rcases List.mem_cons.mp hmem with rfl | hmem
    · exact hplain field hfield
    · obtain ⟨row, -, rfl⟩ := List.mem_map.mp hmem
      obtain ⟨cell, -, rfl⟩ := List.mem_map.mp hfield
      exact ⟨notMem_escape (.inl rfl) cell, notMem_escape (.inr rfl) cell⟩
  have hlines : ∀ line ∈ g.mysqlFields.map tabbed, '\n' ∉ line := by
    intro line hline
    obtain ⟨fields, hmem, rfl⟩ := List.mem_map.mp hline
    exact notMem_tabbed fun field hfield => (hraw fields hmem field hfield).2
  have hsame : fields (mysqlBatch g).dropLast = g.mysqlFields := by
    rw [fields, dropLast_mysqlBatch, List.splitOn_intercalate '\n' hlines (by simp [Grid.mysqlFields]),
      List.map_map]
    calc g.mysqlFields.map ((fun line => line.splitOn '\t') ∘ tabbed)
        = g.mysqlFields.map id := List.map_congr_left fun fields hmem =>
          List.splitOn_intercalate '\t' (fun field hfield => (hraw fields hmem field hfield).1)
            (g.fields_ne_nil hmem)
      _ = g.mysqlFields := List.map_id _
  rw [hsame, Grid.mysqlFields] at hfields
  obtain ⟨rfl, rfl⟩ := List.cons.inj hfields
  rw [hparse, List.map_map]
  congr 1
  have hrow : ∀ row : List Text, (row.map escape).map unescapeMysqlBatchField = row := by
    intro row
    rw [List.map_map]
    exact (List.map_congr_left fun cell _ => unescape_escape cell).trans (List.map_id row)
  exact (List.map_congr_left fun row _ => hrow row).trans (List.map_id g.rows)

/-- The grid that `mysql` printed is read back exactly when no border of chunks is inside a
character, no name of a column has a tab or a newline, and nothing but the last newline is
trimmed. -/
theorem mysql_reads_back (h : chunks.flatten = encode (mysqlBatch g)) :
    parseMysqlBatchOutput (execInPod chunks) = (g.header, g.rows) ↔
      Whole chunks ∧ Plain g ∧ Unspaced (mysqlBatch g) := by
  constructor
  · intro hparse
    have hne : execInPod chunks ≠ [] := by
      intro hnil
      rw [hnil] at hparse
      exact g.columns (congrArg Prod.fst hparse).symm
    have hpopped := not_popped_of_trimmed hne (getLast?_trim_space hne)
    have hcells : cells (parseMysqlBatchOutput (execInPod chunks)) = g.cells := by
      rw [hparse]
      rfl
    have hreplacement : Unescaped (· == replacement) := by
      intro c hc
      simp only [List.mem_cons, List.not_mem_nil, or_false] at hc
      rcases hc with rfl | rfl | rfl | rfl | rfl | rfl | rfl <;> rfl
    have hcount := countP_parse hreplacement hpopped
    rw [hcells, ← countP_mysqlBatch hreplacement, execInPod,
      countP_trim replacement_not_space] at hcount
    rcases received_cases chunks h with ⟨hwhole, hreceived⟩ | ⟨-, hmore⟩
    · have hplain : Plain g := by
        intro name hname
        obtain ⟨first, rest, hfields, hread⟩ := parse_fields hpopped
        rw [hread] at hparse
        have hfirst : first = g.header := congrArg Prod.fst hparse
        apply notMem_fields (hfields ▸ List.mem_cons_self)
        rw [hfirst]
        exact hname
      refine ⟨hwhole, hplain, ?_⟩
      rw [execInPod, hreceived] at hpopped hcells hne
      refine unspaced_of_count (fun _ hc => hc) (getLast?_mysqlBatch g) hne ?_
      rw [cost_mysqlBatch hplain, ← hcells, cost_parse hpopped]
    · exact absurd hcount (Nat.ne_of_lt hmore)
  · rintro ⟨hwhole, hplain, hunspaced⟩
    rcases received_cases chunks h with ⟨-, hreceived⟩ | ⟨hnot, -⟩
    · rw [execInPod, hreceived, trim_eq_dropLast hunspaced (getLast?_mysqlBatch g)]
      exact parse_mysqlBatch hplain hunspaced
    · exact absurd hwhole hnot

end Mysql

/-! ## What PostgreSQL prints -/

section Postgres

variable {q : Char → Bool} {g : Grid} {chunks : List (List UInt8)} {s : Csv} {rest : Text}

def Csv.cells (s : Csv) : List Text := s.result.flatten ++ s.current

theorem flatten_of_not_kept {row : List Text} (h : kept row = false) : row.flatten = [] := by
  rw [List.flatten_eq_nil_iff]
  intro field hfield
  have hall := (List.any_eq_false.mp h) field hfield
  simpa using hall

theorem finish_kept (h : ∀ row ∈ s.result, kept row = true) :
    ∀ row ∈ s.finish.result, kept row = true := by
  intro row hrow
  rw [Csv.finish] at hrow
  split at hrow
  · next hkept =>
    rcases List.mem_append.mp hrow with hrow | hrow
    · exact h row hrow
    · rw [List.mem_singleton.mp hrow]
      exact hkept
  · exact h row hrow

theorem finish_cost : cost q s.finish.cells ≤ cost q s.cells + (s.field.countP q + 1) := by
  have hcells : cost q s.cells = cost q s.result.flatten + cost q s.current := cost_append _ _
  have hend : cost q [s.field] = s.field.countP q + 1 := rfl
  rw [Csv.cells, Csv.finish]
  simp only [List.append_nil]
  split
  · rw [List.flatten_append, List.flatten_singleton, cost_append, cost_append, hend]
    omega
  · omega

theorem finish_countP :
    s.finish.cells.flatten.countP q = s.cells.flatten.countP q + s.field.countP q := by
  have hline : (s.current ++ [s.field]).flatten.countP q =
    s.current.flatten.countP q + s.field.countP q := by
    rw [List.flatten_append, List.flatten_singleton, List.countP_append]
  rw [Csv.cells, Csv.cells, Csv.finish]
  simp only [List.append_nil]
  split
  · rw [List.flatten_append, List.flatten_singleton, List.flatten_append, List.countP_append, hline,
      List.flatten_append, List.countP_append]
    omega
  · next hkept =>
    have hempty := flatten_of_not_kept (Bool.eq_false_iff.mpr hkept)
    rw [hempty] at hline
    rw [List.flatten_append, List.countP_append]
    simp only [List.countP_nil] at hline
    omega

theorem csvLoop_kept (s : Csv) (skip : Bool) (t : Text) (h : ∀ row ∈ s.result, kept row = true) :
    ∀ row ∈ (csvLoop s skip t).result, kept row = true := by
  fun_induction csvLoop s skip t with
  | case1 => exact h
  | case2 s c rest ih => exact ih h
  | case3 s rest hin hnext ih => exact ih h
  | case4 s rest hin hnext ih => exact ih h
  | case5 s c rest hin hc ih => exact ih h
  | case6 s rest hin ih => exact ih h
  | case7 s rest hin hc ih => exact ih h
  | case8 s rest hin hc hcomma ih => exact ih (finish_kept h)
  | case9 s rest hin hc hcomma hline ih => exact ih h
  | case10 s c rest hin hc hcomma hline hreturn ih => exact ih h

theorem finish_field : s.finish.field = [] := rfl

/-- The cells weigh no more than the text, when commas and newlines are of the kind. -/
theorem csvLoop_cost (hcomma : q ',' = true) (hline : q '\n' = true) (s : Csv) (skip : Bool)
    (t : Text) :
    cost q (csvLoop s skip t).cells + (csvLoop s skip t).field.countP q ≤
      cost q s.cells + s.field.countP q + t.countP q := by
  fun_induction csvLoop s skip t with
  | case1 => exact Nat.le_add_right _ _
  | case2 s c rest ih =>
    rw [List.countP_cons]
    omega
  | case3 s rest hin hnext ih =>
    simp only [Csv.cells, List.countP_append, List.countP_cons, List.countP_nil] at ih ⊢
    omega
  | case4 s rest hin hnext ih =>
    rw [List.countP_cons]
    simp only [Csv.cells] at ih ⊢
    omega
  | case5 s c rest hin hc ih =>
    simp only [Csv.cells, List.countP_append, List.countP_cons, List.countP_nil] at ih ⊢
    omega
  | case6 s rest hin ih =>
    rw [List.countP_cons]
    simp only [Csv.cells] at ih ⊢
    omega
  | case7 s rest hin hc ih =>
    have hend : cost q [s.field] = s.field.countP q + 1 := rfl
    rw [List.countP_cons, if_pos hcomma]
    simp only [Csv.cells, cost_append, hend, List.countP_nil] at ih ⊢
    omega
  | case8 s rest hin hc _ ih =>
    have hfinish : cost q s.finish.cells ≤ cost q s.cells + (s.field.countP q + 1) := finish_cost
    rw [finish_field, List.countP_nil] at ih
    rw [List.countP_cons, if_pos hline]
    omega
  | case9 s rest hin hc _ _ ih =>
    rw [List.countP_cons]
    omega
  | case10 s c rest hin hc _ _ _ ih =>
    simp only [Csv.cells, List.countP_append, List.countP_cons, List.countP_nil] at ih ⊢
    omega

/-- A kind of characters that quotes and line ends are not of. -/
def Unquoted (q : Char → Bool) : Prop := ∀ c ∈ ['"', ',', '\n', '\r'], q c = false

theorem csvLoop_countP (hq : Unquoted q) (s : Csv) (skip : Bool) (t : Text)
    (hskip : skip = true → t.head? = some '"') :
    (csvLoop s skip t).cells.flatten.countP q + (csvLoop s skip t).field.countP q =
      s.cells.flatten.countP q + s.field.countP q + t.countP q := by
  have hquote : q '"' = false := hq _ (by simp)
  have hcomma : q ',' = false := hq _ (by simp)
  have hline : q '\n' = false := hq _ (by simp)
  have hreturn : q '\r' = false := hq _ (by simp)
  fun_induction csvLoop s skip t with
  | case1 => rfl
  | case2 s c rest ih =>
    have hc : c = '"' := Option.some.inj (hskip rfl)
    rw [ih (fun h => by cases h), List.countP_cons, hc, hquote]
    rfl
  | case3 s rest hin hnext ih =>
    have hloop := ih fun _ => hnext
    simp only [Csv.cells, List.countP_append, List.countP_cons, List.countP_nil, hquote] at hloop ⊢
    exact hloop
  | case4 s rest hin hnext ih =>
    have hloop := ih fun h => by cases h
    simp only [Csv.cells, List.countP_cons, hquote] at hloop ⊢
    exact hloop
  | case5 s c rest hin hc ih =>
    have hloop := ih fun h => by cases h
    simp only [Csv.cells, List.countP_append, List.countP_cons, List.countP_nil] at hloop ⊢
    omega
  | case6 s rest hin ih =>
    have hloop := ih fun h => by cases h
    simp only [Csv.cells, List.countP_cons, hquote] at hloop ⊢
    exact hloop
  | case7 s rest hin hc ih =>
    have hloop := ih fun h => by cases h
    rw [List.countP_cons, hcomma, if_neg Bool.false_ne_true]
    simp only [Csv.cells, List.flatten_append, List.countP_append, List.flatten_singleton,
      List.countP_nil]
      at hloop ⊢
    omega
  | case8 s rest hin hc _ ih =>
    have hloop := ih fun h => by cases h
    rw [finish_countP, finish_field, List.countP_nil] at hloop
    rw [hloop, List.countP_cons, hline]
    rfl
  | case9 s rest hin hc _ _ ih =>
    have hloop := ih fun h => by cases h
    rw [hloop, List.countP_cons, hreturn]
    rfl
  | case10 s c rest hin hc _ _ _ ih =>
    have hloop := ih fun h => by cases h
    simp only [Csv.cells, List.countP_append, List.countP_cons, List.countP_nil] at hloop ⊢
    omega

/-! ### The lines that are read -/

theorem parseCsvLines_kept (t : Text) : ∀ row ∈ parseCsvLines t, kept row = true := by
  have hloop := csvLoop_kept {} false t fun row hrow => absurd hrow List.not_mem_nil
  rw [parseCsvLines]
  split
  · exact finish_kept hloop
  · exact hloop

theorem parseCsvLines_cost (hcomma : q ',' = true) (hline : q '\n' = true) (t : Text) :
    cost q (parseCsvLines t).flatten ≤ t.countP q + 1 := by
  have hloop := csvLoop_cost hcomma hline {} false t
  have hempty : cost q ({} : Csv).cells + ({} : Csv).field.countP q = 0 := rfl
  rw [hempty, Nat.zero_add] at hloop
  rw [parseCsvLines]
  generalize csvLoop {} false t = s at hloop ⊢
  have hcells : cost q s.cells = cost q s.result.flatten + cost q s.current := cost_append _ _
  split
  · have hfinish : cost q s.finish.cells ≤ cost q s.cells + (s.field.countP q + 1) := finish_cost
    have hresult : cost q s.finish.cells = cost q s.finish.result.flatten := by
      rw [Csv.cells, show s.finish.current = [] from rfl, List.append_nil]
    omega
  · omega

theorem parseCsvLines_countP (hq : Unquoted q) (t : Text) :
    (parseCsvLines t).flatten.flatten.countP q = t.countP q := by
  have hloop := csvLoop_countP hq {} false t fun h => by cases h
  have hempty : ({} : Csv).cells.flatten.countP q + ({} : Csv).field.countP q = 0 := rfl
  rw [hempty, Nat.zero_add] at hloop
  rw [parseCsvLines]
  generalize csvLoop {} false t = s at hloop ⊢
  split
  · rw [← hloop, ← finish_countP, Csv.cells, show s.finish.current = [] from rfl, List.append_nil]
  · next hover =>
    rw [not_or, not_not, Nat.not_lt, Nat.le_zero, List.length_eq_zero_iff] at hover
    rw [← hloop, hover.1, Csv.cells, hover.2, List.append_nil]
    rfl

/-! ### The printed fields -/

theorem not_special {c : Char} (h : isSpecial c = false) : c ≠ ',' ∧ c ≠ '"' ∧ c ≠ '\r' ∧ c ≠ '\n' := by
  simpa [isSpecial, Bool.or_eq_false_iff, and_assoc] using h

theorem csvLoop_plain (result : List (List Text)) (current : List Text) (field f : Text)
    (h : f.any isSpecial = false) : csvLoop ⟨result, current, field, false⟩ false (f ++ rest) =
      csvLoop ⟨result, current, field ++ f, false⟩ false rest := by
  induction f generalizing field with
  | nil => rw [List.nil_append, List.append_nil]
  | cons c f ih =>
    rw [List.any_cons, Bool.or_eq_false_iff] at h
    obtain ⟨hcomma, hquote, hreturn, hline⟩ := not_special h.1
    rw [List.cons_append, csvLoop]
    simp only [Bool.false_eq_true, if_false, if_neg hquote, if_neg hcomma, if_neg hline, if_neg hreturn]
    rw [ih _ h.2, List.append_assoc, List.singleton_append]

theorem csvLoop_doubled (result : List (List Text)) (current : List Text) (field f : Text)
    (hrest : rest.head? ≠ some '"') :
    csvLoop ⟨result, current, field, true⟩ false (doubled f ++ '"' :: rest) =
      csvLoop ⟨result, current, field ++ f, false⟩ false rest := by
  induction f generalizing field with
  | nil =>
    rw [doubled, List.flatMap_nil, List.nil_append, csvLoop, List.append_nil]
    simp only [if_true, if_neg hrest]
  | cons c f ih =>
    rw [doubled] at ih
    rw [doubled, List.flatMap_cons]
    by_cases hc : c = '"'
    · subst hc
      rw [if_pos rfl, List.append_assoc, List.cons_append, csvLoop]
      simp only [if_true, List.cons_append, List.head?_cons]
      rw [csvLoop, List.nil_append, ih, List.append_assoc, List.singleton_append]
    · rw [if_neg hc, List.append_assoc, List.cons_append, csvLoop]
      simp only [if_true, if_neg hc]
      rw [List.nil_append, ih, List.append_assoc, List.singleton_append]

theorem csvLoop_field (result : List (List Text)) (current : List Text) (f : Text)
    (hrest : rest.head? ≠ some '"') :
    csvLoop ⟨result, current, [], false⟩ false (csvField f ++ rest) =
      csvLoop ⟨result, current, f, false⟩ false rest := by
  rw [csvField]
  split
  · rw [List.append_assoc, List.cons_append, csvLoop]
    simp only [Bool.false_eq_true, if_false, if_true]
    exact csvLoop_doubled result current [] f hrest
  · next hplain => exact csvLoop_plain result current [] f (Bool.eq_false_iff.mpr hplain)

theorem csvLoop_separated (result : List (List Text)) (current row : List Text) (hne : row ≠ [])
    (hrest : rest.head? ≠ some '"') :
    csvLoop ⟨result, current, [], false⟩ false (separated (row.map csvField) ++ rest) =
      csvLoop ⟨result, current ++ row.dropLast, row.getLast hne, false⟩ false rest := by
  induction row generalizing current with
  | nil => exact absurd rfl hne
  | cons f row ih =>
    by_cases hrow : row = []
    · subst hrow
      rw [separated, List.map_singleton, List.intercalate_singleton, csvLoop_field _ _ _ hrest,
        List.dropLast_singleton, List.append_nil, List.getLast_singleton]
    · rw [separated] at ih
      rw [separated, List.map_cons, List.intercalate_cons_of_ne_nil (by simpa using hrow),
        List.append_assoc, List.append_assoc, csvLoop_field _ _ _ (by simp),
        List.singleton_append, csvLoop]
      simp only [Bool.false_eq_true, if_false, if_neg (show ¬ (',' : Char) = '"' by decide), if_true]
      rw [ih _ hrow, List.append_assoc, List.singleton_append, List.dropLast_cons_of_ne_nil hrow,
        List.getLast_cons hrow]

def csvLine (row : List Text) : Text := separated (row.map csvField) ++ ['\n']

theorem csvLoop_lines (result rows : List (List Text)) (hne : ∀ row ∈ rows, row ≠ [])
    (hkept : ∀ row ∈ rows, kept row = true) :
    csvLoop ⟨result, [], [], false⟩ false (rows.flatMap csvLine ++ rest) =
      csvLoop ⟨result ++ rows, [], [], false⟩ false rest := by
  induction rows generalizing result with
  | nil => rw [List.flatMap_nil, List.nil_append, List.append_nil]
  | cons row rows ih =>
    have hrow := hne row List.mem_cons_self
    have hfinish : Csv.finish ⟨result, row.dropLast, row.getLast hrow, false⟩ =
        ⟨result ++ [row], [], [], false⟩ := by
      rw [Csv.finish]
      simp only [List.dropLast_append_getLast hrow, hkept row List.mem_cons_self, if_true]
    rw [List.flatMap_cons, csvLine, List.append_assoc, List.append_assoc,
      csvLoop_separated _ _ _ hrow (by simp), List.nil_append, List.singleton_append, csvLoop]
    simp only [Bool.false_eq_true, if_false, if_neg (show ¬ ('\n' : Char) = '"' by decide),
      if_neg (show ¬ ('\n' : Char) = ',' by decide), if_true]
    rw [hfinish, ih _ (fun r hr => hne r (List.mem_cons_of_mem row hr))
      (fun r hr => hkept r (List.mem_cons_of_mem row hr)), List.append_assoc, List.singleton_append]

theorem Grid.line_ne_nil (g : Grid) {row : List Text} (hrow : row ∈ g.lines) : row ≠ [] := by
  rcases List.mem_cons.mp hrow with rfl | hrow
  · exact g.columns
  · exact g.row_ne_nil hrow

theorem psqlCsv_eq (g : Grid) : psqlCsv g = g.lines.flatMap csvLine := rfl

/-- The output without its last newline. -/
theorem psqlCsv_split (g : Grid) : ∃ init last, g.lines = init ++ [last] ∧
    psqlCsv g = init.flatMap csvLine ++ separated (last.map csvField) ++ ['\n'] := by
  have hne : g.lines ≠ [] := List.cons_ne_nil _ _
  refine ⟨g.lines.dropLast, g.lines.getLast hne, (List.dropLast_append_getLast hne).symm, ?_⟩
  rw [psqlCsv_eq]
  conv_lhs => rw [← List.dropLast_append_getLast hne]
  rw [List.flatMap_append, List.flatMap_singleton, csvLine, List.append_assoc]

theorem getLast?_psqlCsv (g : Grid) : (psqlCsv g).getLast? = some '\n' := by
  obtain ⟨init, last, -, heq⟩ := psqlCsv_split g
  rw [heq, List.getLast?_concat]

theorem parse_psqlCsv (hkept : ∀ row ∈ g.lines, kept row = true) :
    parseCsvLines (psqlCsv g).dropLast = g.lines := by
  obtain ⟨init, last, hlines, heq⟩ := psqlCsv_split g
  have hne : ∀ row ∈ init ++ [last], row ≠ [] := fun row hrow => g.line_ne_nil (hlines ▸ hrow)
  rw [hlines] at hkept ⊢
  have hlast : last ≠ [] := hne last (List.mem_append_right _ List.mem_cons_self)
  have hloop := @csvLoop_separated [] init [] last hlast (by simp)
  rw [List.append_nil] at hloop
  rw [heq, List.dropLast_concat, parseCsvLines, csvLoop_lines [] init
    (fun row hrow => hne row (List.mem_append_left _ hrow))
    (fun row hrow => hkept row (List.mem_append_left _ hrow)), List.nil_append, hloop, csvLoop]
  have hlastkept := hkept last (List.mem_append_right _ List.mem_cons_self)
  have hends : last.getLast hlast ≠ [] ∨ 0 < ([] ++ last.dropLast).length := by
    by_cases hone : last.dropLast = []
    · left
      intro hempty
      have hsingle := List.dropLast_append_getLast hlast
      rw [hone, hempty] at hsingle
      rw [← hsingle] at hlastkept
      cases hlastkept
    · right
      exact List.length_pos_iff.mpr hone
  rw [if_pos hends, Csv.finish]
  simp only [List.nil_append, List.dropLast_append_getLast hlast, hlastkept, if_true]

def separates (c : Char) : Bool := isSpace c || c == ','

theorem countP_doubled (hquote : q '"' = false) (f : Text) : (doubled f).countP q = f.countP q := by
  induction f with
  | nil => rfl
  | cons c f ih =>
    rw [doubled] at ih
    rw [doubled, List.flatMap_cons, List.countP_append, ih, List.countP_cons]
    by_cases hc : c = '"'
    · simp [hc, hquote]
    · rw [if_neg hc, List.countP_singleton]
      exact Nat.add_comm _ _

theorem countP_csvField (hquote : q '"' = false) (f : Text) : (csvField f).countP q = f.countP q := by
  rw [csvField]
  split
  · rw [List.countP_append, List.countP_cons, countP_doubled hquote, List.countP_singleton, hquote]
    simp
  · rfl

theorem cost_psqlCsv (g : Grid) : (psqlCsv g).countP separates = cost separates g.lines.flatten := by
  have hline : ∀ row : List Text, row ≠ [] → (csvLine row).countP separates = cost separates row := by
    intro row hrow
    rw [csvLine, List.countP_append]
    have hfields : cost separates (row.map csvField) = cost separates row :=
      cost_map csvField row fun f _ => countP_csvField rfl f
    rw [← hfields]
    exact countP_intercalate (q := separates) (x := ',') rfl (by simpa using hrow)
  have hlines : ∀ rows : List (List Text), (∀ row ∈ rows, row ≠ []) →
      (rows.flatMap csvLine).countP separates = cost separates rows.flatten := by
    intro rows hne
    induction rows with
    | nil => rfl
    | cons row rows ih =>
      rw [List.flatMap_cons, List.countP_append, hline row (hne row List.mem_cons_self),
        ih fun r hr => hne r (List.mem_cons_of_mem row hr), List.flatten_cons, cost_append]
  exact hlines g.lines fun row hrow => g.line_ne_nil hrow

theorem countP_psqlCsv (hq : Unquoted q) (g : Grid) :
    (psqlCsv g).countP q = g.lines.flatten.flatten.countP q := by
  have hquote : q '"' = false := hq _ (by simp)
  have hcomma : q ',' = false := hq _ (by simp)
  have hnewline : q '\n' = false := hq _ (by simp)
  rw [psqlCsv_eq]
  induction g.lines with
  | nil => rfl
  | cons row rows ih =>
    rw [List.flatMap_cons, List.countP_append, ih, csvLine, List.countP_append, separated,
      countP_intercalate_of_not hcomma, countP_flatten_map _ _ fun f _ => countP_csvField hquote f,
      List.countP_singleton, hnewline, List.flatten_cons, List.flatten_append, List.countP_append]
    rfl

theorem parsePgCsvOutput_iff {output : Text} :
    parsePgCsvOutput output = (g.header, g.rows) ↔ parseCsvLines output = g.lines := by
  rw [parsePgCsvOutput, Grid.lines]
  cases parseCsvLines output with
  | nil =>
    constructor
    · intro h
      exact absurd (congrArg Prod.fst h).symm g.columns
    · intro h
      cases h
  | cons first rows => simp

/-- The grid that `psql` printed is read back exactly when no border of chunks is inside a
character, no line has empty cells only, and nothing but the last newline is trimmed. -/
theorem psql_reads_back (h : chunks.flatten = encode (psqlCsv g)) :
    parsePgCsvOutput (execInPod chunks) = (g.header, g.rows) ↔
      Whole chunks ∧ (∀ row ∈ g.lines, kept row = true) ∧ Unspaced (psqlCsv g) := by
  rw [parsePgCsvOutput_iff]
  constructor
  · intro hparse
    have hreplacement : Unquoted (· == replacement) := by
      intro c hc
      simp only [List.mem_cons, List.not_mem_nil, or_false] at hc
      rcases hc with rfl | rfl | rfl | rfl <;> rfl
    have hne : execInPod chunks ≠ [] := by
      intro hnil
      rw [hnil] at hparse
      cases hparse
    have hcount := parseCsvLines_countP hreplacement (execInPod chunks)
    rw [hparse, ← countP_psqlCsv hreplacement, execInPod, countP_trim replacement_not_space] at hcount
    rcases received_cases chunks h with ⟨hwhole, hreceived⟩ | ⟨-, hmore⟩
    · refine ⟨hwhole, fun row hrow => parseCsvLines_kept (execInPod chunks) row (hparse ▸ hrow), ?_⟩
      rw [execInPod, hreceived] at hparse hne
      refine unspaced_of_count (q := separates) ?_ (getLast?_psqlCsv g) hne ?_
      · intro c hc
        rw [separates, hc, Bool.true_or]
      · rw [cost_psqlCsv, ← hparse]
        exact parseCsvLines_cost rfl rfl _
    · exact absurd hcount (Nat.ne_of_lt hmore)
  · rintro ⟨hwhole, hkept, hunspaced⟩
    rcases received_cases chunks h with ⟨-, hreceived⟩ | ⟨hnot, -⟩
    · rw [execInPod, hreceived, trim_eq_dropLast hunspaced (getLast?_psqlCsv g)]
      exact parse_psqlCsv hkept
    · exact absurd hwhole hnot

end Postgres

/-! ## Both clients -/

/-- Result grids are read back exactly under these conditions and under no others. -/
theorem grids_read_back (g : Grid) (chunks : List (List UInt8)) :
    (chunks.flatten = encode (mysqlBatch g) →
      (parseMysqlBatchOutput (execInPod chunks) = (g.header, g.rows) ↔
        Whole chunks ∧ Plain g ∧ Unspaced (mysqlBatch g))) ∧ (chunks.flatten = encode (psqlCsv g) →
      (parsePgCsvOutput (execInPod chunks) = (g.header, g.rows) ↔
        Whole chunks ∧ (∀ row ∈ g.lines, kept row = true) ∧ Unspaced (psqlCsv g))) :=
  ⟨mysql_reads_back, psql_reads_back⟩

def oneCell (cell : Text) : Grid := ⟨[['a']], [[cell]], List.cons_ne_nil _ _, by simp⟩

/-- Cells with a tab, a comma, quotes and a character of two bytes. -/
def notes : Grid :=
  ⟨[['i', 'd'], ['n']], [[['1'], ['x', '\t', '"']], [['2'], ['é', ',']]], List.cons_ne_nil _ _, by simp⟩

def inTwo (s : Text) : List (List UInt8) := [encode (s.take 9), encode (s.drop 9)]

theorem flatten_inTwo (s : Text) : (inTwo s).flatten = encode s := by
  simp [inTwo, ← Utf8Chunks.encode_append]

theorem whole_inTwo (s : Text) : Whole (inTwo s) := by
  intro chunk hchunk
  simp only [inTwo, List.mem_cons, List.not_mem_nil, or_false] at hchunk
  rcases hchunk with rfl | rfl
  · exact ⟨_, rfl⟩
  · exact ⟨_, rfl⟩

theorem unspaced {printed : Text} {a b : Char} (ha : printed.dropLast.head? = some a)
    (hb : printed.dropLast.getLast? = some b) (hspace : isSpace a = false)
    (hspace' : isSpace b = false) : Unspaced printed where
  nonempty := fun hnil => by simp [hnil] at ha
  first := fun c hc => Option.some.inj (ha.symm.trans hc) ▸ hspace
  last := fun c hc => Option.some.inj (hb.symm.trans hc) ▸ hspace'

theorem grids_read_back_notes :
    parseMysqlBatchOutput (execInPod (inTwo (mysqlBatch notes))) = (notes.header, notes.rows) ∧
      parsePgCsvOutput (execInPod (inTwo (psqlCsv notes))) = (notes.header, notes.rows) := by
  constructor
  · refine ((grids_read_back notes _).1 (flatten_inTwo _)).mpr ⟨whole_inTwo _, ?_, ?_⟩
    · simp [Plain, notes]
    · exact unspaced rfl rfl rfl rfl
  · refine ((grids_read_back notes _).2 (flatten_inTwo _)).mpr ⟨whole_inTwo _, by decide, ?_⟩
    exact unspaced rfl rfl rfl rfl

/-- A blank at the end of the last cell is trimmed, and a row of one empty cell is not kept. -/
theorem cells_lost : ¬ (∀ g chunks, chunks.flatten = encode (mysqlBatch g) →
      parseMysqlBatchOutput (execInPod chunks) = (g.header, g.rows)) ∧
    ¬ ∀ g chunks, chunks.flatten = encode (psqlCsv g) →
      parsePgCsvOutput (execInPod chunks) = (g.header, g.rows) := by
  constructor
  · intro h
    have hread := h (oneCell ['b', ' ']) [encode (mysqlBatch (oneCell ['b', ' ']))] (List.append_nil _)
    have hlost : parseMysqlBatchOutput (execInPod [encode (mysqlBatch (oneCell ['b', ' ']))]) =
      ([['a']], [[['b']]]) := by decide +kernel
    rw [hlost] at hread
    exact absurd hread (by decide)
  · intro h
    have hread := h (oneCell []) [encode (psqlCsv (oneCell []))] (List.append_nil _)
    have hlost : parsePgCsvOutput (execInPod [encode (psqlCsv (oneCell []))]) = ([['a']], []) := by
      decide +kernel
    rw [hlost] at hread
    exact absurd hread (by decide)

end Insula.ResultGrids
