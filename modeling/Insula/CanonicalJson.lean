import Insula.LenientNumbers
import Mathlib.Data.Char
import Mathlib.Data.List.Sort

/-!
# Canonical JSON

`canonicalJson` of `deployments/service.ts` writes a value with the keys of every object in order.
The texts of numbers and the quoted texts of strings are those of `JSON.stringify`, and stand for
any that tell their arguments apart and keep to their alphabets.
-/

namespace Insula.CanonicalJson

abbrev Text := List Char

/-- A JSON value. The members of an object stand in the order of `Object.entries`. -/
inductive Json (Str Num : Type)
  | null
  | bool (b : Bool)
  | number (n : Num)
  | string (s : Str)
  | array (items : List (Json Str Num))
  | object (entries : List (Str × Json Str Num))

inductive Escaped : Text → Prop
  | nil : Escaped []
  | plain {c : Char} {rest : Text} : c ≠ '"' → c ≠ '\\' → Escaped rest → Escaped (c :: rest)
  | escape {c : Char} {rest : Text} : Escaped rest → Escaped ('\\' :: c :: rest)

def numeral (c : Char) : Bool := c.isDigit || ['-', '+', '.', 'e'].contains c

/-- `JSON.stringify` on numbers and strings. -/
structure Stringify (Str Num : Type) where
  number : Num → Text
  string : Str → Text
  number_injective : ∀ m n, number m = number n → m = n
  number_ne_nil : ∀ n, number n ≠ []
  number_plain : ∀ n, ∀ c ∈ number n, numeral c = true
  string_injective : ∀ s t, string s = string t → s = t
  string_quoted : ∀ s, ∃ body, Escaped body ∧ string s = '"' :: (body ++ ['"'])

section Canonical

variable {Str Num : Type} [LinearOrder Str] (stringify : Stringify Str Num)

def join (texts : List Text) : Text := [','].intercalate texts

def byKey {α : Type} (e e' : Str × α) : Bool := decide (e.1 ≤ e'.1)

def canonicalJson : Json Str Num → Text
  | .null => ['n', 'u', 'l', 'l']
  | .bool true => ['t', 'r', 'u', 'e']
  | .bool false => ['f', 'a', 'l', 's', 'e']
  | .number n => stringify.number n
  | .string s => stringify.string s
  | .array items => '[' :: (join (items.map canonicalJson) ++ [']'])
  | .object entries => '{' :: (join ((entries.mergeSort byKey).attach.map fun e =>
    stringify.string e.1.1 ++ ':' :: canonicalJson e.1.2) ++ ['}'])
termination_by j => sizeOf j
decreasing_by
  · decreasing_tactic
  · have hlt := List.sizeOf_lt_of_mem (List.mem_mergeSort.mp e.2)
    obtain ⟨⟨k, v⟩, hmem⟩ := e
    simp only [Prod.mk.sizeOf_spec, Json.object.sizeOf_spec] at hlt ⊢
    omega

theorem canonicalJson_object (entries : List (Str × Json Str Num)) :
    canonicalJson stringify (.object entries) = '{' :: (join ((entries.mergeSort byKey).map fun e =>
        stringify.string e.1 ++ ':' :: canonicalJson stringify e.2) ++ ['}']) := by
  rw [canonicalJson]
  exact congrArg (fun texts => '{' :: (join texts ++ ['}']))
    (List.attach_map_val (f := fun e : Str × Json Str Num =>
      stringify.string e.1 ++ ':' :: canonicalJson stringify e.2))

end Canonical

/-! ## Reading a text back -/

section Reading

/-- Nothing follows a value, or a comma or a closing bracket. -/
def Delimited (r : Text) : Prop := ∀ c ∈ r.head?, c = ',' ∨ c = ']' ∨ c = '}'

variable {r : Text}

theorem escaped_cancel {x y s : Text} (hx : Escaped x) (hy : Escaped y)
    (h : x ++ '"' :: r = y ++ '"' :: s) : x = y ∧ r = s := by
  induction hx generalizing y with
  | nil =>
    cases hy with
    | nil => exact ⟨rfl, (List.cons.inj h).2⟩
    | plain hquote _ _ => exact (hquote (List.cons.inj h).1.symm).elim
    | escape _ => exact absurd (List.cons.inj h).1 (by decide)
  | plain hquote hslash _ ih =>
    cases hy with
    | nil => exact (hquote (List.cons.inj h).1).elim
    | plain _ _ hrest =>
      obtain ⟨hc, htail⟩ := List.cons.inj h
      obtain ⟨hxy, hrs⟩ := ih hrest htail
      exact ⟨by rw [hc, hxy], hrs⟩
    | escape _ => exact (hslash (List.cons.inj h).1).elim
  | escape _ ih =>
    cases hy with
    | nil => exact absurd (List.cons.inj h).1 (by decide)
    | plain _ hslash _ => exact (hslash (List.cons.inj h).1.symm).elim
    | escape hrest =>
      obtain ⟨hc, htail⟩ := List.cons.inj (List.cons.inj h).2
      obtain ⟨hxy, hrs⟩ := ih hrest htail
      exact ⟨by rw [hc, hxy], hrs⟩

variable {Str Num : Type} (stringify : Stringify Str Num)

theorem string_cancel {s t : Str} {r' : Text}
    (h : stringify.string s ++ r = stringify.string t ++ r') : s = t ∧ r = r' := by
  obtain ⟨body, hbody, htext⟩ := stringify.string_quoted s
  obtain ⟨body', hbody', htext'⟩ := stringify.string_quoted t
  rw [htext, htext', List.cons_append, List.cons_append, List.append_assoc, List.append_assoc] at h
  obtain ⟨hsame, hrest⟩ := escaped_cancel hbody hbody' (List.cons.inj h).2
  exact ⟨stringify.string_injective s t (by rw [htext, htext', hsame]), hrest⟩

theorem number_cancel {m n : Num} {s : Text} (hr : Delimited r) (hs : Delimited s)
    (h : stringify.number m ++ r = stringify.number n ++ s) : m = n ∧ r = s := by
  have hends : ∀ t, Delimited t → ∀ c ∈ t.head?, numeral c = false := by
    intro t ht c hc
    rcases ht c hc with rfl | rfl | rfl <;> decide
  have hm := LenientNumbers.takeWhile_of_ends (stringify.number_plain m) (hends r hr)
  have hn := LenientNumbers.takeWhile_of_ends (stringify.number_plain n) (hends s hs)
  rw [h] at hm
  exact ⟨stringify.number_injective m n (hm.1.symm.trans hn.1), hm.2.symm.trans hn.2⟩

/-! ### Lists of texts -/

theorem join_cons (t : Text) (ts : List Text) : join (t :: ts) = t ++ ts.flatMap (',' :: ·) := by
  induction ts generalizing t with
  | nil => simp [join, List.intercalate]
  | cons u us ih =>
    have hnext := ih u
    unfold join at *
    rw [List.intercalate_cons_cons, hnext, List.flatMap_cons]
    simp

variable {α : Type} {text : α → Text} {R : α → α → Prop}

/-- The text of a member tells where it ends and which member it is. -/
def ReadsBack (text : α → Text) (R : α → α → Prop) (x : α) : Prop :=
  ∀ y r s, text x ++ r = text y ++ s → Delimited r → Delimited s → R x y ∧ r = s

/-- The text begins with a character that closes nothing. -/
def Begins (t : Text) : Prop := ∃ c rest, t = c :: rest ∧ c ≠ ',' ∧ c ≠ ']' ∧ c ≠ '}'

theorem rest_cancel {xs ys : List α} {e : Char} (he : e = ']' ∨ e = '}') {r s : Text}
    (hxs : ∀ x ∈ xs, ReadsBack text R x)
    (h : (xs.map text).flatMap (',' :: ·) ++ e :: r = (ys.map text).flatMap (',' :: ·) ++ e :: s) :
    List.Forall₂ R xs ys ∧ r = s := by
  have hcomma : e ≠ ',' := by rcases he with rfl | rfl <;> decide
  have hend : ∀ (ts : List Text) t, Delimited (ts.flatMap (',' :: ·) ++ e :: t) := by
    intro ts t c hc
    cases ts with
    | nil =>
      obtain rfl := Option.some.inj hc
      exact .inr he
    | cons u us => exact .inl (Option.some.inj hc).symm
  induction xs generalizing ys with
  | nil =>
    cases ys with
    | nil => exact ⟨.nil, (List.cons.inj h).2⟩
    | cons y ys => exact (hcomma (List.cons.inj h).1).elim
  | cons x xs ih =>
    cases ys with
    | nil => exact (hcomma (List.cons.inj h).1.symm).elim
    | cons y ys =>
      rw [List.map_cons, List.map_cons, List.flatMap_cons, List.flatMap_cons, List.append_assoc,
        List.append_assoc, List.cons_append, List.cons_append] at h
      obtain ⟨hxy, htail⟩ := hxs x List.mem_cons_self y _ _ (List.cons.inj h).2 (hend _ _) (hend _ _)
      obtain ⟨hrest, hrs⟩ := ih (fun z hz => hxs z (List.mem_cons_of_mem _ hz)) htail
      exact ⟨.cons hxy hrest, hrs⟩

theorem join_cancel {xs ys : List α} {e : Char} (he : e = ']' ∨ e = '}') {r s : Text}
    (hbegins : ∀ x, Begins (text x)) (hxs : ∀ x ∈ xs, ReadsBack text R x)
    (h : join (xs.map text) ++ e :: r = join (ys.map text) ++ e :: s) :
    List.Forall₂ R xs ys ∧ r = s := by
  have hapart : ∀ (t : Text) x (us : List Text) (t' : Text),
    e :: t ≠ text x ++ us.flatMap (',' :: ·) ++ t' := by
    intro t x us t' heq
    obtain ⟨c, rest, htext, -, hbracket, hbrace⟩ := hbegins x
    rw [htext] at heq
    have hc := (List.cons.inj heq).1
    rcases he with rfl | rfl
    · exact hbracket hc.symm
    · exact hbrace hc.symm
  cases xs with
  | nil =>
    cases ys with
    | nil => exact ⟨.nil, (List.cons.inj h).2⟩
    | cons y ys =>
      rw [List.map_cons, join_cons] at h
      exact (hapart r y _ _ h).elim
  | cons x xs =>
    cases ys with
    | nil =>
      rw [List.map_cons, join_cons] at h
      exact (hapart s x _ _ h.symm).elim
    | cons y ys =>
      have hcommas : (((x :: xs).map text).flatMap (',' :: ·)) ++ e :: r =
          (((y :: ys).map text).flatMap (',' :: ·)) ++ e :: s := by
        rw [List.map_cons, List.map_cons, join_cons, join_cons] at h
        rw [List.map_cons, List.map_cons, List.flatMap_cons, List.flatMap_cons, List.cons_append,
          List.cons_append, h, List.cons_append, List.cons_append]
      exact rest_cancel he hxs hcommas

end Reading

/-! ## Equality up to the order of keys -/

section Same

variable {Str Num : Type} {es fs : List (Str × Json Str Num)}

inductive Distinct : Json Str Num → Prop
  | null : Distinct .null
  | bool (b : Bool) : Distinct (.bool b)
  | number (n : Num) : Distinct (.number n)
  | string (s : Str) : Distinct (.string s)
  | array {items : List (Json Str Num)} : (∀ x ∈ items, Distinct x) → Distinct (.array items)
  | object {entries : List (Str × Json Str Num)} : (entries.map Prod.fst).Nodup →
      (∀ e ∈ entries, Distinct e.2) → Distinct (.object entries)

inductive Same : Json Str Num → Json Str Num → Prop
  | null : Same .null .null
  | bool (b : Bool) : Same (.bool b) (.bool b)
  | number (n : Num) : Same (.number n) (.number n)
  | string (s : Str) : Same (.string s) (.string s)
  | array {xs ys : List (Json Str Num)} : xs.length = ys.length →
      (∀ (i : ℕ) x y, xs[i]? = some x → ys[i]? = some y → Same x y) → Same (.array xs) (.array ys)
  | object {es fs : List (Str × Json Str Num)} : (∀ k, k ∈ es.map Prod.fst ↔ k ∈ fs.map Prod.fst) →
      (∀ k v w, (k, v) ∈ es → (k, w) ∈ fs → Same v w) → Same (.object es) (.object fs)

theorem same_array {xs ys : List (Json Str Num)} (h : List.Forall₂ Same xs ys) :
    Same (.array xs) (.array ys) := by
  refine .array h.length_eq fun i x y hx hy => ?_
  obtain ⟨hi, rfl⟩ := List.getElem?_eq_some_iff.mp hx
  obtain ⟨hj, rfl⟩ := List.getElem?_eq_some_iff.mp hy
  exact h.get hi hj

theorem keys_eq (h : List.Forall₂ (fun e f => e.1 = f.1 ∧ Same e.2 f.2) es fs) :
    es.map Prod.fst = fs.map Prod.fst := by
  induction h with
  | nil => rfl
  | cons he _ ih => rw [List.map_cons, List.map_cons, he.1, ih]

theorem exists_same (h : List.Forall₂ (fun e f => e.1 = f.1 ∧ Same e.2 f.2) es fs)
    {e : Str × Json Str Num} (he : e ∈ es) : ∃ f ∈ fs, e.1 = f.1 ∧ Same e.2 f.2 := by
  induction h with
  | nil => cases he
  | cons hef _ ih =>
    rcases List.mem_cons.mp he with rfl | he
    · exact ⟨_, List.mem_cons_self, hef⟩
    · obtain ⟨f, hf, hsame⟩ := ih he
      exact ⟨f, List.mem_cons_of_mem _ hf, hsame⟩

theorem same_object {es' fs' : List (Str × Json Str Num)} (hes : es'.Perm es) (hfs : fs'.Perm fs)
    (hnodup : (es.map Prod.fst).Nodup)
    (h : List.Forall₂ (fun e f => e.1 = f.1 ∧ Same e.2 f.2) es' fs') :
    Same (.object es) (.object fs) := by
  have hnodup' : (fs.map Prod.fst).Nodup := by
    rw [← (hfs.map Prod.fst).nodup_iff, ← keys_eq h, (hes.map Prod.fst).nodup_iff]
    exact hnodup
  refine .object (fun k => ?_) fun k v w hv hw => ?_
  · rw [← (hes.map Prod.fst).mem_iff, keys_eq h, (hfs.map Prod.fst).mem_iff]
  · obtain ⟨f, hf, hk, hsame⟩ := exists_same h (hes.mem_iff.mpr hv)
    have heq : f = (k, w) := List.inj_on_of_nodup_map hnodup' (hfs.mem_iff.mp hf) hw hk.symm
    rwa [heq] at hsame

end Same

/-! ## Kinds of values -/

inductive Kind
  | null
  | bool (b : Bool)
  | number
  | string
  | array
  | object

def kindOf (c : Char) : Option Kind :=
  if numeral c then some .number
  else if c = 'n' then some .null
  else if c = 't' then some (.bool true)
  else if c = 'f' then some (.bool false)
  else if c = '"' then some .string
  else if c = '[' then some .array
  else if c = '{' then some .object
  else none

def Json.kind {Str Num : Type} : Json Str Num → Kind
  | .null => .null
  | .bool b => .bool b
  | .number _ => .number
  | .string _ => .string
  | .array _ => .array
  | .object _ => .object

section Injective

variable {Str Num : Type} [LinearOrder Str] (stringify : Stringify Str Num) {a : Json Str Num}

theorem exists_lead (j : Json Str Num) :
    ∃ c rest, canonicalJson stringify j = c :: rest ∧ kindOf c = some j.kind := by
  cases j with
  | null => exact ⟨_, _, by rw [canonicalJson], rfl⟩
  | bool b =>
    cases b with
    | false => exact ⟨_, _, by rw [canonicalJson], rfl⟩
    | true => exact ⟨_, _, by rw [canonicalJson], rfl⟩
  | number n =>
    obtain ⟨c, rest, htext⟩ := List.exists_cons_of_ne_nil (stringify.number_ne_nil n)
    have hc : numeral c = true := stringify.number_plain n c (by rw [htext]; exact List.mem_cons_self)
    exact ⟨c, rest, by rw [canonicalJson, htext], if_pos hc⟩
  | string s =>
    obtain ⟨body, -, htext⟩ := stringify.string_quoted s
    exact ⟨'"', body ++ ['"'], by rw [canonicalJson, htext], rfl⟩
  | array items => exact ⟨_, _, by rw [canonicalJson], rfl⟩
  | object entries => exact ⟨_, _, by rw [canonicalJson_object], rfl⟩

theorem begins_canonicalJson (j : Json Str Num) : Begins (canonicalJson stringify j) := by
  obtain ⟨c, rest, htext, hkind⟩ := exists_lead stringify j
  refine ⟨c, rest, htext, ?_, ?_, ?_⟩
  all_goals
    rintro rfl
    cases hkind

theorem kind_eq {b : Json Str Num} {r s : Text}
    (h : canonicalJson stringify a ++ r = canonicalJson stringify b ++ s) : b.kind = a.kind := by
  obtain ⟨c, rest, htext, hkind⟩ := exists_lead stringify a
  obtain ⟨c', rest', htext', hkind'⟩ := exists_lead stringify b
  rw [htext, htext'] at h
  rw [(List.cons.inj h).1, hkind'] at hkind
  exact Option.some.inj hkind

def memberText (e : Str × Json Str Num) : Text :=
  stringify.string e.1 ++ ':' :: canonicalJson stringify e.2

theorem begins_memberText (e : Str × Json Str Num) : Begins (memberText stringify e) := by
  obtain ⟨body, -, htext⟩ := stringify.string_quoted e.1
  exact ⟨'"', _, by rw [memberText, htext]; rfl, by decide, by decide, by decide⟩

theorem readsBack_member {e : Str × Json Str Num}
    (h : ReadsBack (canonicalJson stringify) Same e.2) :
    ReadsBack (memberText stringify) (fun e f => e.1 = f.1 ∧ Same e.2 f.2) e := by
  intro f r s heq hr hs
  rw [memberText, memberText, List.append_assoc, List.append_assoc] at heq
  obtain ⟨hkey, hrest⟩ := string_cancel stringify heq
  obtain ⟨hsame, hrs⟩ := h f.2 r s (List.cons.inj hrest).2 hr hs
  exact ⟨⟨hkey, hsame⟩, hrs⟩

/-- The text of a value tells where it ends and which value it is, up to the order of keys. -/
theorem readsBack (ha : Distinct a) : ReadsBack (canonicalJson stringify) Same a := by
  induction ha with
  | null =>
    intro b r s h hr hs
    cases b with
    | null =>
      rw [canonicalJson] at h
      exact ⟨.null, List.append_cancel_left h⟩
    | _ => cases kind_eq stringify h
  | bool b₁ =>
    intro b r s h hr hs
    cases b with
    | bool b₂ =>
      obtain rfl : b₂ = b₁ := Kind.bool.inj (kind_eq stringify h)
      exact ⟨.bool b₂, List.append_cancel_left h⟩
    | _ => cases kind_eq stringify h
  | number n =>
    intro b r s h hr hs
    cases b with
    | number n' =>
      rw [canonicalJson, canonicalJson] at h
      obtain ⟨rfl, hrs⟩ := number_cancel stringify hr hs h
      exact ⟨.number n, hrs⟩
    | _ => cases kind_eq stringify h
  | string t =>
    intro b r s h hr hs
    cases b with
    | string t' =>
      rw [canonicalJson, canonicalJson] at h
      obtain ⟨rfl, hrs⟩ := string_cancel stringify h
      exact ⟨.string t, hrs⟩
    | _ => cases kind_eq stringify h
  | array _ ih =>
    intro b r s h hr hs
    cases b with
    | array ys =>
      rw [canonicalJson, canonicalJson, List.cons_append, List.cons_append, List.append_assoc,
        List.append_assoc] at h
      obtain ⟨hsame, hrs⟩ := join_cancel (.inl rfl) (begins_canonicalJson stringify) ih
        (List.cons.inj h).2
      exact ⟨same_array hsame, hrs⟩
    | _ => cases kind_eq stringify h
  | object hnodup _ ih =>
    intro b r s h hr hs
    cases b with
    | object fs =>
      rw [canonicalJson_object, canonicalJson_object, List.cons_append, List.cons_append,
        List.append_assoc, List.append_assoc] at h
      have hmembers : ∀ e ∈ List.mergeSort _ byKey, ReadsBack (memberText stringify) _ e := fun e he =>
        readsBack_member stringify (ih e (List.mem_mergeSort.mp he))
      obtain ⟨hsame, hrs⟩ := join_cancel (.inr rfl) (begins_memberText stringify) hmembers
        (List.cons.inj h).2
      exact ⟨same_object (List.mergeSort_perm _ _) (List.mergeSort_perm _ _) hnodup hsame, hrs⟩
    | _ => cases kind_eq stringify h

/-! ### The other direction -/

theorem byKey_iff {β : Type} {e f : Str × β} : byKey e f = true ↔ e.1 ≤ f.1 := decide_eq_true_iff

/-- Members with the same keys and texts come out in the same order. -/
theorem mergeSort_eq {es fs : List (Str × Text)} (hperm : es.Perm fs)
    (hnodup : (es.map Prod.fst).Nodup) :
    es.mergeSort byKey = fs.mergeSort byKey := by
  have hsorted : ∀ l : List (Str × Text), (l.mergeSort byKey).Pairwise fun e f => byKey e f = true := by
    intro l
    apply List.pairwise_mergeSort
    · intro a b c hab hbc
      rw [byKey_iff] at *
      exact le_trans hab hbc
    · intro a b
      rw [Bool.or_eq_true, byKey_iff, byKey_iff]
      exact le_total a.1 b.1
  have hsame : (es.mergeSort byKey).Perm (fs.mergeSort byKey) :=
    (List.mergeSort_perm es _).trans (hperm.trans (List.mergeSort_perm fs _).symm)
  refine hsame.eq_of_pairwise (fun e f he hf hle hge => ?_) (hsorted es) (hsorted fs)
  rw [byKey_iff] at hle hge
  exact List.inj_on_of_nodup_map hnodup (List.mem_mergeSort.mp he)
    (hperm.mem_iff.mpr (List.mem_mergeSort.mp hf)) (le_antisymm hle hge)

def written (e : Str × Json Str Num) : Str × Text := (e.1, canonicalJson stringify e.2)

theorem memberText_sorted (es : List (Str × Json Str Num)) :
    (es.mergeSort byKey).map (memberText stringify) =
      ((es.map (written stringify)).mergeSort byKey).map fun e =>
      stringify.string e.1 ++ ':' :: e.2 := by
  have hmap : (es.mergeSort byKey).map (written stringify) =
    (es.map (written stringify)).mergeSort byKey :=
    List.map_mergeSort fun _ _ _ _ => rfl
  rw [← hmap, List.map_map]
  rfl

theorem keys_written (es : List (Str × Json Str Num)) :
    (es.map (written stringify)).map Prod.fst = es.map Prod.fst := by
  rw [List.map_map]
  rfl

theorem written_subset {es fs : List (Str × Json Str Num)}
    (hkeys : ∀ k, k ∈ es.map Prod.fst ↔ k ∈ fs.map Prod.fst)
    (h : ∀ k v w, (k, v) ∈ es → (k, w) ∈ fs → canonicalJson stringify v = canonicalJson stringify w) :
    ∀ e ∈ es.map (written stringify), e ∈ fs.map (written stringify) := by
  intro e he
  obtain ⟨⟨k, v⟩, hv, rfl⟩ := List.mem_map.mp he
  obtain ⟨⟨_, w⟩, hw, rfl⟩ := List.mem_map.mp ((hkeys k).mp (List.mem_map.mpr ⟨(k, v), hv, rfl⟩))
  exact List.mem_map.mpr ⟨_, hw, congrArg (Prod.mk _) (h _ v w hv hw).symm⟩

theorem canonicalJson_eq_of_same {b : Json Str Num} (ha : Distinct a) (hb : Distinct b)
    (h : Same a b) : canonicalJson stringify a = canonicalJson stringify b := by
  induction h with
  | null => rfl
  | bool b => rfl
  | number n => rfl
  | string s => rfl
  | array hlength _ ih =>
    cases ha with
    | array hxs =>
      cases hb with
      | array hys =>
        rw [canonicalJson, canonicalJson]
        congr 3
        refine List.ext_getElem (by rw [List.length_map, List.length_map, hlength]) fun i hi hj => ?_
        rw [List.getElem_map, List.getElem_map]
        exact ih i _ _ (List.getElem?_eq_getElem _) (List.getElem?_eq_getElem _)
          (hxs _ (List.getElem_mem _)) (hys _ (List.getElem_mem _))
  | object hkeys _ ih =>
    cases ha with
    | object hes hesd =>
      cases hb with
      | object hfs hfsd =>
        have htexts := fun k v w hv hw => ih k v w hv hw (hesd _ hv) (hfsd _ hw)
        have hes' := hes
        have hfs' := hfs
        rw [← keys_written stringify] at hes' hfs'
        have hperm := (List.perm_ext_iff_of_nodup hes'.of_map hfs'.of_map).mpr fun e =>
          ⟨written_subset stringify hkeys htexts e, written_subset stringify (fun k => (hkeys k).symm)
            (fun k v w hv hw => (htexts k w v hw hv).symm) e⟩
        have hsorted := mergeSort_eq hperm hes'
        rw [canonicalJson_object, canonicalJson_object]
        congr 3
        exact (memberText_sorted stringify _).trans
          ((congrArg _ hsorted).trans (memberText_sorted stringify _).symm)

/-- Two values have the same canonical text exactly when they are equal up to the order of keys. -/
theorem canonicalJson_eq_iff (a b : {j : Json Str Num // Distinct j}) :
    canonicalJson stringify a.1 = canonicalJson stringify b.1 ↔ Same a.1 b.1 := by
  constructor
  · intro h
    have hends : Delimited [] := fun c hc => nomatch hc
    exact (readsBack stringify a.2 b.1 [] [] (by rw [h]) hends hends).1
  · exact canonicalJson_eq_of_same stringify a.2 b.2

end Injective

/-! ## Whole numbers and printable strings -/

def escapeChar (c : Char) : Text := if c = '"' ∨ c = '\\' then ['\\', c] else [c]

theorem escaped_flatMap (s : Text) : Escaped (s.flatMap escapeChar) := by
  induction s with
  | nil => exact .nil
  | cons c s ih =>
    rw [List.flatMap_cons, escapeChar]
    by_cases hc : c = '"' ∨ c = '\\'
    · rw [if_pos hc]
      exact .escape ih
    · rw [if_neg hc]
      exact .plain (fun h => hc (.inl h)) (fun h => hc (.inr h)) ih

theorem flatMap_escapeChar_injective {s t : Text} (h : s.flatMap escapeChar = t.flatMap escapeChar) :
    s = t := by
  have hne : ∀ c, escapeChar c ≠ [] := by
    intro c
    unfold escapeChar
    split <;> simp
  induction s generalizing t with
  | nil =>
    cases t with
    | nil => rfl
    | cons d t => exact absurd (List.append_eq_nil_iff.mp h.symm).1 (hne d)
  | cons c s ih =>
    cases t with
    | nil => exact absurd (List.append_eq_nil_iff.mp h).1 (hne c)
    | cons d t =>
      rw [List.flatMap_cons, List.flatMap_cons, escapeChar, escapeChar] at h
      by_cases hc : c = '"' ∨ c = '\\'
      · by_cases hd : d = '"' ∨ d = '\\'
        · rw [if_pos hc, if_pos hd] at h
          obtain ⟨-, hrest⟩ := List.cons.inj h
          rw [(List.cons.inj hrest).1, ih (List.cons.inj hrest).2]
        · rw [if_pos hc, if_neg hd] at h
          exact (hd (.inr (List.cons.inj h).1.symm)).elim
      · by_cases hd : d = '"' ∨ d = '\\'
        · rw [if_neg hc, if_pos hd] at h
          exact (hc (.inr (List.cons.inj h).1)).elim
        · rw [if_neg hc, if_neg hd] at h
          rw [(List.cons.inj h).1, ih (List.cons.inj h).2]

/-- `JSON.stringify` on whole numbers and on strings without control characters. -/
def plain : Stringify Text ℕ where
  number := Nat.toDigits 10
  string s := '"' :: (s.flatMap escapeChar ++ ['"'])
  number_injective m n h := by
    rw [← Nat.ofDigitChars_ten_toDigits (n := m), h, Nat.ofDigitChars_ten_toDigits]
  number_ne_nil _ := Nat.toDigits_ne_nil
  number_plain n c hc := by rw [numeral, Versions.isDigit_of_mem hc, Bool.true_or]
  string_injective s t h :=
    flatMap_escapeChar_injective (List.append_cancel_right (List.cons.inj h).2)
  string_quoted s := ⟨s.flatMap escapeChar, escaped_flatMap s, rfl⟩

/-- `{"a": 1, "b": [true]}`, with its keys in either order. -/
def sample (swapped : Bool) : Json Text ℕ :=
  .object (if swapped then [(['b'], .array [.bool true]), (['a'], .number 1)]
    else [(['a'], .number 1), (['b'], .array [.bool true])])

theorem distinct_sample (swapped : Bool) : Distinct (sample swapped) := by
  have harray : Distinct (.array [.bool true] : Json Text ℕ) :=
    .array fun x hx => by rw [List.mem_singleton.mp hx]; exact .bool true
  cases swapped with
  | false =>
    refine .object (by simp) fun e he => ?_
    rcases List.mem_cons.mp he with rfl | he
    · exact .number 1
    · rw [List.mem_singleton.mp he]
      exact harray
  | true =>
    refine .object (by simp) fun e he => ?_
    rcases List.mem_cons.mp he with rfl | he
    · exact harray
    · rw [List.mem_singleton.mp he]
      exact .number 1

theorem same_sample : Same (sample true) (sample false) := by
  have harray : Same (.array [.bool true] : Json Text ℕ) (.array [.bool true]) :=
    same_array (.cons (.bool true) .nil)
  refine .object (fun k => by simp [or_comm]) fun k v w hv hw => ?_
  simp only [if_true, if_false, Bool.false_eq_true, List.mem_cons, Prod.mk.injEq, List.not_mem_nil,
    or_false] at hv hw
  rcases hv with ⟨rfl, rfl⟩ | ⟨rfl, rfl⟩
  · rcases hw with ⟨hk, -⟩ | ⟨-, rfl⟩
    · exact absurd hk (by decide)
    · exact harray
  · rcases hw with ⟨-, rfl⟩ | ⟨hk, -⟩
    · exact .number 1
    · exact absurd hk (by decide)

theorem canonicalJson_sample :
    canonicalJson plain (sample true) = canonicalJson plain (sample false) :=
  (canonicalJson_eq_iff plain ⟨sample true, distinct_sample true⟩
    ⟨sample false, distinct_sample false⟩).mpr
    same_sample

end Insula.CanonicalJson
