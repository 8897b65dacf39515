import Insula.Base64Url
import Insula.CursorPages
import Insula.JsonText
import Insula.Quantities
import Insula.SqlLogic
import Insula.Utf8Chunks

/-!
# Sorted lists and their cursors

`shared/list-sort.ts` and the cursors of `shared/pagination.ts`: the text of a cursor, the condition
for the rows behind it, and the pages of a list. Of the database it is taken as given how it orders
values and texts, and that a value is read back from its text.
-/

namespace Insula.ListCursors

open JsonText (Value Text parse stringify member)

structure ApiError where
  code : String
  message : Text
  status : ℕ
  remediation : Option String := none

/-! ## The text of a cursor -/

structure CursorData where
  resource : Text
  sort : Text
  id : Text

def resourceName : Text := ['r', 'e', 's', 'o', 'u', 'r', 'c', 'e']

def sortName : Text := ['s', 'o', 'r', 't']

def idName : Text := ['i', 'd']

def encodeCursor (data : CursorData) : Text :=
  Base64Url.encode (Utf8Chunks.encode (stringify
    [(resourceName, some data.resource), (sortName, some data.sort), (idName, some data.id)]))

def truthy : Value → Bool
  | .null => false
  | .bool b => b
  | .number numeral => (numeral.takeWhile fun c => c != 'e' && c != 'E').any fun c => c.isDigit && c != '0'
  | .string s => s != []
  | .array _ => true
  | .object _ => true

def property (name : Text) : Value → Option Value
  | .object members => member name members
  | _ => none

structure Decoded where
  resource : Value
  sort : Value
  id : Value

def expiredCursor : ApiError where
  code := "INVALID_CURSOR"
  message := "Pagination cursor is invalid or expired".toList
  status := 400
  remediation := some "Restart pagination from beginning"

def decodeCursor (cursor : Text) : Except ApiError Decoded :=
  match parse (Utf8Chunks.decode (Base64Url.decode cursor)) with
  | none => .error expiredCursor
  | some decoded =>
    match property resourceName decoded, property sortName decoded, property idName decoded with
    | some resource, some sort, some id =>
      if truthy resource && truthy sort &&
        truthy id then .ok ⟨resource, sort, id⟩ else .error expiredCursor
    | _, _, _ => .error expiredCursor

theorem property_first (resource sort id : Value) :
    property resourceName (.object [(resourceName, resource), (sortName, sort), (idName, id)]) =
      some resource := rfl

theorem property_second (resource sort id : Value) :
    property sortName (.object [(resourceName, resource), (sortName, sort), (idName, id)]) =
    some sort := rfl

theorem property_third (resource sort id : Value) :
    property idName (.object [(resourceName, resource), (sortName, sort), (idName, id)]) =
    some id := rfl

/-- What a cursor was made from is read back, unless a part of it is empty. -/
theorem decodeCursor_encodeCursor {data : CursorData} (hresource : data.resource ≠ [])
    (hsort : data.sort ≠ []) (hid : data.id ≠ []) : decodeCursor (encodeCursor data) =
      .ok ⟨.string data.resource, .string data.sort, .string data.id⟩ := by
  have hparse := @JsonText.parse_stringify
    [(resourceName, some data.resource), (sortName, some data.sort), (idName, some data.id)] (by simp)
  have htruthy : ∀ t : Text, t ≠ [] → truthy (.string t) = true := by
    intro t ht
    exact bne_iff_ne.mpr ht
  rw [decodeCursor, encodeCursor, Base64Url.decode_encode, Utf8Chunks.decode_encode_self, hparse]
  simp only [JsonText.memberValues, List.map_cons, List.map_nil, JsonText.fieldValue, property_first,
    property_second, property_third, htruthy _ hresource, htruthy _ hsort, htruthy _ hid, Bool.and_self,
    if_true]

/-! ## Which sort -/

inductive SortKind
  | text
  | numeric
  | timestamp
  | timestamptz
  | boolean

inductive Direction
  | asc
  | desc

structure Postgres where
  Datum : SortKind → Type
  Ordinal : SortKind → Type
  Collated : Type
  order : ∀ k, LinearOrder (Ordinal k)
  collation : LinearOrder Collated
  ordinal : ∀ {k}, Datum k → Ordinal k
  collate : Text → Collated
  collate_injective : Function.Injective collate
  /-- `::text`. -/
  toText : ∀ {k}, Datum k → Text
  cast : ∀ k, Text → Option (Datum k)
  cast_toText : ∀ {k} (d : Datum k), ∃ d', cast k (toText d) = some d' ∧ ordinal d' = ordinal d
  /-- `lower((…)::text)`. -/
  lower : Datum .text → Datum .text

instance (pg : Postgres) (k : SortKind) : LinearOrder (pg.Ordinal k) := pg.order k

instance (pg : Postgres) : LinearOrder pg.Collated := pg.collation

structure SortField (pg : Postgres) (Row : Type) where
  kind : SortKind
  expr : Row → Option (pg.Datum kind)

abbrev SortFields (pg : Postgres) (Row : Type) := List (Text × SortField pg Row)

variable {pg : Postgres} {Row : Type}

def SortFields.lookup (fields : SortFields pg Row) (field : Text) : Option (SortField pg Row) :=
  (fields.find? fun f => f.1 == field).map Prod.snd

structure ListSort (fields : SortFields pg Row) where
  field : Text
  direction : Direction
  sortField : SortField pg Row
  allowed : fields.lookup field = some sortField

def Direction.name : Direction → Text
  | .asc => ['a', 's', 'c']
  | .desc => ['d', 'e', 's', 'c']

/-! ## Cursors of a sorted list -/

def keyOf : (f : SortField pg Row) → Row → Option (pg.Datum f.kind)
  | ⟨.text, expr⟩, row => (expr row).map pg.lower
  | ⟨_, expr⟩, row => expr row

def listSortKeySelect (f : SortField pg Row) (row : Row) : Option Text := (keyOf f row).map pg.toText

def keyName : Text := ['f']

def directionName : Text := ['d']

def valueName : Text := ['v']

def encodeListCursor {fields : SortFields pg Row} (resource : Text) (sort : ListSort fields) (id : Text)
    (sortKey : Option Text) : Text :=
  encodeCursor
    { resource
      sort := stringify
        [(keyName, some sort.field), (directionName, some sort.direction.name), (valueName, sortKey)]
      id }

def units (t : Text) : ℕ := (t.map fun c => if c.toNat < 0x10000 then 1 else 2).sum

/-- Some digits, one at least and `most` at most. -/
def digits (most : ℕ) (t : Text) : Bool := t != [] && t.all Char.isDigit && t.length ≤ most

/-- What follows a part that reads as the mask, in which a `0` stands for any digit. -/
def behindMask : Text → Text → Option Text
  | [], t => some t
  | m :: ms, c :: t => if (if m = '0' then c.isDigit else c == m) then behindMask ms t else none
  | _ :: _, [] => none

def stampMask : Text := "0000-00-00 00:00:00".toList

def fraction (t : Text) : Bool := t == [] || t.head? == some '.' && digits 6 t.tail

def offset (t : Text) : Bool :=
  (t.head? == some '+' || t.head? == some '-') &&
    (behindMask ['0', '0'] t.tail == some [] || behindMask ['0', '0', ':', '0', '0'] t.tail == some [])

def valueShape : SortKind → Text → Bool
  | .text, t => units t ≤ 2048
  | .numeric, t =>
    let t := if t.head? = some '-' then t.tail else t
    let rest := t.dropWhile Char.isDigit
    digits 30 (t.takeWhile Char.isDigit) &&
      (rest == [] || rest.head? == some '.' && digits 30 rest.tail)
  | .timestamp, t => (behindMask stampMask t).any fraction
  | .timestamptz, t => (behindMask stampMask t).any fun rest =>
    fraction (rest.takeWhile fun c => c != '+' && c != '-') &&
      offset (rest.dropWhile fun c => c != '+' && c != '-')
  | .boolean, t => t == ['t', 'r', 'u', 'e'] || t == ['f', 'a', 'l', 's', 'e']

def cursorId (t : Text) : Bool :=
  t != [] && t.length ≤ 64 && t.all fun c => c.isAlphanum || c == '_' || c == '-'

def invalidCursor : ApiError where
  code := "INVALID_CURSOR"
  message := "Pagination cursor is invalid or was made for a different sort".toList
  status := 400
  remediation := some "Restart pagination from the beginning"

/-- The rows behind a key, which is NULL or a text to cast, and behind an id. -/
structure Condition where
  v : Option Text
  id : Text

mutual

def stringOf : Value → Text
  | .null => ['n', 'u', 'l', 'l']
  | .bool true => ['t', 'r', 'u', 'e']
  | .bool false => ['f', 'a', 'l', 's', 'e']
  | .number numeral => numeral
  | .string s => s
  | .array items => stringsOf items
  | .object _ => "[object Object]".toList

/-- `join(',')`, to which null is nothing. -/
def stringsOf : List Value → Text
  | [] => []
  | [.null] => []
  | [v] => stringOf v
  | .null :: rest => ',' :: stringsOf rest
  | v :: rest => stringOf v ++ ',' :: stringsOf rest

end

def keyIn (key : Value) : Option (Text × Option Value × Option Text) :=
  match property keyName key, property valueName key with
  | some (.string f), some .null => some (f, property directionName key, none)
  | some (.string f), some (.string v) => some (f, property directionName key, some v)
  | _, _ => none

def isString (v : Value) (t : Text) : Bool :=
  match v with
  | .string s => s == t
  | _ => false

/-- The checks of `listCursorCondition` on what is in a cursor. -/
def conditionIn {fields : SortFields pg Row} (resource : Text) (sort : ListSort fields)
    (decoded : Decoded) :
    Except ApiError Condition :=
  match (parse (stringOf decoded.sort)).bind keyIn with
  | none => .error invalidCursor
  | some (f, d, v) =>
    if !isString decoded.resource resource || f != sort.field ||
        !d.any (isString · sort.direction.name) then .error invalidCursor
    else
      match decoded.id with
      | .string id =>
        if cursorId id && v.all (valueShape sort.sortField.kind) then .ok
          ⟨v, id⟩ else .error invalidCursor
      | _ => .error invalidCursor

def listCursorCondition {fields : SortFields pg Row} (cursor : Option Text) (resource : Text)
    (sort : ListSort fields) : Except ApiError (Option Condition) :=
  match cursor with
  | none => .ok none
  | some [] => .ok none
  | some cursor => (decodeCursor cursor).bind fun decoded => (conditionIn resource sort decoded).map some

/-! ## Pages -/

/-- `>`, or `<` where the list descends. -/
def After {α : Type} [LT α] : Direction → α → α → Prop
  | .asc, a, b => b < a
  | .desc, a, b => a < b

instance {α : Type} [LinearOrder α] (direction : Direction) (a b : α) :
    Decidable (After direction a b) :=
  match direction with
  | .asc => inferInstanceAs (Decidable (b < a))
  | .desc => inferInstanceAs (Decidable (a < b))

section Pages

variable {fields : SortFields pg Row} (resource : Text) (sort : ListSort fields) (id : Row → Text)

def listOrderBy (r s : Row) : Bool :=
  match keyOf sort.sortField r, keyOf sort.sortField s with
  | some a, some b =>
    After sort.direction (pg.ordinal b) (pg.ordinal a) || pg.ordinal a = pg.ordinal b &&
      !After sort.direction (pg.collate (id r)) (pg.collate (id s))
  | some _, none => true
  | none, some _ => false
  | none, none => !After sort.direction (pg.collate (id r)) (pg.collate (id s))

def Condition.tri (c : Condition) : Option (Row → Sql.Tri) :=
  let k := keyOf sort.sortField
  let afterId row := Sql.ofProp (After sort.direction (pg.collate (id row)) (pg.collate c.id))
  match c.v with
  | none => some fun row => Sql.and (Sql.isNull (k row)) (afterId row)
  | some v => (pg.cast sort.sortField.kind v).map fun d row =>
    Sql.or (Sql.or
      (Sql.compare (fun a b => After sort.direction (pg.ordinal a) (pg.ordinal b)) (k row) (some d))
      (Sql.and (Sql.compare (fun a b => pg.ordinal a = pg.ordinal b) (k row) (some d)) (afterId row)))
      (Sql.isNull (k row))

structure Page (Row : Type) where
  data : List Row
  cursor : Option Text

inductive Failure
  | api (e : ApiError)
  | castError

/-- A page of what a query finds, as `listTenants` and its like make it. -/
def pageOf (limit : ℕ) (found : List Row) : Page Row :=
  let rows := (found.mergeSort (listOrderBy sort id)).take (limit + 1)
  let page := rows.take limit
  { data := page
    cursor := if limit < rows.length then page.getLast?.map fun last =>
      encodeListCursor resource sort (id last) (listSortKeySelect sort.sortField last) else none }

def listPage (rows : List Row) (limit : ℕ) (cursor : Option Text) : Except Failure (Page Row) :=
  match listCursorCondition cursor resource sort with
  | .error e => .error (.api e)
  | .ok none => .ok (pageOf resource sort id limit rows)
  | .ok (some c) =>
    match c.tri sort id with
    | none => .error .castError
    | some tri => .ok (pageOf resource sort id limit (rows.filter fun row => Sql.Matches (tri row)))

def followCursors (rows : List Row) (limit : ℕ) :
    ℕ → Option Text → Option (Except Failure (List (List Row)))
  | 0, _ => none
  | fuel + 1, cursor =>
    match listPage resource sort id rows limit cursor with
    | .error e => some (.error e)
    | .ok page =>
      match page.cursor with
      | none => some (.ok [page.data])
      | some c => (followCursors rows limit fuel (some c)).map fun later => later.map (page.data :: ·)

end Pages

/-! ## The order of the rows -/

structure Ranked (direction : Direction) (α : Type) where
  val : α

theorem Ranked.val_injective {direction : Direction} {α : Type} :
    Function.Injective (Ranked.val : Ranked direction α → α) := by
  rintro ⟨a⟩ ⟨b⟩ rfl
  rfl

instance {direction : Direction} {α : Type} [LinearOrder α] : LinearOrder (Ranked direction α) :=
  match direction with
  | .asc => LinearOrder.lift' Ranked.val Ranked.val_injective
  | .desc => LinearOrder.lift' (fun a : Ranked .desc α => OrderDual.toDual a.val) Ranked.val_injective

theorem Ranked.lt_iff {direction : Direction} {α : Type} [LinearOrder α] {a b : Ranked direction α} :
    a < b ↔ After direction b.val a.val := by
  cases direction <;> exact Iff.rfl

section Order

variable {fields : SortFields pg Row} (sort : ListSort fields) (id : Row → Text)

abbrev Rank := WithTop (Ranked sort.direction (pg.Ordinal sort.sortField.kind)) ×ₗ
  Ranked sort.direction pg.Collated

def keyRank (k : Option (pg.Datum sort.sortField.kind)) :
    WithTop (Ranked sort.direction (pg.Ordinal sort.sortField.kind)) :=
  match k with
  | some d => WithTop.some ⟨pg.ordinal d⟩
  | none => ⊤

def rank (r : Row) : Rank sort :=
  toLex (keyRank sort (keyOf sort.sortField r), ⟨pg.collate (id r)⟩)

variable {sort id} {r s : Row}

theorem idRank_le :
    (⟨pg.collate (id r)⟩ : Ranked sort.direction pg.Collated) ≤ ⟨pg.collate (id s)⟩ ↔
      ¬ After sort.direction (pg.collate (id r)) (pg.collate (id s)) := by
  rw [← not_lt, Ranked.lt_iff]

theorem keyRank_some_lt {a b : pg.Datum sort.sortField.kind} :
    keyRank sort (some a) < keyRank sort (some b) ↔
      After sort.direction (pg.ordinal b) (pg.ordinal a) := by
  rw [keyRank, keyRank, WithTop.coe_lt_coe, Ranked.lt_iff]

theorem keyRank_some_eq {a b : pg.Datum sort.sortField.kind} :
    keyRank sort (some a) = keyRank sort (some b) ↔ pg.ordinal a = pg.ordinal b := by
  rw [keyRank, keyRank, WithTop.coe_inj, Ranked.mk.injEq]

theorem keyRank_some_lt_none {a : pg.Datum sort.sortField.kind} :
    keyRank sort (some a) < keyRank sort none := WithTop.coe_lt_top _

theorem listOrderBy_iff : listOrderBy sort id r s = true ↔ rank sort id r ≤ rank sort id s := by
  rw [rank, rank, Prod.Lex.toLex_le_toLex, listOrderBy, idRank_le]
  cases hr : keyOf sort.sortField r with
  | some a =>
    cases hs : keyOf sort.sortField s with
    | some b => simp [keyRank_some_lt, keyRank_some_eq]
    | none => simp [keyRank_some_lt_none]
  | none =>
    cases hs : keyOf sort.sortField s with
    | some b => simp [not_lt_of_ge keyRank_some_lt_none.le, keyRank_some_lt_none.ne']
    | none => simp

theorem tri_cursor (r : Row) : ∃ tri,
    (Condition.mk (listSortKeySelect sort.sortField r) (id r)).tri sort id = some tri ∧
      ∀ s, Sql.Matches (tri s) ↔ rank sort id r < rank sort id s := by
  rw [Condition.tri, listSortKeySelect]
  cases hr : keyOf sort.sortField r with
  | none =>
    refine ⟨_, rfl, fun s => ?_⟩
    rw [Sql.matches_and, Sql.matches_ofProp, rank, rank, Prod.Lex.toLex_lt_toLex, hr, Ranked.lt_iff]
    cases hs : keyOf sort.sortField s with
    | some b => simp [Sql.isNull, not_lt_of_ge keyRank_some_lt_none.le, keyRank_some_lt_none.ne']
    | none => simp [Sql.isNull]
  | some a =>
    obtain ⟨d, hcast, hd⟩ := pg.cast_toText a
    simp only [Option.map_some, hcast]
    refine ⟨_, rfl, fun s => ?_⟩
    rw [Sql.matches_or, Sql.matches_or, Sql.matches_and, Sql.matches_ofProp, rank, rank,
      Prod.Lex.toLex_lt_toLex, hr, Ranked.lt_iff]
    cases hs : keyOf sort.sortField s with
    | some b => simp [Sql.matches_compare, Sql.isNull, keyRank_some_lt, keyRank_some_eq, hd, eq_comm]
    | none => simp [Sql.isNull, keyRank_some_lt_none]

theorem rank_injOn {rows : List Row} (hids : (rows.map id).Nodup) (hr : r ∈ rows) (hs : s ∈ rows)
    (h : rank sort id r = rank sort id s) : r = s := by
  have hcollate : pg.collate (id r) = pg.collate (id s) :=
    congrArg (fun k : Rank sort => (ofLex k).2.val) h
  exact List.inj_on_of_nodup_map hids hr hs (pg.collate_injective hcollate)

end Order

/-! ## Following the cursors -/

section Following

variable {fields fields' : SortFields pg Row} {sort : ListSort fields} {id : Row → Text}
  {resource resource' : Text} {rows : List Row} {limit : ℕ}

def Carried (sort : ListSort fields) (id : Row → Text) (r : Row) : Prop :=
  cursorId (id r) = true ∧
    ∀ v ∈ listSortKeySelect sort.sortField r, valueShape sort.sortField.kind v = true

theorem keyIn_stringify (sort : ListSort fields) (sortKey : Option Text) :
    (parse (stringify [(keyName, some sort.field), (directionName, some sort.direction.name),
      (valueName, sortKey)])).bind keyIn =
        some (sort.field, some (.string sort.direction.name), sortKey) := by
  rw [JsonText.parse_stringify (by simp), Option.bind_some]
  cases sortKey <;> rfl

theorem stringify_ne_nil (members : List (Text × Option Text)) : stringify members ≠ [] :=
  List.cons_ne_nil _ _

theorem decodeCursor_nil : decodeCursor [] = .error expiredCursor := by
  rw [decodeCursor, Base64Url.decode_nil]
  rfl

theorem listCursorCondition_of_decoded {cursor : Text} {decoded : Decoded}
    (h : decodeCursor cursor = .ok decoded) :
    listCursorCondition (some cursor) resource sort = (conditionIn resource sort decoded).map some := by
  match cursor, h with
  | [], h =>
    rw [decodeCursor_nil] at h
    cases h
  | c :: rest, h =>
    rw [listCursorCondition, h]
    · rfl
    · exact List.cons_ne_nil c rest

theorem isString_self (t : Text) : isString (.string t) t = true := beq_self_eq_true t

theorem stringOf_string (t : Text) : stringOf (.string t) = t := rfl

def Accepts (resource resource' : Text) (sort : ListSort fields) (sort' : ListSort fields') (id : Text)
    (sortKey : Option Text) : Prop :=
  resource = resource' ∧ sort.field = sort'.field ∧ sort.direction.name = sort'.direction.name ∧
    cursorId id = true ∧ sortKey.all (valueShape sort'.sortField.kind) = true

instance (sort : ListSort fields) (sort' : ListSort fields') (id : Text) (sortKey : Option Text) :
    Decidable (Accepts resource resource' sort sort' id sortKey) :=
  inferInstanceAs (Decidable (_ ∧ _ ∧ _ ∧ _ ∧ _))

theorem conditionIn_encoded (sort : ListSort fields) (sort' : ListSort fields') (id : Text)
    (sortKey : Option Text) :
    conditionIn resource' sort' ⟨.string resource, .string (stringify [(keyName, some sort.field),
      (directionName, some sort.direction.name), (valueName, sortKey)]), .string id⟩ =
        if Accepts resource resource' sort sort' id sortKey then .ok ⟨sortKey, id⟩
        else .error invalidCursor := by
  rw [conditionIn, stringOf_string, keyIn_stringify]
  by_cases hmade : resource = resource' ∧ sort.field = sort'.field ∧
      sort.direction.name = sort'.direction.name
  · obtain ⟨hresource, hfield, hdirection⟩ := hmade
    have hsame : (!isString (.string resource) resource' || sort.field != sort'.field ||
        !(some (.string sort.direction.name)).any (isString · sort'.direction.name)) = false := by
      rw [hresource, hfield, hdirection, Option.any_some, isString_self, isString_self,
        bne_self_eq_false]
      rfl
    by_cases hfits : (cursorId id && sortKey.all (valueShape sort'.sortField.kind)) = true
    · have haccepts : Accepts resource resource' sort sort' id sortKey :=
        ⟨hresource, hfield, hdirection, Bool.and_eq_true_iff.mp hfits⟩
      simp only [hsame, hfits, if_pos haccepts, Bool.false_eq_true, if_false, if_true]
    · have haccepts : ¬ Accepts resource resource' sort sort' id sortKey :=
        fun h => hfits (Bool.and_eq_true_iff.mpr h.2.2.2)
      simp only [hsame, hfits, if_neg haccepts, Bool.false_eq_true, if_false]
  · have hother : (!isString (.string resource) resource' || sort.field != sort'.field ||
        !(some (.string sort.direction.name)).any (isString · sort'.direction.name)) = true := by
      rw [← Bool.not_eq_false]
      intro hfalse
      apply hmade
      rw [Bool.or_eq_false_iff, Bool.or_eq_false_iff, Bool.not_eq_false', Bool.not_eq_false',
        Option.any_some, isString, isString, bne_eq_false_iff_eq, beq_iff_eq, beq_iff_eq] at hfalse
      exact ⟨hfalse.1.1, hfalse.1.2, hfalse.2⟩
    have haccepts : ¬ Accepts resource resource' sort sort' id sortKey :=
      fun h => hmade ⟨h.1, h.2.1, h.2.2.1⟩
    simp only [hother, if_true, if_neg haccepts]

theorem listCursorCondition_encoded (sort : ListSort fields) (sort' : ListSort fields') (id : Text)
    (sortKey : Option Text) (hresource : resource ≠ []) (hid : id ≠ []) :
    listCursorCondition (some (encodeListCursor resource sort id sortKey)) resource' sort' =
      if Accepts resource resource' sort sort' id sortKey then .ok (some ⟨sortKey, id⟩)
      else .error invalidCursor := by
  have hdecode := @decodeCursor_encodeCursor
    ⟨resource, stringify [(keyName, some sort.field), (directionName, some sort.direction.name),
      (valueName, sortKey)], id⟩ hresource (stringify_ne_nil _) hid
  rw [encodeListCursor, listCursorCondition_of_decoded hdecode, conditionIn_encoded]
  split <;> rfl

theorem listCursorCondition_encode (hresource : resource ≠ []) {r : Row} (h : Carried sort id r) :
    listCursorCondition
      (some (encodeListCursor resource sort (id r) (listSortKeySelect sort.sortField r))) resource
      sort =
        .ok (some ⟨listSortKeySelect sort.sortField r, id r⟩) := by
  have hid : id r ≠ [] := by
    intro hnil
    have hcursor := h.1
    rw [hnil] at hcursor
    cases hcursor
  have hshape : (listSortKeySelect sort.sortField r).all (valueShape sort.sortField.kind) = true := by
    rw [Option.all_eq_true]
    exact h.2
  rw [listCursorCondition_encoded sort sort (id r) _ hresource hid, if_pos ⟨rfl, rfl, rfl, h.1, hshape⟩]

def paging (sort : ListSort fields) (id : Row → Text) : CursorPages.Paging Row Row (Rank sort) where
  key := rank sort id
  make := fun r => r
  bound := rank sort id
  mark := fun k => k
  bound_make _ := rfl
  mono := fun _ _ h => h
  idem _ := rfl

def ordered (sort : ListSort fields) (id : Row → Text) (rows : List Row) : List Row :=
  rows.mergeSort (listOrderBy sort id)

theorem ordered_pairwise (rows : List Row) :
    ((ordered sort id rows).map (rank sort id)).Pairwise (· ≤ ·) := by
  rw [List.pairwise_map]
  have hsorted := @List.pairwise_mergeSort _ (listOrderBy sort id)
    (fun a b c hab hbc => listOrderBy_iff.mpr ((listOrderBy_iff.mp hab).trans (listOrderBy_iff.mp hbc)))
    (fun a b => by
      rw [Bool.or_eq_true, listOrderBy_iff, listOrderBy_iff]
      exact le_total _ _) rows
  exact hsorted.imp fun h => listOrderBy_iff.mp h

def database (sort : ListSort fields) (id : Row → Text) (rows : List Row) :
    CursorPages.Database (paging sort id) rows where
  ask _ c := ordered sort id (rows.filter ((paging sort id).behind c))
  answer _ _ := ⟨List.mergeSort_perm _ _, ordered_pairwise _⟩

theorem listPage_first : listPage resource sort id rows limit none = .ok
    (pageOf resource sort id limit rows) :=
  rfl

theorem listPage_cursor (hresource : resource ≠ []) {r : Row} (h : Carried sort id r) :
    listPage resource sort id rows limit
      (some (encodeListCursor resource sort (id r) (listSortKeySelect sort.sortField r))) =
        .ok (pageOf resource sort id limit (rows.filter ((paging sort id).behind (some r)))) := by
  obtain ⟨tri, htri, hmatches⟩ := @tri_cursor _ _ _ sort id r
  have hfilter : (rows.filter fun row => Sql.Matches (tri row)) =
      rows.filter ((paging sort id).behind (some r)) :=
    List.filter_congr fun s _ => decide_eq_decide.mpr (hmatches s)
  simp only [listPage, listCursorCondition_encode hresource h, htri, hfilter]

theorem pageOf_data (found : List Row) :
    (pageOf resource sort id limit found).data = (ordered sort id found).take limit := by
  rw [pageOf, ordered, List.take_take, Nat.min_eq_left (Nat.le_succ _)]

theorem pageOf_cursor (found : List Row) : (pageOf resource sort id limit found).cursor =
      (if limit < (ordered sort id found).length then ((ordered sort id found).take limit).getLast? else
        none).map fun last => encodeListCursor resource sort (id last)
        (listSortKeySelect sort.sortField last) := by
  have hlength : limit < ((found.mergeSort (listOrderBy sort id)).take (limit + 1)).length ↔
      limit < (ordered sort id found).length := by
    rw [List.length_take, ordered]
    omega
  have htake : ((found.mergeSort (listOrderBy sort id)).take (limit + 1)).take limit =
      (ordered sort id found).take limit := by
    rw [List.take_take, Nat.min_eq_left (Nat.le_succ _), ordered]
  simp only [pageOf, htake, hlength]
  split <;> rfl

/-- The pages of the list are those of the walk over ranks. -/
theorem followCursors_eq (hresource : resource ≠ []) (hcarried : ∀ r ∈ rows, Carried sort id r)
    {fuel n : ℕ} {c : Option Row} (hc : ∀ r ∈ c, r ∈ rows) {pages : List (List Row)}
    (h : CursorPages.follow (paging sort id) (database sort id rows) limit fuel n c = some pages) :
    followCursors resource sort id rows limit fuel (c.map fun r =>
      encodeListCursor resource sort (id r) (listSortKeySelect sort.sortField r)) = some
      (.ok pages) := by
  induction fuel generalizing n c pages with
  | zero => cases h
  | succ fuel ih =>
    have hpage : listPage resource sort id rows limit (c.map fun r =>
        encodeListCursor resource sort (id r) (listSortKeySelect sort.sortField r)) =
          .ok (pageOf resource sort id limit (rows.filter ((paging sort id).behind c))) := by
      cases c with
      | none =>
        have hall : rows.filter ((paging sort id).behind none) = rows :=
          List.filter_eq_self.mpr fun _ _ => rfl
        rw [hall]
        exact listPage_first
      | some r => exact listPage_cursor hresource (hcarried r (hc r rfl))
    rw [CursorPages.follow] at h
    rw [followCursors, hpage]
    simp only [pageOf_cursor, pageOf_data]
    have hask : (database sort id rows).ask n c =
      ordered sort id (rows.filter ((paging sort id).behind c)) :=
      rfl
    simp only [hask] at h
    split at h
    next hlast =>
      rw [hlast]
      cases h
      rfl
    next last hlast =>
      obtain ⟨later, hlater, rfl⟩ := Option.map_eq_some_iff.mp h
      have hmem : last ∈ rows := by
        have hin : last ∈ ordered sort id (rows.filter ((paging sort id).behind c)) := by
          split at hlast
          · exact List.mem_of_mem_take (List.mem_of_getLast? hlast)
          · cases hlast
        exact List.mem_of_mem_filter (List.mem_mergeSort.mp hin)
      have hnext := ih (c := some last) (fun r hr => by cases hr; exact hmem) hlater
      rw [Option.map_some] at hnext
      rw [hlast]
      simp only [Option.map_some, hnext]
      rfl

/-- No two rows have one rank, so there is a border after every page. -/
theorem separated (hlimit : 0 < limit) (hids : (rows.map id).Nodup) :
    CursorPages.Separated (paging sort id).mark limit
      (((database sort id rows).ask 0 none).map (paging sort id).key) := by
  have hall : rows.filter ((paging sort id).behind none) = rows :=
    List.filter_eq_self.mpr fun _ _ => rfl
  have hrows : (database sort id rows).ask 0 none = ordered sort id rows := by
    simp only [database, hall]
  have hperm : (ordered sort id rows).Perm rows := List.mergeSort_perm _ _
  have hnodup : ((ordered sort id rows).map (rank sort id)).Nodup := by
    apply List.Nodup.map_on
    · intro r hr s hs h
      exact rank_injOn hids (hperm.mem_iff.mp hr) (hperm.mem_iff.mp hs) h
    · exact hperm.nodup_iff.mpr (List.Nodup.of_map id hids)
  have hstrict : ((ordered sort id rows).map (rank sort id)).Pairwise (· < ·) :=
    ((ordered_pairwise rows).and hnodup).imp fun h => lt_of_le_of_ne h.1 h.2
  rw [hrows]
  intro k hk a b ha hb
  obtain ⟨ha', rfl⟩ := List.getElem?_eq_some_iff.mp ha
  obtain ⟨hb', rfl⟩ := List.getElem?_eq_some_iff.mp hb
  refine ⟨le_refl _, List.pairwise_iff_getElem.mp hstrict _ _ ha' hb' ?_⟩
  have hpos : 0 < k * limit := Nat.mul_pos hk hlimit
  omega

/-- From the first page on the cursors lead through the whole list, each row once and in order, and
no cursor is refused. -/
theorem followCursors_visits_once (rows : List Row) (hlimit : 0 < limit) (hresource : resource ≠ [])
    (hids : (rows.map id).Nodup) (hcarried : ∀ r ∈ rows, Carried sort id r) :
    ∃ fuel pages, followCursors resource sort id rows limit fuel none = some (.ok pages) ∧
      pages.flatten.Perm rows ∧ pages.flatten.Pairwise fun r s => listOrderBy sort id r s = true := by
  obtain ⟨fuel, pages, hfollow, hperm⟩ :=
    (@CursorPages.visitsOnce_iff _ _ _ _ _ _ (database sort id rows) _ hlimit).mpr
    (separated hlimit hids)
  have hsorted := CursorPages.sorted_of_follow hfollow fun _ => le_refl _
  refine ⟨fuel, pages, ?_, hperm, ?_⟩
  · exact followCursors_eq hresource hcarried (c := none) (fun r hr => by cases hr) hfollow
  · rw [List.pairwise_map] at hsorted
    exact hsorted.imp fun h => listOrderBy_iff.mpr h

end Following

/-! ## Cursors that are refused -/

section Refused

variable {fields fields' : SortFields pg Row} {resource resource' : Text}

/-- A cursor that was made for one list and sort is accepted by another exactly when list, field and
direction are the same and what it carries has the right form, and is then read as it was made. -/
theorem cursor_between_lists (sort : ListSort fields) (sort' : ListSort fields') (id : Text)
    (sortKey : Option Text) (hresource : resource ≠ []) (hid : id ≠ []) :
    (Accepts resource resource' sort sort' id sortKey ∧
      listCursorCondition (some (encodeListCursor resource sort id sortKey)) resource' sort' =
        .ok (some ⟨sortKey, id⟩)) ∨ ¬ Accepts resource resource' sort sort' id sortKey ∧
        listCursorCondition (some (encodeListCursor resource sort id sortKey)) resource' sort' =
          .error invalidCursor := by
  rw [listCursorCondition_encoded sort sort' id sortKey hresource hid]
  by_cases h : Accepts resource resource' sort sort' id sortKey
  · exact Or.inl ⟨h, if_pos h⟩
  · exact Or.inr ⟨h, if_neg h⟩

theorem decodeCursor_error {cursor : Text} {e : ApiError} (h : decodeCursor cursor = .error e) :
    e = expiredCursor := by
  rw [decodeCursor] at h
  split at h
  · exact (Except.error.inj h).symm
  · split at h
    · split at h
      · cases h
      · exact (Except.error.inj h).symm
    · exact (Except.error.inj h).symm

theorem conditionIn_cases (sort : ListSort fields) (decoded : Decoded) :
    conditionIn resource sort decoded = .error invalidCursor ∨
      ∃ c, conditionIn resource sort decoded = .ok c ∧
      c.v.all (valueShape sort.sortField.kind) = true := by
  rw [conditionIn]
  split
  · exact Or.inl rfl
  · split
    · exact Or.inl rfl
    · split
      · split
        next hfits => exact Or.inr ⟨_, rfl, (Bool.and_eq_true_iff.mp hfits).2⟩
        next => exact Or.inl rfl
      · exact Or.inl rfl

/-- Whatever a client sends as a cursor is refused with 400, or becomes a condition in the right
form. -/
theorem condition_checked (cursor : Option Text) (sort : ListSort fields) :
    (∃ e, listCursorCondition cursor resource sort = .error e ∧ e.code = "INVALID_CURSOR" ∧ e.status = 400) ∨
      ∃ c, listCursorCondition cursor resource sort = .ok c ∧ ∀ condition ∈ c,
        ∀ v ∈ condition.v, valueShape sort.sortField.kind v = true := by
  match cursor with
  | none => exact Or.inr ⟨none, rfl, fun _ h => by cases h⟩
  | some [] => exact Or.inr ⟨none, rfl, fun _ h => by cases h⟩
  | some (c :: rest) =>
    cases hdecode : decodeCursor (c :: rest) with
    | error e =>
      refine Or.inl ⟨e, ?_, ?_⟩
      · rw [listCursorCondition, hdecode]
        · rfl
        · exact List.cons_ne_nil c rest
      · rw [decodeCursor_error hdecode]
        exact ⟨rfl, rfl⟩
    | ok decoded =>
      rw [listCursorCondition_of_decoded hdecode]
      rcases @conditionIn_cases _ _ _ resource sort decoded with herror | ⟨condition, hok, hv⟩
      · exact Or.inl ⟨invalidCursor, by rw [herror]; rfl, rfl, rfl⟩
      · refine Or.inr ⟨some condition, by rw [hok]; rfl, ?_⟩
        intro c hc
        cases hc
        exact Option.all_eq_true _ _ |>.mp hv

/-- Of a text in the right form a cast only refuses a date or a time that there is not, and a
NUL. -/
def Postgres.ReadsForms (pg : Postgres) : Prop :=
  ∀ kind t, valueShape kind t = true → kind ≠ .timestamp → kind ≠ .timestamptz → Char.ofNat 0 ∉ t →
    (pg.cast kind t).isSome = true

/-- Whatever a client sends as a cursor, it gets a page, or is refused with 400, or the list is
sorted by a time and it sent what looks like one and is none, or it sent a NUL. -/
theorem cursor_checked (hreads : pg.ReadsForms) (sort : ListSort fields) (id : Row → Text)
    (rows : List Row) (limit : ℕ) (cursor : Option Text) :
    (∃ page, listPage resource sort id rows limit cursor = .ok page) ∨
    (∃ e, listPage resource sort id rows limit cursor = .error (.api e) ∧ e.code = "INVALID_CURSOR" ∧
      e.status = 400) ∨
    listPage resource sort id rows limit cursor = .error .castError ∧
      ∃ v, valueShape sort.sortField.kind v = true ∧ pg.cast sort.sortField.kind v = none ∧
        (sort.sortField.kind = .timestamp ∨ sort.sortField.kind = .timestamptz ∨ Char.ofNat 0 ∈ v) := by
  rw [listPage]
  rcases @condition_checked _ _ _ resource cursor sort with ⟨e, herror, hcode⟩ | ⟨c, hok, hshape⟩
  · rw [herror]
    exact .inr (.inl ⟨e, rfl, hcode⟩)
  · rw [hok]
    cases c with
    | none => exact .inl ⟨_, rfl⟩
    | some condition =>
      obtain ⟨key, last⟩ := condition
      cases key with
      | none => exact .inl ⟨_, rfl⟩
      | some v =>
        cases hcast : pg.cast sort.sortField.kind v with
        | some d =>
          simp only [Condition.tri, hcast, Option.map_some]
          exact .inl ⟨_, rfl⟩
        | none =>
          have hv := hshape ⟨some v, last⟩ rfl v rfl
          simp only [Condition.tri, hcast, Option.map_none]
          refine .inr (.inr ⟨trivial, v, hv, hcast, ?_⟩)
          by_contra hread
          obtain ⟨hstamp, hzoned, hnul⟩ := by simpa only [not_or] using hread
          have hsome := hreads _ v hv hstamp hzoned hnul
          rw [hcast] at hsome
          cases hsome

end Refused

section Names

def codePoints : Postgres where
  Datum _ := Text
  Ordinal _ := Text
  Collated := Text
  order _ := inferInstance
  collation := inferInstance
  ordinal d := d
  collate t := t
  collate_injective := fun _ _ h => h
  toText d := d
  cast _ t := some t
  cast_toText d := ⟨d, rfl, rfl⟩
  lower d := d.map Char.toLower

def nameFields : SortFields codePoints (Text × Option Text) :=
  [(['n', 'a', 'm', 'e'], ⟨.text, Prod.snd⟩)]

def byName : ListSort nameFields where
  field := ['n', 'a', 'm', 'e']
  direction := .desc
  sortField := ⟨.text, Prod.snd⟩
  allowed := rfl

/-- Names that are equal but for their case, and two that are NULL. -/
def namedRows : List (Text × Option Text) :=
  [(['a', '1'], some ['b', 'e', 't', 'a']), (['a', '2'], none), (['a', '3'], some ['B', 'e', 't', 'a']),
    (['a', '4'], none), (['a', '5'], some [])]

theorem namedRows_carried : ∀ r ∈ namedRows, Carried byName Prod.fst r := by
  simp only [namedRows, List.forall_mem_cons]
  refine ⟨⟨rfl, ?_⟩, ⟨rfl, ?_⟩, ⟨rfl, ?_⟩, ⟨rfl, ?_⟩, ⟨rfl, ?_⟩, fun r hr => (List.not_mem_nil hr).elim⟩
  all_goals
    intro v hv
    cases hv
  all_goals rfl

theorem followCursors_visits_once_names :
    ∃ fuel pages, followCursors ['t', 'e', 'n', 'a', 'n', 't'] byName Prod.fst namedRows 2 fuel none =
      some (.ok pages) ∧ pages.flatten.Perm namedRows ∧
        pages.flatten.Pairwise fun r s => listOrderBy byName Prod.fst r s = true :=
  followCursors_visits_once namedRows (by decide) (by decide) (by decide) namedRows_carried

theorem cursor_between_lists_otherList : listCursorCondition
      (some (encodeListCursor ['t', 'e', 'n', 'a', 'n', 't'] byName ['a', '1'] none))
      ['u', 's', 'e', 'r']
        byName = .error invalidCursor := by
  have hrefused := @cursor_between_lists _ _ _ _ ['t', 'e', 'n', 'a', 'n', 't'] ['u', 's', 'e', 'r']
    byName
    byName ['a', '1'] none (by decide) (by decide)
  exact (hrefused.resolve_left fun h => absurd h.1.1 (by decide)).2

/-- No date, though it looks like one. -/
def noDate : Text := "2026-13-45 99:99:99".toList

def isRead : SortKind → Text → Bool
  | .timestamp, t => t != noDate
  | _, _ => true

/-- As `codePoints`, with a text that is no time. -/
def withTimes : Postgres where
  Datum kind := { t : Text // isRead kind t = true }
  Ordinal _ := Text
  Collated := Text
  order _ := inferInstance
  collation := inferInstance
  ordinal d := d.val
  collate t := t
  collate_injective := fun _ _ h => h
  toText d := d.val
  cast kind t := if h : isRead kind t = true then some ⟨t, h⟩ else none
  cast_toText d := ⟨d, dif_pos d.property, rfl⟩
  lower d := ⟨d.val.map Char.toLower, rfl⟩

theorem withTimes_readsForms : withTimes.ReadsForms := by
  intro kind t _ hstamp _ _
  have hread : isRead kind t = true := by
    cases kind with
    | timestamp => exact absurd rfl hstamp
    | text => rfl
    | numeric => rfl
    | timestamptz => rfl
    | boolean => rfl
  simp only [withTimes, dif_pos hread, Option.isSome_some]

def createdFields : SortFields withTimes (Text × Option (withTimes.Datum .timestamp)) :=
  [("createdAt".toList, ⟨.timestamp, Prod.snd⟩)]

def byCreated : ListSort createdFields where
  field := "createdAt".toList
  direction := .asc
  sortField := ⟨.timestamp, Prod.snd⟩
  allowed := rfl

theorem cursor_checked_noDate :
    listPage ['t', 'e', 'n', 'a', 'n', 't'] byCreated Prod.fst [] 2 (some (encodeListCursor
        ['t', 'e', 'n', 'a', 'n', 't'] byCreated ['a', '1'] (some noDate))) = .error .castError ∧
      ∃ v, valueShape .timestamp v = true ∧ withTimes.cast .timestamp v = none ∧
        (SortKind.timestamp = .timestamp ∨ SortKind.timestamp = .timestamptz ∨ Char.ofNat 0 ∈ v) := by
  have hpage : listPage ['t', 'e', 'n', 'a', 'n', 't'] byCreated Prod.fst [] 2 (some (encodeListCursor
      ['t', 'e', 'n', 'a', 'n', 't'] byCreated ['a', '1'] (some noDate))) = .error .castError := by
    rw [listPage, listCursorCondition_encoded byCreated byCreated ['a', '1'] (some noDate) (by decide)
      (by decide), if_pos (by decide)]
    rfl
  have hchecked := @cursor_checked _ _ _ ['t', 'e', 'n', 'a', 'n', 't'] withTimes_readsForms
    byCreated
    Prod.fst [] 2 (some (encodeListCursor ['t', 'e', 'n', 'a', 'n', 't'] byCreated ['a', '1']
      (some noDate)))
  rw [hpage] at hchecked ⊢
  rcases hchecked with ⟨page, hok⟩ | ⟨e, herror, -⟩ | hraised
  · cases hok
  · cases herror
  · exact hraised

end Names

end Insula.ListCursors
