import Insula.LenientNumbers

/-!
# The user of a compose service

`parseService` splits the `user` of a service at colons and reads the first part as the uid and the
second, if there is one, as the gid, both with `parseInt`. So it takes more texts than a uid and a
gid.
-/

namespace Insula.Compose

open LenientNumbers
open Javascript (digits number)

inductive Severity
  | error | warning | info
deriving DecidableEq, Repr

structure Issue where
  severity : Severity
  code : String
  path : Text
  message : Text
deriving DecidableEq

structure ServiceUser where
  runAsUser : Option ℤ
  runAsGroup : Option ℤ
  issues : List Issue
deriving DecidableEq

def uidMessage (user : Text) : Text :=
  "'user: ".toList ++ user ++ ("' must use numeric uid[:gid]; names (e.g. 'root') are not supported " ++
    "because the platform cannot resolve them against the image.").toList

def gidMessage (user : Text) : Text := "'user: ".toList ++ user ++ "' gid component must be numeric.".toList

def userIssue (path message : Text) : Issue where
  severity := .error
  code := "COMPOSE_USER_INVALID"
  path := path ++ ".user".toList
  message := message

/-- `Number.isFinite(n) && n >= 0 && n <= 65535`, of what is read from a part. -/
def parseId (part : Text) : Option ℤ := (parseInt part).filter fun n => 0 ≤ n ∧ n ≤ 65535

def parseUser (path user : Text) : ServiceUser :=
  match user.splitOn ':' with
  | [] => ⟨none, none, [userIssue path (uidMessage user)]⟩
  | [uidStr] =>
    ⟨parseId uidStr, none, if (parseId uidStr).isSome then [] else [userIssue path (uidMessage user)]⟩
  | uidStr :: gidStr :: _ =>
    ⟨parseId uidStr, parseId gidStr,
      (if (parseId uidStr).isSome then [] else [userIssue path (uidMessage user)]) ++
        if (parseId gidStr).isSome then [] else [userIssue path (gidMessage user)]⟩

inductive Literal : Text → ℕ → Option ℕ → Prop
  | uid {a : Text} (ha : digits a = true) : Literal a (number a) none
  | both {a b : Text} (ha : digits a = true) (hb : digits b = true) :
      Literal (a ++ ':' :: b) (number a) (some (number b))

/-- Accepted as the numbers that it is made of, or refused. -/
def TakenLiterally (path user : Text) : Prop :=
  (parseUser path user).issues = [] → ∃ uid gid, Literal user uid gid ∧
    (parseUser path user).runAsUser = some (uid : ℤ) ∧
    (parseUser path user).runAsGroup = gid.map ((↑) : ℕ → ℤ)

/-- A part that begins with a number in the range. -/
def Lenient (part : Text) : Prop := ∃ n, Nonempty (BeginsWith part n) ∧ 0 ≤ n ∧ n ≤ 65535

/-- Not a uid or a uid and a gid, but of parts whose first two begin with such numbers. -/
def Misread (user : Text) : Prop :=
  (¬ ∃ uid gid, Literal user uid gid) ∧ ∀ part ∈ (user.splitOn ':').take 2, Lenient part

/-! ## What is accepted -/

theorem parseId_isSome_iff {part : Text} : (parseId part).isSome = true ↔ Lenient part := by
  unfold parseId
  rw [Option.isSome_filter, Option.any_eq_true]
  simp only [decide_eq_true_eq, parseInt_iff, Lenient]

theorem parseId_of_digits {a : Text} (ha : digits a = true) (hrange : (parseId a).isSome = true) :
    parseId a = some (number a : ℤ) := by
  obtain ⟨n, hn⟩ := Option.isSome_iff_exists.mp hrange
  have hread := parseInt_of_digits ha
  unfold parseId at hn ⊢
  rw [hread] at hn ⊢
  obtain ⟨hsome, -⟩ := Option.filter_eq_some_iff.mp hn
  rw [hn, hsome]

theorem not_mem_of_digits {a : Text} (ha : digits a = true) : ':' ∉ a := by
  intro hmem
  have := (digits_iff.mp ha).2 _ hmem
  cases this

/-- The parser reports nothing just when the parts it reads begin with numbers in the range. -/
theorem issues_eq_nil_iff (path user : Text) :
    (parseUser path user).issues = [] ↔ ∀ part ∈ (user.splitOn ':').take 2, Lenient part := by
  unfold parseUser
  cases hparts : user.splitOn ':' with
  | nil => exact absurd hparts (List.splitOn_ne_nil _ _)
  | cons uidStr rest =>
    cases rest with
    | nil =>
      rw [List.take_of_length_le (by simp), List.forall_mem_singleton, ← parseId_isSome_iff]
      by_cases h : (parseId uidStr).isSome = true
      · simp [h]
      · simp [h]
    | cons gidStr rest =>
      have htake : (uidStr :: gidStr :: rest).take 2 = [uidStr, gidStr] := rfl
      rw [htake, List.forall_mem_cons, List.forall_mem_singleton, ← parseId_isSome_iff,
        ← parseId_isSome_iff]
      by_cases huid : (parseId uidStr).isSome = true
      · by_cases hgid : (parseId gidStr).isSome = true
        · simp [huid, hgid]
        · simp [huid, hgid]
      · simp [huid]

/-- What is written as numbers and accepted is read as these numbers. -/
theorem Literal.parseUser {path user : Text} {uid : ℕ} {gid : Option ℕ} (h : Literal user uid gid)
    (haccepted : (parseUser path user).issues = []) :
    (parseUser path user).runAsUser = some (uid : ℤ) ∧
      (parseUser path user).runAsGroup = gid.map ((↑) : ℕ → ℤ) := by
  rw [issues_eq_nil_iff] at haccepted
  cases h with
  | uid ha =>
    have hparts : user.splitOn ':' = [user] := List.splitOn_eq_singleton (not_mem_of_digits ha)
    have hrange : (parseId user).isSome = true :=
      parseId_isSome_iff.mpr (haccepted user (by rw [hparts]; exact List.mem_cons_self))
    unfold Compose.parseUser
    rw [hparts]
    exact ⟨parseId_of_digits ha hrange, rfl⟩
  | @both a b ha hb =>
    have hparts : (a ++ ':' :: b).splitOn ':' = [a, b] := by
      rw [List.splitOn_append_cons_self_of_not_mem (not_mem_of_digits ha),
        List.splitOn_eq_singleton (not_mem_of_digits hb)]
    have huid : (parseId a).isSome = true :=
      parseId_isSome_iff.mpr (haccepted a (by rw [hparts]; simp))
    have hgid : (parseId b).isSome = true :=
      parseId_isSome_iff.mpr (haccepted b (by rw [hparts]; simp))
    unfold Compose.parseUser
    rw [hparts]
    exact ⟨parseId_of_digits ha huid, parseId_of_digits hb hgid⟩

/-- A user is taken literally or refused unless it is misread. -/
theorem user_literal_iff (path user : Text) : TakenLiterally path user ↔ ¬ Misread user := by
  unfold TakenLiterally Misread
  rw [issues_eq_nil_iff]
  constructor
  · rintro h ⟨hnot, hlenient⟩
    obtain ⟨uid, gid, hliteral, -⟩ := h hlenient
    exact hnot ⟨uid, gid, hliteral⟩
  · intro h hlenient
    by_contra hnone
    apply h
    refine ⟨?_, hlenient⟩
    rintro ⟨uid, gid, hliteral⟩
    exact hnone ⟨uid, gid, hliteral, hliteral.parseUser ((issues_eq_nil_iff path user).mpr hlenient)⟩

/-- The uid 1000 in hexadecimal digits is read as root. -/
theorem hexadecimal_user_is_root : ¬ ∀ path user, TakenLiterally path user := by
  intro h
  have hread : parseUser [] "0x3e8".toList = ⟨some 0, none, []⟩ := by rfl
  obtain ⟨uid, gid, hliteral, -⟩ := h [] "0x3e8".toList (by rw [hread])
  generalize htext : "0x3e8".toList = text at hliteral
  cases hliteral with
  | uid ha =>
    subst htext
    exact absurd ha (by decide)
  | @both a b ha hb =>
    have hcolon : ':' ∈ "0x3e8".toList := by rw [htext]; simp
    exact absurd hcolon (by decide)

end Insula.Compose
