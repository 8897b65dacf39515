import Insula.RefreshTokens
import Mathlib.Data.List.Nodup
import Mathlib.Data.Option.NAry

/-!
# Rotation and revocation of refresh tokens

A refresh reads its token, revokes it with an update whose outcome it does not look at, and inserts
the successor. Two refreshes of one token both insert one; and a successor that is inserted after
its family, or all tokens of its user, were revoked is active all the same. When every rotating
update finds its token active, and no such revocation comes between a rotation and its insert, every
token is exchanged once and a family that was revoked has no active token again.
-/

namespace Insula.RefreshTokens

open Program Concurrent Transition

inductive Stage
  | idle
  | found (t : Token)
  /-- It has sent the rotating update of the token, and inserted no successor. -/
  | rotated (t : Token)
  deriving DecidableEq

namespace Stage

def Allowed : Stage → Op → Prop
  | b, .findByHash _ => b = idle
  | b, .revoke (.byId id) _ .rotated => ∃ t, b = found t ∧ t.id = id
  | b, .revoke _ _ _ => ∀ t, b ≠ rotated t
  | b, .insert _ none => b = idle
  | b, .insert t (some id) =>
    ∃ p, b = rotated p ∧ p.id = id ∧ t.familyId = p.familyId ∧ t.userId = p.userId
  | _, _ => True

/-- The stage after the answer; `none` for an answer that does not occur. -/
def next (b : Stage) : (o : Op) → Ans o → Option Stage
  | .findByHash _, some t => some (found t)
  | .revoke (.byId _) _ .rotated, _ => match b with
      | found t => some (rotated t)
      | _ => some b
  | .insert _ (some _), _ => some idle
  | .findUser userId, some user => if user.id = userId then some b else none
  | _, _ => some b

def discipline : Discipline Op Ans Stage where
  allowed := Allowed
  next := next

theorem revoke_allowed {b b' : Stage} {which : Which} {now : ℤ} {reason : RevokedReason}
    {r : Ans (.revoke which now reason)} (hplain : ∀ id, which = .byId id → reason ≠ .rotated)
    (hallowed : b.Allowed (.revoke which now reason))
    (hnext : b.next (.revoke which now reason) r = some b') : (∀ t, b ≠ rotated t) ∧ b' = b := by
  cases which with
  | byId id =>
    cases reason with
    | rotated => exact absurd rfl (hplain id rfl)
    | logout | reuseDetected | passwordChange | adminRevoke | tenantArchived =>
      exact ⟨hallowed, (Option.some.inj hnext).symm⟩
  | family _ | allOf _ _ => exact ⟨hallowed, (Option.some.inj hnext).symm⟩

theorem findUser_next {b b' : Stage} {userId : String} {r : Ans (.findUser userId)}
    (hnext : b.next (.findUser userId) r = some b') : b' = b := by
  cases r with
  | none => exact (Option.some.inj hnext).symm
  | some user =>
    obtain ⟨-, heq⟩ := Option.ite_none_right_eq_some.mp hnext
    exact (Option.some.inj heq).symm

end Stage

/-! ## The table and what goes on around it -/

structure World where
  tokens : List Token
  /-- The tokens that a successor was given for. -/
  exchanged : List String
  /-- The families that reuse was detected for, and those that were there when all tokens of their
  user were revoked. -/
  closed : List String
  /-- By token: the request whose rotating update came last. -/
  rotatedBy : String → Option ℕ
  /-- By request. -/
  stage : ℕ → Stage

namespace Which

variable (which : Which) (now : ℤ) (reason : RevokedReason)

def apply (t : Token) : Token := if which.covers t ∧ t.Active then t.revoke now reason else t

@[simp] theorem apply_id (t : Token) : (which.apply now reason t).id = t.id := by
  unfold apply
  split <;> rfl

@[simp] theorem apply_familyId (t : Token) : (which.apply now reason t).familyId = t.familyId := by
  unfold apply
  split <;> rfl

@[simp] theorem apply_userId (t : Token) : (which.apply now reason t).userId = t.userId := by
  unfold apply
  split <;> rfl

theorem active_apply {t : Token} (h : (which.apply now reason t).Active) :
    t.Active ∧ which.covers t = false := by
  unfold apply at h
  split at h
  · cases h
  · rename_i hnot
    refine ⟨h, ?_⟩
    cases hcovers : which.covers t with
    | false => rfl
    | true => exact absurd ⟨hcovers, h⟩ hnot

end Which

namespace World

variable (w : World)

def closes : Which → List String
  | .byId _ => []
  | .family familyId => [familyId]
  | .allOf userId none => (w.tokens.filter fun t => t.userId = userId).map Token.familyId
  | .allOf _ (some _) => []

def revoke (i : ℕ) (which : Which) (now : ℤ) (reason : RevokedReason) : World :=
  { w with
    tokens := w.tokens.map (which.apply now reason)
    closed := w.closes which ++ w.closed
    rotatedBy := match which, reason with
      | .byId id, .rotated => Function.update w.rotatedBy id (some i)
      | _, _ => w.rotatedBy }

def insert (t : Token) (inExchangeFor : Option String) : World :=
  { w with
    tokens := w.tokens ++ [t]
    exchanged := inExchangeFor.toList ++ w.exchanged }

/-- Ids, secrets and families are random: a new one was not there before. -/
def Unused (t : Token) (inExchangeFor : Option String) : Prop :=
  t.id ∉ w.tokens.map Token.id ∧ t.tokenHash ∉ w.tokens.map Token.tokenHash ∧
    (inExchangeFor = none → t.familyId ∉ w.tokens.map Token.familyId ∧ t.familyId ∉ w.closed)

instance (t : Token) (inExchangeFor : Option String) : Decidable (w.Unused t inExchangeFor) := by
  unfold Unused
  infer_instance

def respond (i : ℕ) : (o : Op) → Ans o → Option World
  | .findByHash tokenHash, r =>
    if r = w.tokens.find? (fun t => t.tokenHash = tokenHash) then some w else none
  | .revoke which now reason, _ => some (w.revoke i which now reason)
  | .insert t inExchangeFor, _ =>
    if w.Unused t inExchangeFor then some (w.insert t inExchangeFor) else none
  | _, _ => some w

end World

def handle (w : World) (i : ℕ) (o : Op) (r : Ans o) : Option World :=
  (w.respond i o r).bind fun w' =>
    ((w.stage i).next o r).map fun b => { w' with stage := Function.update w.stage i b }

abbrev Requests := Config World Kind Op Ans Reply

abbrev Happening := Event Kind Op Ans

theorem handle_eq_some {w w' : World} {i : ℕ} {o : Op} {r : Ans o} :
    handle w i o r = some w' ↔ ∃ m b, w.respond i o r = some m ∧ (w.stage i).next o r = some b ∧
      w' = { m with stage := Function.update w.stage i b } := by
  apply Option.map₂_eq_some_iff.trans
  simp only [Option.mem_def, eq_comm (b := w')]

/-! ## The programs keep to the discipline -/

section Follows

open Stage

variable (hashRefreshToken : String → String)

def Ends {α : Type} (_ : Stage) (_ : α) : Prop := True

variable {b : Stage}

/-- Statements that leave a request where it is. -/
theorem ask_follows {o : Op} {Q : Stage → Ans o → Prop} (hallowed : Allowed b o)
    (hnext : ∀ r b', b.next o r = some b' → b' = b) (hQ : ∀ r, Q b r) :
    Follows discipline Q (ask o) b := by
  refine ⟨hallowed, ?_⟩
  intro r b' hb'
  rw [hnext r b' hb']
  exact hQ r

theorem revokeById_follows {id : String} {reason : RevokedReason} (hreason : reason ≠ .rotated)
    (hb : ∀ t, b ≠ rotated t) :
    Follows discipline (fun b' _ => b' = b) (revokeRefreshTokenById id reason) b := by
  unfold revokeRefreshTokenById
  rw [follows_bind]
  apply ask_follows (o := .now) trivial (fun _ _ h => (Option.some.inj h).symm)
  intro now
  apply ask_follows (o := .revoke (.byId id) now reason)
  · cases reason <;> first | exact hb | exact absurd rfl hreason
  · intro r b' h
    cases reason <;> first | exact (Option.some.inj h).symm | exact absurd rfl hreason
  · exact fun _ => rfl

theorem revokeAll_follows {userId : String} {reason : RevokedReason} {exceptSessionId : Option String}
    (hb : ∀ t, b ≠ rotated t) : Follows discipline (fun b' _ => b' = b)
      (revokeAllUserRefreshTokens userId reason exceptSessionId) b := by
  unfold revokeAllUserRefreshTokens
  rw [follows_bind]
  apply ask_follows (o := .now) trivial (fun _ _ h => (Option.some.inj h).symm)
  intro now
  exact ask_follows (o := .revoke (.allOf userId exceptSessionId) now reason) hb
    (fun _ _ h => (Option.some.inj h).symm) (fun _ => rfl)

def Validated (b : Stage) : Except Failure Token → Prop
  | .ok t => b = found t
  | .error _ => ∀ t, b ≠ rotated t

theorem validate_follows (presentedToken : String) :
    Follows discipline Validated (validateRefreshToken hashRefreshToken presentedToken) idle := by
  unfold validateRefreshToken
  rw [follows_bind]
  refine ⟨rfl, ?_⟩
  intro row b hb
  cases row with
  | none =>
    cases hb
    exact fun t h => by cases h
  | some row =>
    cases hb
    have hfound : ∀ t, found row ≠ rotated t := fun t h => by cases h
    change Follows discipline Validated (ask .now >>= _) (found row)
    rw [follows_bind]
    apply ask_follows (o := .now) trivial (fun _ _ h => (Option.some.inj h).symm)
    intro now
    split
    · split
      · rw [follows_bind]
        exact ask_follows (o := .revoke (.family row.familyId) now .reuseDetected) hfound
          (fun _ _ h => (Option.some.inj h).symm) (fun _ => hfound)
      · exact hfound
    · split
      · exact hfound
      · exact rfl

theorem issue_follows {userId : String} (predecessor : Option Token)
    (hb : match predecessor with
      | none => b = idle
      | some p => b = rotated p ∧ userId = p.userId) :
    Follows discipline (fun b' _ => b' = idle)
      (issueRefreshToken hashRefreshToken userId predecessor) b := by
  unfold issueRefreshToken
  rw [follows_bind]
  apply ask_follows (o := .generateRefreshToken) trivial (fun _ _ h => (Option.some.inj h).symm)
  intro token
  rw [follows_bind]
  apply ask_follows (o := .randomUUID) trivial (fun _ _ h => (Option.some.inj h).symm)
  intro id
  cases predecessor with
  | none =>
    rw [follows_bind]
    apply ask_follows (o := .randomUUID) trivial (fun _ _ h => (Option.some.inj h).symm)
    intro familyId
    rw [follows_bind]
    apply ask_follows (o := .now) trivial (fun _ _ h => (Option.some.inj h).symm)
    intro now
    rw [follows_bind]
    exact ask_follows (o := .insert _ none) hb (fun _ _ h => (Option.some.inj h).symm)
      (fun _ => hb)
  | some p =>
    obtain ⟨rfl, huser⟩ := hb
    change Follows discipline _ (ask .now >>= _) (rotated p)
    rw [follows_bind]
    apply ask_follows (o := .now) trivial (fun _ _ h => (Option.some.inj h).symm)
    intro now
    rw [follows_bind]
    refine ⟨⟨p, rfl, rfl, rfl, huser⟩, ?_⟩
    intro r b' h
    cases h
    rfl

theorem rotate_follows {user : User} {presented : Token} (huser : user.id = presented.userId) :
    Follows discipline Ends (rotate hashRefreshToken user presented) (found presented) := by
  unfold rotate revokeRefreshTokenById
  rw [follows_bind, follows_bind]
  apply ask_follows (o := .now) trivial (fun _ _ h => (Option.some.inj h).symm)
  intro now
  refine ⟨⟨presented, rfl, rfl⟩, ?_⟩
  intro r b hb
  cases hb
  rw [follows_ret, follows_bind]
  apply follows_mono _ (issue_follows hashRefreshToken (some presented) ⟨rfl, huser⟩)
  rintro b issued rfl
  exact ask_follows (o := .touchLastUsed presented.id) trivial
    (fun _ _ h => (Option.some.inj h).symm) (fun _ => trivial)

theorem refresh_follows (presentedToken : String) :
    Follows discipline Ends (refresh hashRefreshToken presentedToken) idle := by
  unfold refresh
  rw [follows_bind]
  apply follows_mono _ (validate_follows hashRefreshToken presentedToken)
  intro b validation hb
  cases validation with
  | error reason => exact trivial
  | ok presented =>
    cases hb
    have hfound : ∀ t, found presented ≠ rotated t := fun t h => by cases h
    have hreject : Follows discipline Ends (do
        revokeRefreshTokenById presented.id .adminRevoke
        return Reply.rejected) (found presented) := by
      rw [follows_bind]
      exact follows_mono (fun _ _ _ => trivial) (revokeById_follows (by decide) hfound)
    change Follows discipline Ends (ask (.findUser presented.userId) >>= _) _
    rw [follows_bind]
    refine ⟨trivial, ?_⟩
    intro user b hb
    cases user with
    | none =>
      cases hb
      exact hreject
    | some user =>
      change (if user.id = presented.userId then some (found presented) else none) = some b at hb
      split_ifs at hb with huser
      cases hb
      rw [follows_ret]
      dsimp only
      split
      · exact hreject
      · rw [follows_bind]
        have hgo : ∀ isArchived : Bool, Follows discipline Ends
            (if isArchived then (do
                revokeRefreshTokenById presented.id .adminRevoke
                return Reply.rejected)
              else rotate hashRefreshToken user presented) (found presented) := by
          intro isArchived
          cases isArchived with
          | true => exact hreject
          | false => exact rotate_follows hashRefreshToken huser
        unfold archived
        split
        · exact ask_follows (o := .tenantArchived _) trivial
            (fun _ _ h => (Option.some.inj h).symm) hgo
        · exact hgo false

theorem logout_follows (presentedToken : String) :
    Follows discipline Ends (logout hashRefreshToken presentedToken) idle := by
  unfold logout
  rw [follows_bind]
  apply follows_mono _ (validate_follows hashRefreshToken presentedToken)
  intro b validation hb
  cases validation with
  | error reason => exact trivial
  | ok presented =>
    cases hb
    rw [follows_bind]
    exact follows_mono (fun _ _ _ => trivial)
      (revokeById_follows (by decide) (fun t h => by cases h))

theorem run_follows (kind : Kind) : Follows discipline Ends (kind.run hashRefreshToken) idle := by
  have hidle : ∀ t, idle ≠ rotated t := fun t h => by cases h
  have hissue : ∀ userId, Follows discipline Ends
      (issueRefreshToken hashRefreshToken userId none >>= fun issued => Pure.pure (Reply.issued issued))
      idle := by
    intro userId
    rw [follows_bind]
    exact follows_mono (fun _ _ _ => trivial) (issue_follows hashRefreshToken none rfl)
  cases kind with
  | refresh presentedToken => exact refresh_follows hashRefreshToken presentedToken
  | logout presentedToken => exact logout_follows hashRefreshToken presentedToken
  | signIn userId => exact hissue userId
  | changePassword userId =>
    change Follows discipline Ends (revokeAllUserRefreshTokens _ _ _ >>= _) idle
    rw [follows_bind]
    apply follows_mono _ (revokeAll_follows hidle)
    rintro b _ rfl
    exact hissue userId
  | revokeAll userId reason exceptSessionId =>
    change Follows discipline Ends (revokeAllUserRefreshTokens _ _ _ >>= _) idle
    rw [follows_bind]
    exact follows_mono (fun _ _ _ => trivial) (revokeAll_follows hidle)
  | revokeSession id =>
    change Follows discipline Ends (revokeRefreshTokenById _ _ >>= _) idle
    rw [follows_bind]
    exact follows_mono (fun _ _ _ => trivial) (revokeById_follows (by decide) hidle)

end Follows

/-! ## The invariant -/

def Known (w : World) (t : Token) : Prop :=
  ∃ t' ∈ w.tokens, t'.id = t.id ∧ t'.familyId = t.familyId ∧ t'.userId = t.userId

structure Kept (w : World) : Prop where
  ids : (w.tokens.map Token.id).Nodup
  families : ∀ t ∈ w.tokens, ∀ t' ∈ w.tokens, t.familyId = t'.familyId → t.userId = t'.userId
  once : w.exchanged.Nodup
  present : ∀ id ∈ w.exchanged, id ∈ w.tokens.map Token.id
  inactive : ∀ id ∈ w.exchanged, ∀ t ∈ w.tokens, t.id = id → ¬ t.Active
  closed : ∀ familyId ∈ w.closed, ∀ t ∈ w.tokens, t.familyId = familyId → ¬ t.Active

/-- What a request may rely on: the token it has rotated is not active, was not exchanged, is of a
family that is not closed, and was rotated by nobody else since. -/
def Relies (w : World) (i : ℕ) : Stage → Prop
  | .idle => True
  | .found t => Known w t
  | .rotated t => Known w t ∧ (∀ t' ∈ w.tokens, t'.id = t.id → ¬ t'.Active) ∧ t.id ∉ w.exchanged ∧
      t.familyId ∉ w.closed ∧ w.rotatedBy t.id = some i

def pending (s : Requests) : List Token :=
  (List.range s.procs.length).filterMap fun j => match s.procs[j]?, s.world.stage j with
    | some (Process.mk _ (some _)), .rotated t => some t
    | _, _ => none

def Timely (w : World) (waiting : List Token) : Op → Prop
  | .revoke (.byId id) _ .rotated => ∃ t ∈ w.tokens, t.id = id ∧ t.Active
  | .revoke (.family familyId) _ _ => ∀ t ∈ waiting, t.familyId ≠ familyId
  | .revoke (.allOf userId none) _ _ => ∀ t ∈ waiting, t.userId ≠ userId
  | _ => True

instance (w : World) (waiting : List Token) (o : Op) : Decidable (Timely w waiting o) := by
  unfold Timely
  split <;> infer_instance

def Orderly (s : Requests) (e : Happening) (_ : Requests) : Prop :=
  match e with
  | .act _ o _ => Timely s.world (pending s) o
  | _ => True

instance (s : Requests) (e : Happening) (s' : Requests) : Decidable (Orderly s e s') := by
  unfold Orderly
  split <;> infer_instance

section Keeps

variable {w : World} {i j : ℕ} {t : Token} {which : Which} {now : ℤ} {reason : RevokedReason}
  {inExchangeFor : Option String}

theorem mem_pending {s : Requests} {kind : Kind} {p : Task Reply}
    (hj : s.procs[j]? = some ⟨kind, some p⟩) (ht : s.world.stage j = .rotated t) : t ∈ pending s := by
  unfold pending
  rw [List.mem_filterMap]
  exact ⟨j, List.mem_range.mpr (Lookup.lt_length_of_getElem? hj), by rw [hj, ht]⟩

theorem Kept.eq_of_id (h : Kept w) {t' : Token} (ht : t ∈ w.tokens) (ht' : t' ∈ w.tokens)
    (hid : t.id = t'.id) : t = t' :=
  List.inj_on_of_nodup_map h.ids ht ht' hid

/-! ### Revocations -/

theorem mem_revoke : t ∈ (w.revoke i which now reason).tokens ↔
    ∃ t₀ ∈ w.tokens, which.apply now reason t₀ = t := List.mem_map

theorem Known.revoke (h : Known w t) : Known (w.revoke i which now reason) t := by
  obtain ⟨t', ht', hid, hfamily, huser⟩ := h
  exact ⟨which.apply now reason t', mem_revoke.mpr ⟨t', ht', rfl⟩, by simpa using hid,
    by simpa using hfamily, by simpa using huser⟩

theorem active_of_revoke (ht : t ∈ (w.revoke i which now reason).tokens) (hactive : t.Active) :
    ∃ t₀ ∈ w.tokens, t₀.Active ∧ which.covers t₀ = false ∧ t₀.id = t.id ∧
      t₀.familyId = t.familyId := by
  obtain ⟨t₀, ht₀, rfl⟩ := mem_revoke.mp ht
  obtain ⟨hactive₀, hcovers⟩ := which.active_apply now reason hactive
  exact ⟨t₀, ht₀, hactive₀, hcovers, by simp, by simp⟩

theorem Kept.closes_inactive (h : Kept w) {familyId : String} (hfamily : familyId ∈ w.closes which)
    (ht : t ∈ w.tokens) (htfamily : t.familyId = familyId) : which.covers t = true := by
  unfold World.closes at hfamily
  split at hfamily
  · cases hfamily
  · cases List.mem_singleton.mp hfamily
    simp [Which.covers, htfamily]
  · obtain ⟨t', ht', hfamily'⟩ := List.mem_map.mp hfamily
    obtain ⟨hmem, huser⟩ := List.mem_filter.mp ht'
    have heq := h.families t ht t' hmem (htfamily.trans hfamily'.symm)
    simp only [decide_eq_true_eq] at huser
    simp [Which.covers, heq, huser]
  · cases hfamily

theorem Kept.revoke (h : Kept w) : Kept (w.revoke i which now reason) where
  ids := by
    have hids : (w.revoke i which now reason).tokens.map Token.id = w.tokens.map Token.id := by
      simp [World.revoke, Function.comp_def]
    rw [hids]
    exact h.ids
  families t ht t' ht' hfamily := by
    obtain ⟨t₀, ht₀, rfl⟩ := mem_revoke.mp ht
    obtain ⟨t₀', ht₀', rfl⟩ := mem_revoke.mp ht'
    simp only [Which.apply_familyId, Which.apply_userId] at hfamily ⊢
    exact h.families t₀ ht₀ t₀' ht₀' hfamily
  once := h.once
  present id hid := by
    have hids : (w.revoke i which now reason).tokens.map Token.id = w.tokens.map Token.id := by
      simp [World.revoke, Function.comp_def]
    rw [hids]
    exact h.present id hid
  inactive id hid t ht htid hactive := by
    obtain ⟨t₀, ht₀, hactive₀, -, hid₀, -⟩ := active_of_revoke ht hactive
    exact h.inactive id hid t₀ ht₀ (hid₀.trans htid) hactive₀
  closed familyId hfamily t ht htfamily hactive := by
    obtain ⟨t₀, ht₀, hactive₀, hcovers, -, hfamily₀⟩ := active_of_revoke ht hactive
    rcases List.mem_append.mp hfamily with hnew | hold
    · rw [h.closes_inactive hnew ht₀ (hfamily₀.trans htfamily)] at hcovers
      cases hcovers
    · exact h.closed familyId hold t₀ ht₀ (hfamily₀.trans htfamily) hactive₀

/-- What another request relies on survives a revocation. -/
theorem Relies.revoke {b : Stage} (h : Relies w j b)
    (hcloses : ∀ t, b = .rotated t → t.familyId ∉ w.closes which)
    (hrotated : ∀ t, b = .rotated t → which = .byId t.id → reason ≠ .rotated) :
    Relies (w.revoke i which now reason) j b := by
  cases b with
  | idle => trivial
  | found t => exact Known.revoke h
  | rotated t =>
    obtain ⟨hknown, hinactive, hexchanged, hclosed, hby⟩ := h
    refine ⟨hknown.revoke, ?_, hexchanged, ?_, ?_⟩
    · intro t' ht' hid hactive
      obtain ⟨t₀, ht₀, hactive₀, -, hid₀, -⟩ := active_of_revoke ht' hactive
      exact hinactive t₀ ht₀ (hid₀.trans hid) hactive₀
    · intro hmem
      rcases List.mem_append.mp hmem with hnew | hold
      · exact hcloses t rfl hnew
      · exact hclosed hold
    · simp only [World.revoke]
      split
      · rename_i id
        have hne : t.id ≠ id := by
          intro heq
          exact hrotated t rfl (by rw [heq]) rfl
        rw [Function.update_of_ne hne]
        exact hby
      · exact hby

/-! ### Inserts -/

theorem Known.insert {t' : Token} (h : Known w t) : Known (w.insert t' inExchangeFor) t := by
  obtain ⟨t₀, ht₀, hrest⟩ := h
  exact ⟨t₀, List.mem_append_left _ ht₀, hrest⟩

/-- A token is inserted into a family that is not closed and whose user is its own, in exchange for
a token that was not exchanged and is not active. -/
theorem Kept.insert (h : Kept w) (hfresh : w.Unused t inExchangeFor)
    (huser : ∀ t' ∈ w.tokens, t'.familyId = t.familyId → t'.userId = t.userId)
    (hclosed : t.familyId ∉ w.closed)
    (hexchange : ∀ id ∈ inExchangeFor, id ∉ w.exchanged ∧ id ∈ w.tokens.map Token.id ∧
      ∀ t' ∈ w.tokens, t'.id = id → ¬ t'.Active) : Kept (w.insert t inExchangeFor) := by
  have hids : (w.insert t inExchangeFor).tokens.map Token.id = w.tokens.map Token.id ++ [t.id] := by
    simp [World.insert]
  have hpresent : ∀ id ∈ (w.insert t inExchangeFor).exchanged, id ∈ w.tokens.map Token.id := by
    intro id hid
    rcases List.mem_append.mp hid with hnew | hold
    · exact (hexchange id (by simpa using hnew)).2.1
    · exact h.present id hold
  constructor
  · rw [hids]
    exact List.nodup_append.mpr
      ⟨h.ids, List.nodup_singleton _, fun a ha b hb hab => hfresh.1 (by simp_all)⟩
  · intro t₁ ht₁ t₂ ht₂ hfamily
    rcases List.mem_append.mp ht₁ with h₁ | h₁
    · rcases List.mem_append.mp ht₂ with h₂ | h₂
      · exact h.families t₁ h₁ t₂ h₂ hfamily
      · rw [List.mem_singleton.mp h₂] at hfamily ⊢
        exact huser t₁ h₁ hfamily
    · rw [List.mem_singleton.mp h₁] at hfamily ⊢
      rcases List.mem_append.mp ht₂ with h₂ | h₂
      · exact (huser t₂ h₂ hfamily.symm).symm
      · rw [List.mem_singleton.mp h₂]
  · cases inExchangeFor with
    | none => exact h.once
    | some id => exact List.nodup_cons.mpr ⟨(hexchange id rfl).1, h.once⟩
  · intro id hid
    rw [hids]
    exact List.mem_append_left _ (hpresent id hid)
  · intro id hid t' ht' htid
    rcases List.mem_append.mp ht' with hold | hnew
    · rcases List.mem_append.mp hid with hnewId | holdId
      · exact (hexchange id (by simpa using hnewId)).2.2 t' hold htid
      · exact h.inactive id holdId t' hold htid
    · rw [List.mem_singleton.mp hnew] at htid
      rw [← htid] at hid
      exact absurd (hpresent t.id hid) hfresh.1
  · intro familyId hfamily t' ht' htfamily
    rcases List.mem_append.mp ht' with hold | hnew
    · exact h.closed familyId hfamily t' hold htfamily
    · rw [List.mem_singleton.mp hnew] at htfamily
      rw [← htfamily] at hfamily
      exact absurd hfamily hclosed

theorem Relies.insert {b : Stage} (h : Relies w j b) (hfresh : w.Unused t inExchangeFor)
    (hother : ∀ id ∈ inExchangeFor, w.rotatedBy id ≠ some j) :
    Relies (w.insert t inExchangeFor) j b := by
  cases b with
  | idle => trivial
  | found t' => exact Known.insert h
  | rotated t' =>
    obtain ⟨hknown, hinactive, hexchanged, hclosed, hby⟩ := h
    refine ⟨hknown.insert, ?_, ?_, hclosed, hby⟩
    · intro t₀ ht₀ hid
      rcases List.mem_append.mp ht₀ with hold | hnew
      · exact hinactive t₀ hold hid
      · rw [List.mem_singleton.mp hnew] at hid
        obtain ⟨t₁, ht₁, hid₁, -⟩ := hknown
        exact absurd (List.mem_map.mpr ⟨t₁, ht₁, hid₁.trans hid.symm⟩) hfresh.1
    · intro hmem
      rcases List.mem_append.mp hmem with hnew | hold
      · exact hother t'.id (by simpa using hnew) hby
      · exact hexchanged hold

/-! ### One statement -/

/-- What a statement does to the request that makes it, and what it leaves the others. -/
structure Advances (w m : World) (i : ℕ) (b : Stage) (waiting : List Token) : Prop where
  kept : Kept m
  own : Relies m i b
  others : ∀ j b', j ≠ i → (∀ t, b' = .rotated t → t ∈ waiting) → Relies w j b' → Relies m j b'

variable {waiting : List Token} {b : Stage}

theorem rotate_advances (hkept : Kept w) (hknown : Known w t)
    (hactive : ∃ t' ∈ w.tokens, t'.id = t.id ∧ t'.Active) :
    Advances w (w.revoke i (.byId t.id) now .rotated) i (.rotated t) waiting where
  kept := hkept.revoke
  own := by
    obtain ⟨t', ht', hid, hactive⟩ := hactive
    refine ⟨hknown.revoke, ?_, ?_, ?_, Function.update_self ..⟩
    · intro t₁ ht₁ hid₁ hactive₁
      obtain ⟨t₀, -, -, hcovers, hid₀, -⟩ := active_of_revoke ht₁ hactive₁
      simp [Which.covers, hid₀, hid₁] at hcovers
    · intro hexchanged
      exact hkept.inactive t.id hexchanged t' ht' hid hactive
    · intro hclosed
      obtain ⟨t₀, ht₀, hid₀, hfamily₀, -⟩ := hknown
      have heq : t₀ = t' := hkept.eq_of_id ht₀ ht' (hid₀.trans hid.symm)
      subst heq
      exact hkept.closed t.familyId hclosed t₀ ht₀ hfamily₀ hactive
  others j b' _ _ hrelies := by
    apply hrelies.revoke
    · intro t' _ hcloses
      cases hcloses
    · rintro t' rfl hwhich -
      obtain ⟨-, hinactive, -⟩ := hrelies
      obtain ⟨t₁, ht₁, hid₁, hactive₁⟩ := hactive
      injection hwhich with hid
      exact hinactive t₁ ht₁ (hid₁.trans hid) hactive₁

theorem Timely.not_closes (h : Timely w waiting (.revoke which now reason)) (hkept : Kept w)
    (hknown : Known w t) (ht : t ∈ waiting) : t.familyId ∉ w.closes which := by
  intro hcloses
  unfold World.closes at hcloses
  split at hcloses
  · cases hcloses
  · exact h t ht (List.mem_singleton.mp hcloses)
  · obtain ⟨t₁, ht₁, hfamily₁⟩ := List.mem_map.mp hcloses
    obtain ⟨hmem, huser₁⟩ := List.mem_filter.mp ht₁
    obtain ⟨t₀, ht₀, -, hfamily₀, huser₀⟩ := hknown
    have huser := hkept.families t₀ ht₀ t₁ hmem (hfamily₀.trans hfamily₁.symm)
    exact h t ht (huser₀.symm.trans (huser.trans (of_decide_eq_true huser₁)))
  · cases hcloses

theorem revoke_advances (hkept : Kept w) (hrelies : Relies w i b) (hb : ∀ t, b ≠ .rotated t)
    (hplain : ∀ id, which = .byId id → reason ≠ .rotated)
    (htimely : Timely w waiting (.revoke which now reason)) :
    Advances w (w.revoke i which now reason) i b waiting where
  kept := hkept.revoke
  own := hrelies.revoke (fun t hbt => absurd hbt (hb t)) (fun t hbt => absurd hbt (hb t))
  others j b' _ hwaiting hrelies' := by
    apply hrelies'.revoke
    · rintro t rfl
      exact htimely.not_closes hkept hrelies'.1 (hwaiting t rfl)
    · intro t _ hwhich
      exact hplain t.id hwhich

theorem insert_new_advances (hkept : Kept w) (hfresh : w.Unused t none) :
    Advances w (w.insert t none) i .idle waiting where
  kept := by
    have hfamily := hfresh.2.2 rfl
    apply hkept.insert hfresh _ hfamily.2
    · intro id hid
      cases hid
    · intro t' ht' heq
      exact absurd (List.mem_map.mpr ⟨t', ht', heq⟩) hfamily.1
  own := trivial
  others j b' _ _ hrelies := hrelies.insert hfresh (fun id hid => by cases hid)

theorem insert_successor_advances {p : Token} (hkept : Kept w) (hrelies : Relies w i (.rotated p))
    (hfresh : w.Unused t (some p.id)) (hfamily : t.familyId = p.familyId)
    (huser : t.userId = p.userId) : Advances w (w.insert t (some p.id)) i .idle waiting where
  kept := by
    obtain ⟨⟨p', hp', hid, hpfamily, hpuser⟩, hinactive, hexchanged, hclosed, -⟩ := hrelies
    apply hkept.insert hfresh
    · intro t' ht' hfamily'
      have heq := hkept.families t' ht' p' hp' (by rw [hfamily', hfamily, hpfamily])
      rw [heq, hpuser, huser]
    · rw [hfamily]
      exact hclosed
    · intro id heq
      cases heq
      exact ⟨hexchanged, List.mem_map.mpr ⟨p', hp', hid⟩, hinactive⟩
  own := trivial
  others j b' hne _ hrelies' := by
    apply hrelies'.insert hfresh
    intro id heq hby
    cases heq
    rw [hrelies.2.2.2.2] at hby
    exact hne (Option.some.inj hby).symm

theorem read_advances (hkept : Kept w) (hrelies : Relies w i b) : Advances w w i b waiting :=
  ⟨hkept, hrelies, fun _ _ _ _ h => h⟩

theorem respond_advances {m : World} {o : Op} {r : Ans o} {b' : Stage} (hkept : Kept w)
    (hrelies : Relies w i b) (hallowed : b.Allowed o) (hm : w.respond i o r = some m)
    (hnext : b.next o r = some b') (htimely : Timely w waiting o) : Advances w m i b' waiting := by
  cases o with
  | findByHash tokenHash =>
    obtain ⟨hr, hm⟩ := Option.ite_none_right_eq_some.mp hm
    cases hm
    cases r with
    | none =>
      cases hnext
      exact read_advances hkept hrelies
    | some t =>
      cases hnext
      exact read_advances hkept ⟨t, List.mem_of_find?_eq_some hr.symm, rfl, rfl, rfl⟩
  | revoke which now reason =>
    cases hm
    by_cases hrotating : ∃ id, which = .byId id ∧ reason = .rotated
    · obtain ⟨id, rfl, rfl⟩ := hrotating
      obtain ⟨t, rfl, rfl⟩ := hallowed
      cases hnext
      exact rotate_advances hkept hrelies htimely
    · have hplain : ∀ id, which = .byId id → reason ≠ .rotated :=
        fun id hwhich hreason => hrotating ⟨id, hwhich, hreason⟩
      obtain ⟨hb, rfl⟩ := Stage.revoke_allowed hplain hallowed hnext
      exact revoke_advances hkept hrelies hb hplain htimely
  | insert t inExchangeFor =>
    obtain ⟨hfresh, hm⟩ := Option.ite_none_right_eq_some.mp hm
    cases hm
    cases inExchangeFor with
    | none =>
      cases hallowed
      cases hnext
      exact insert_new_advances hkept hfresh
    | some id =>
      obtain ⟨p, rfl, rfl, hfamily, huser⟩ := hallowed
      cases hnext
      exact insert_successor_advances hkept hrelies hfresh hfamily huser
  | findUser userId =>
    cases hm
    rw [Stage.findUser_next hnext]
    exact read_advances hkept hrelies
  | tenantArchived _ | touchLastUsed _ | generateRefreshToken | randomUUID | now =>
    cases hm
    cases hnext
    exact read_advances hkept hrelies

end Keeps

/-! ## Runs -/

section Runs

variable {hashRefreshToken : String → String} {s t : Requests} {e : Happening} {w : World}

theorem handle_moves : MovesStages (fun _ : Kind => Stage.discipline) World.stage handle := by
  intro _ w i o r w' hw
  obtain ⟨m, b, -, hb, rfl⟩ := handle_eq_some.mp hw
  exact ⟨b, hb, rfl⟩

abbrev OnTrack (s : Requests) : Prop :=
  Holds (Fresh World.stage .idle) (OnCourse (fun _ => Stage.discipline) World.stage Ends) s

/-- The table is kept, and every request in progress has what it relies on. -/
abbrev Sound (s : Requests) : Prop :=
  Holds (fun w n => Kept w ∧ Fresh World.stage .idle w n) (fun w i _ _ => Relies w i (w.stage i)) s

theorem Kept.withStage (h : Kept w) (stage : ℕ → Stage) : Kept { w with stage := stage } :=
  ⟨h.ids, h.families, h.once, h.present, h.inactive, h.closed⟩

theorem Relies.withStage {i : ℕ} {b : Stage} (h : Relies w i b) (stage : ℕ → Stage) :
    Relies { w with stage := stage } i b := by
  cases b with
  | idle => trivial
  | found t => exact h
  | rotated t => exact h

/-- The statement of a request in progress. -/
theorem act_advances {i : ℕ} {kind : Kind} {o : Op} {next : Ans o → Task Reply} {r : Ans o}
    (htrack : OnTrack s) (h : Sound s) (hi : s.procs[i]? = some ⟨kind, some (.call o next)⟩)
    (hw : handle s.world i o r = some w) (htimely : Timely s.world (pending s) o) :
    ∃ m b, w = { m with stage := Function.update s.world.stage i b } ∧
      Advances s.world m i b (pending s) := by
  obtain ⟨m, b, hm, hb, heq⟩ := handle_eq_some.mp hw
  have hallowed : (s.world.stage i).Allowed o := (htrack.2 i kind _ hi).1
  exact ⟨m, b, heq, respond_advances h.1.1 (h.2 i kind _ hi) hallowed hm hb htimely⟩

theorem sound_step (h : OnTrack s ∧ Sound s)
    (hs : Concurrent.step (Kind.run hashRefreshToken) handle s e = some t)
    (hok : Orderly s e t) : OnTrack t ∧ Sound t := by
  refine ⟨onCourse_step handle_moves (run_follows hashRefreshToken) h.1 hs, ?_⟩
  apply holds_step (C := fun s e t => OnTrack s ∧ Orderly s e t) _ _ _ h.2 hs ⟨h.1, hok⟩
  · rintro w n kind ⟨hkept, hfresh⟩
    refine ⟨⟨hkept, fun i hi => hfresh i (Nat.le_of_succ_le hi)⟩, ?_⟩
    rw [hfresh n (Nat.le_refl n)]
    trivial
  · rintro s i kind o next r w hsound hi hw ⟨htrack, hok⟩
    obtain ⟨m, b, rfl, hadvances⟩ := act_advances htrack hsound hi hw hok
    refine ⟨⟨hadvances.kept.withStage _, ?_⟩, ?_⟩
    · intro j hj
      have hlt := Lookup.lt_length_of_getElem? hi
      have hne : j ≠ i := by omega
      exact (Function.update_of_ne hne ..).trans (hsound.1.2 j hj)
    · simp only [Function.update_self]
      exact hadvances.own.withStage _
  · rintro s i kind o next r w hsound hi hw ⟨htrack, hok⟩ j kind' p hne hj
    obtain ⟨m, b, rfl, hadvances⟩ := act_advances htrack hsound hi hw hok
    simp only [Function.update_of_ne hne]
    apply Relies.withStage
    apply hadvances.others j _ hne _ (hsound.2 j kind' p hj)
    intro t ht
    exact mem_pending hj ht

structure AtStart (s : Requests) : Prop where
  procs : s.procs = []
  stage : ∀ i, s.world.stage i = .idle
  exchanged : s.world.exchanged = []
  closed : s.world.closed = []
  ids : (s.world.tokens.map Token.id).Nodup
  families : ∀ t ∈ s.world.tokens, ∀ t' ∈ s.world.tokens, t.familyId = t'.familyId →
    t.userId = t'.userId

theorem AtStart.sound (h : AtStart s) : OnTrack s ∧ Sound s := by
  have hkept : Kept s.world := by
    refine ⟨h.ids, h.families, ?_, ?_, ?_, ?_⟩
    · simp [h.exchanged]
    · simp [h.exchanged]
    · simp [h.exchanged]
    · simp [h.closed]
  refine ⟨holds_of_start h.procs h.stage, ⟨hkept, fun i _ => h.stage i⟩, ?_⟩
  intro i kind p hi
  simp [h.procs] at hi

/-- Any number of requests, interleaved in any way: where the run is orderly, every token is
exchanged at most once, and no token of a family that was revoked is active. -/
theorem exchanged_once_and_closed_for_good (hstart : AtStart s) {es : List Happening}
    (hok : Along (Concurrent.step (Kind.run hashRefreshToken) handle) Orderly s es)
    (h : exec (Concurrent.step (Kind.run hashRefreshToken) handle) s es = some t) :
    (∀ id, t.world.exchanged.count id ≤ 1) ∧
      ∀ familyId ∈ t.world.closed, ∀ token ∈ t.world.tokens, token.familyId = familyId →
        ¬ token.Active := by
  have hsound : OnTrack t ∧ Sound t :=
    exec_invariant_along _ (fun _ _ _ hs hstep hok => sound_step hs hstep hok) hstart.sound hok h
  have hkept : Kept t.world := hsound.2.1.1
  exact ⟨List.nodup_iff_count_le_one.mp hkept.once, hkept.closed⟩

end Runs

/-! ## Refreshes that meet -/

def Finished (s : Requests) : Prop :=
  ∀ p ∈ s.procs, p.rest = none ∨ ∃ reply, p.rest = some (.pure reply)

def firstToken : Token where
  id := "tok-1"
  userId := "usr-1"
  familyId := "fam-1"
  tokenHash := "secret-1"
  expiresAt := 100
  revokedAt := none
  revokedReason := none

def signedIn : Requests where
  world :=
    { tokens := [firstToken], exchanged := [], closed := [], rotatedBy := fun _ => none
      stage := fun _ => .idle }
  procs := []

theorem signedIn_atStart : AtStart signedIn where
  procs := rfl
  stage _ := rfl
  exchanged := rfl
  closed := rfl
  ids := by decide
  families := by decide

def validates (i : ℕ) : List Happening :=
  [.act i (.findByHash "secret-1") (some firstToken), .act i .now (0 : ℤ),
    .act i (.findUser "usr-1") (some ⟨"usr-1", true, none⟩)]

def tokenOf (id familyId secret : String) : Token where
  id := id
  userId := "usr-1"
  familyId := familyId
  tokenHash := secret
  expiresAt := 86400000
  revokedAt := none
  revokedReason := none

def issues (i : ℕ) (t : Token) (inExchangeFor : Option String) : List Happening :=
  [.act i .now (0 : ℤ), .act i (.insert t inExchangeFor) ()]

def rotates (i : ℕ) (id secret : String) : List Happening :=
  [.act i .now (0 : ℤ), .act i (.revoke (.byId "tok-1") 0 .rotated) (),
    .act i .generateRefreshToken secret, .act i .randomUUID id] ++
    issues i (tokenOf id "fam-1" secret) (some "tok-1") ++ [.act i (.touchLastUsed "tok-1") ()]

def changesPassword (i : ℕ) : List Happening :=
  [.act i .now (0 : ℤ), .act i (.revoke (.allOf "usr-1" none) 0 .passwordChange) (),
    .act i .generateRefreshToken "secret-3", .act i .randomUUID "tok-3",
    .act i .randomUUID "fam-2"] ++ issues i (tokenOf "tok-3" "fam-2" "secret-3") none

def twoRefreshes : List Happening :=
  [.spawn (.refresh "secret-1"), .spawn (.refresh "secret-1")] ++ validates 0 ++ validates 1 ++
    rotates 0 "tok-2" "secret-2" ++ rotates 1 "tok-3" "secret-3"

def refreshThroughChange : List Happening :=
  [.spawn (.refresh "secret-1"), .spawn (.changePassword "usr-1")] ++ validates 0 ++
    changesPassword 1 ++ rotates 0 "tok-2" "secret-2"

theorem refreshes_that_meet : (¬ ∀ (s t : Requests) (es : List Happening), AtStart s →
      exec (Concurrent.step (Kind.run id) handle) s es = some t →
        ∀ id, t.world.exchanged.count id ≤ 1) ∧
    ¬ ∀ (s t : Requests) (es : List Happening), AtStart s →
      exec (Concurrent.step (Kind.run id) handle) s es = some t → Finished t →
        ∀ familyId ∈ t.world.closed, ∀ token ∈ t.world.tokens, token.familyId = familyId →
          ¬ token.Active := by
  constructor
  · intro hall
    have hrun : ∃ t, exec (Concurrent.step (Kind.run id) handle) signedIn twoRefreshes = some t ∧
        t.world.exchanged = ["tok-1", "tok-1"] := ⟨_, rfl, rfl⟩
    obtain ⟨t, ht, hexchanged⟩ := hrun
    have hle := hall signedIn t twoRefreshes signedIn_atStart ht "tok-1"
    rw [hexchanged] at hle
    exact absurd hle (by decide)
  · intro hall
    have hrun : ∃ t, exec (Concurrent.step (Kind.run id) handle) signedIn refreshThroughChange =
        some t ∧ Finished t ∧ t.world.closed = ["fam-1"] ∧
        tokenOf "tok-2" "fam-1" "secret-2" ∈ t.world.tokens := by
      refine ⟨_, rfl, ?_, rfl, ?_⟩
      · intro p hp
        rcases List.mem_cons.mp hp with rfl | hp
        · exact .inr ⟨_, rfl⟩
        · cases List.mem_singleton.mp hp
          exact .inr ⟨_, rfl⟩
      · decide
    obtain ⟨t, ht, hfinished, hclosed, hmem⟩ := hrun
    exact hall signedIn t refreshThroughChange signedIn_atStart ht hfinished "fam-1"
      (by rw [hclosed]; exact List.mem_singleton_self _) _ hmem rfl rfl

def refreshThenReplay : List Happening :=
  [.spawn (.refresh "secret-1"), .spawn (.refresh "secret-1")] ++ validates 0 ++
    rotates 0 "tok-2" "secret-2" ++
    [.act 1 (.findByHash "secret-1") (some (firstToken.revoke 0 .rotated)), .act 1 .now (5 : ℤ),
      .act 1 (.revoke (.family "fam-1") 5 .reuseDetected) ()]

theorem exchanged_once_and_closed_for_good_replay :
    ∃ t, exec (Concurrent.step (Kind.run id) handle) signedIn refreshThenReplay = some t ∧
      t.world.exchanged = ["tok-1"] ∧ t.world.closed = ["fam-1"] ∧
      (∀ id, t.world.exchanged.count id ≤ 1) ∧
      ∀ familyId ∈ t.world.closed, ∀ token ∈ t.world.tokens, token.familyId = familyId →
        ¬ token.Active := by
  have hok : Along (Concurrent.step (Kind.run id) handle) Orderly signedIn refreshThenReplay := by
    decide
  exact ⟨_, rfl, rfl, rfl, exchanged_once_and_closed_for_good signedIn_atStart hok rfl⟩

end Insula.RefreshTokens
