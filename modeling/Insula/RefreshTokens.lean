import Insula.Stages
import Mathlib.Data.Int.Notation

/-!
# Refresh tokens

`auth/refresh-token-service.ts` and the requests that use it. A token is looked up by its hash; a
refresh revokes the token it was given as `rotated` and inserts a successor of the same family; a
rotated token that comes again revokes its family. Password changes, administrators and the
archiving of a tenant revoke all tokens of a user. Requests run one statement at a time, in any
order, and may stop between any two of them.
-/

namespace Insula.RefreshTokens

open Program (perform)

inductive RevokedReason
  | logout
  | rotated
  | reuseDetected
  | passwordChange
  | adminRevoke
  | tenantArchived
  deriving DecidableEq

structure Token where
  id : String
  userId : String
  familyId : String
  tokenHash : String
  expiresAt : ℤ
  revokedAt : Option ℤ
  revokedReason : Option RevokedReason
  deriving DecidableEq

namespace Token

def Active (t : Token) : Prop := t.revokedAt = none

instance (t : Token) : Decidable t.Active := inferInstanceAs (Decidable (_ = _))

def revoke (t : Token) (now : ℤ) (reason : RevokedReason) : Token :=
  { t with revokedAt := some now, revokedReason := some reason }

end Token

def refreshTokenTtlSeconds : ℤ := 24 * 60 * 60

structure User where
  id : String
  active : Bool
  tenantId : Option String

inductive Which
  | byId (id : String)
  | family (familyId : String)
  | allOf (userId : String) (exceptSessionId : Option String)
  deriving DecidableEq

def Which.covers : Which → Token → Bool
  | byId id, t => t.id = id
  | family familyId, t => t.familyId = familyId
  | allOf userId exceptSessionId, t => t.userId = userId ∧ exceptSessionId ≠ some t.id

inductive Op
  | findByHash (tokenHash : String)
  /-- `revoked_at IS NULL` is a condition of every such update. -/
  | revoke (which : Which) (now : ℤ) (reason : RevokedReason)
  /-- The id of the token that the new one is given for. -/
  | insert (token : Token) (inExchangeFor : Option String)
  | findUser (userId : String)
  | tenantArchived (tenantId : String)
  | touchLastUsed (id : String)
  | generateRefreshToken
  | randomUUID
  | now
  deriving DecidableEq

abbrev Ans : Op → Type
  | .findByHash _ => Option Token
  | .revoke _ _ _ => Unit
  | .insert _ _ => Unit
  | .findUser _ => Option User
  | .tenantArchived _ => Bool
  | .touchLastUsed _ => Unit
  | .generateRefreshToken => String
  | .randomUUID => String
  | .now => ℤ

abbrev Task := Program Op Ans

abbrev ask (o : Op) : Task (Ans o) := perform o

inductive Failure
  | notFound
  | expired
  | revoked
  | reuseDetected
  deriving DecidableEq

inductive Reply
  | issued (token : String)
  | invalid (reason : Failure)
  | rejected
  | done
  deriving DecidableEq

/-! ## The service -/

section Service

variable (hashRefreshToken : String → String)

def validateRefreshToken (presentedToken : String) : Task (Except Failure Token) := do
  match ← ask (.findByHash (hashRefreshToken presentedToken)) with
  | none => return .error .notFound
  | some row =>
    let now ← ask .now
    if ¬ row.Active then
      if row.revokedReason = some .rotated then
        ask (.revoke (.family row.familyId) now .reuseDetected)
        return .error .reuseDetected
      else return .error .revoked
    else if row.expiresAt < now then return .error .expired
    else return .ok row

def revokeRefreshTokenById (id : String) (reason : RevokedReason) : Task Unit := do
  let now ← ask .now
  ask (.revoke (.byId id) now reason)

def revokeAllUserRefreshTokens (userId : String) (reason : RevokedReason)
    (exceptSessionId : Option String) : Task Unit := do
  let now ← ask .now
  ask (.revoke (.allOf userId exceptSessionId) now reason)

def issueRefreshToken (userId : String) (predecessor : Option Token) : Task String := do
  let token ← ask .generateRefreshToken
  let id ← ask .randomUUID
  let familyId ← match predecessor with
    | some t => pure t.familyId
    | none => ask .randomUUID
  let now ← ask .now
  ask (.insert
    { id, userId, familyId
      tokenHash := hashRefreshToken token
      expiresAt := now + refreshTokenTtlSeconds * 1000
      revokedAt := none
      revokedReason := none } (predecessor.map Token.id))
  return token

end Service

/-! ## The requests -/

section Requests

variable (hashRefreshToken : String → String)

def archived (user : User) : Task Bool :=
  match user.tenantId with
  | some tenantId => ask (.tenantArchived tenantId)
  | none => pure false

def rotate (user : User) (presented : Token) : Task Reply := do
  revokeRefreshTokenById presented.id .rotated
  let issued ← issueRefreshToken hashRefreshToken user.id (some presented)
  ask (.touchLastUsed presented.id)
  return .issued issued

def refresh (presentedToken : String) : Task Reply := do
  match ← validateRefreshToken hashRefreshToken presentedToken with
  | .error reason => return .invalid reason
  | .ok presented =>
    match ← ask (.findUser presented.userId) with
    | none =>
      revokeRefreshTokenById presented.id .adminRevoke
      return .rejected
    | some user =>
      if ¬ user.active then
        revokeRefreshTokenById presented.id .adminRevoke
        return .rejected
      else if ← archived user then
        revokeRefreshTokenById presented.id .adminRevoke
        return .rejected
      else rotate hashRefreshToken user presented

def logout (presentedToken : String) : Task Reply := do
  match ← validateRefreshToken hashRefreshToken presentedToken with
  | .error _ => return .done
  | .ok presented =>
    revokeRefreshTokenById presented.id .logout
    return .done

def signIn (userId : String) : Task Reply := do
  let issued ← issueRefreshToken hashRefreshToken userId none
  return .issued issued

def changePassword (userId : String) : Task Reply := do
  revokeAllUserRefreshTokens userId .passwordChange none
  let issued ← issueRefreshToken hashRefreshToken userId none
  return .issued issued

def revokeAll (userId : String) (reason : RevokedReason) (exceptSessionId : Option String) :
    Task Reply := do
  revokeAllUserRefreshTokens userId reason exceptSessionId
  return .done

def revokeSession (id : String) : Task Reply := do
  revokeRefreshTokenById id .adminRevoke
  return .done

end Requests

inductive Kind
  | refresh (presentedToken : String)
  | logout (presentedToken : String)
  | signIn (userId : String)
  | changePassword (userId : String)
  | revokeAll (userId : String) (reason : RevokedReason) (exceptSessionId : Option String)
  | revokeSession (id : String)

def Kind.run (hashRefreshToken : String → String) : Kind → Task Reply
  | refresh presentedToken => RefreshTokens.refresh hashRefreshToken presentedToken
  | logout presentedToken => RefreshTokens.logout hashRefreshToken presentedToken
  | signIn userId => RefreshTokens.signIn hashRefreshToken userId
  | changePassword userId => RefreshTokens.changePassword hashRefreshToken userId
  | revokeAll userId reason exceptSessionId =>
    RefreshTokens.revokeAll userId reason exceptSessionId
  | revokeSession id => RefreshTokens.revokeSession id

end Insula.RefreshTokens
