import Insula.ImageReference
import Insula.Program
import Insula.SsrfGuard

/-!
# Probes of image registries

`update-checker` and `image-digest`: whether a newer tag of an image exists, or its tag was
published again. The registry is asked over HTTPS; it may answer with a challenge, which names where
a token is to be had.
-/

namespace Insula.CustomDeployments

open Javascript Program
open SsrfGuard (Url https)

/-- The URL parser, a URL's text with parameters of a query set, which moves no host, and the names
in lower case that the resolver of a pod completes to those of services, as `service.namespace`. -/
structure Urls where
  parse : Text → Option Url
  setParams : Text → List (Text × Text) → Text
  parse_setParams : ∀ u params, parse (setParams u params) = parse u
  completed : Text → Prop

/-! ## Hosts that are not asked -/

/-- `BLOCKED_REALM_HOST_RE`, of a text in lower case. -/
def blockedRealmHost (host : Text) : Bool :=
  host = "localhost".toList || host = "0.0.0.0".toList || host = "::1".toList ||
    host = "[::1]".toList ||
    (match host.splitOn '.' with
      | [a, b, c, d] =>
        digits c && digits d &&
          ((a = "127".toList && digits b) || (a = "10".toList && digits b) ||
            (a = "192".toList && b = "168".toList) ||
            (a = "172".toList && ["16", "17", "18", "19", "20", "21", "22", "23", "24", "25", "26",
              "27", "28", "29", "30", "31"].any fun second => b = second.toList) ||
            (a = "169".toList && b = "254".toList))
      | _ => false) ||
    (match host with
      | ['f', 'c', x, y, ':'] => lowerHex x && lowerHex y
      | ['f', 'e', x, y, ':'] => (x = '8' || x = '9' || x = 'a' || x = 'b') && lowerHex y
      | _ => false)

def blockedRealmHostSuffixes : List Text :=
  [".svc".toList, ".svc.cluster.local".toList, ".cluster.local".toList, ".local".toList]

def blockedHost (hostname : Text) : Bool :=
  let host := SsrfGuard.toLowerCase hostname
  blockedRealmHost host ||
    blockedRealmHostSuffixes.any fun suffix => host = suffix.drop 1 || suffix.isSuffixOf host

section Challenge

def wordFirst (word s : Text) : Bool :=
  word.isPrefixOf (SsrfGuard.toLowerCase s) && ! (s.drop word.length).head?.any wordChar

def basicRegex (wwwAuth : Text) : Bool := wordFirst "basic".toList (wwwAuth.dropWhile isSpace)

/-- `replace(/^[Bb]earer\s+/, '')`. -/
def dropBearer (header : Text) : Text :=
  match header with
  | c :: rest =>
    let after := rest.drop 5
    if (c = 'B' ∨ c = 'b') ∧ "earer".toList <+: rest ∧ after.head?.any isSpace then
      after.dropWhile isSpace
    else header
  | [] => []

/-- `split(/,(?=(?:[^"]*"[^"]*")*[^"]*$)/)`: at the commas with an even number of quotes after. -/
def splitUnquoted : Text → List Text
  | [] => [[]]
  | c :: rest =>
    let parts := splitUnquoted rest
    if c = ',' ∧ rest.count '"' % 2 = 0 then [] :: parts else parts.modifyHead (c :: ·)

def unquote (v : Text) : Text :=
  if v.head? = some '"' ∧ v.getLast? = some '"' then v.tail.dropLast else v

def challengeParams (header : Text) : List (Text × Text) :=
  (splitUnquoted (dropBearer header)).filterMap fun p =>
    (cutFirst '=' p).map fun (k, v) => (SsrfGuard.toLowerCase (trim k), unquote (trim v))

structure Challenge where
  realm : Option Text
  service : Option Text
  scope : Option Text
  deriving DecidableEq

def parseChallenge (header : Text) : Challenge :=
  let value key := ((challengeParams header).reverse.find? fun p => p.1 = key).map Prod.snd
  { realm := value "realm".toList, service := value "service".toList, scope := value "scope".toList }

end Challenge

/-! ## Requests -/

structure Credential where
  username : Text
  password : Text
  deriving DecidableEq

inductive Authorization
  | basic (credential : Credential)
  | bearer (token : Text)
  deriving DecidableEq

inductive Method
  | get
  | head
  deriving DecidableEq

structure Request where
  url : Text
  method : Method
  accept : Option Text
  authorization : Option Authorization
  deriving DecidableEq

structure Response where
  status : ℕ
  wwwAuthenticate : Option Text
  dockerContentDigest : Option Text
  /-- `tags` of a body in JSON; none where the body is no JSON. -/
  tags : Option (List Text)
  /-- `token ?? access_token` of a body in JSON. -/
  token : Option Text
  deriving DecidableEq

structure UpdateCheckResult where
  status : UpdateCheckStatus
  current : Option Text
  latest : Option Text
  reason : Option String
  deriving DecidableEq

inductive Op
  | fetch (request : Request)
  | readCache (ref : ParsedImageReference) (currentTag : Text)
  | writeCache (ref : ParsedImageReference) (currentTag : Text) (result : UpdateCheckResult)
  | runningImageId
  deriving DecidableEq

abbrev CachedResult := UpdateCheckResult × Bool

def Val : Op → Type
  | .fetch _ => Response
  | .readCache _ _ => Option CachedResult
  | .writeCache _ _ _ => Unit
  | .runningImageId => Option Text

abbrev Task (α : Type) := Attempt String Op Val α

abbrev ask (o : Op) : Task (Val o) := Program.request o

def timedFetch (request : Request) : Task Response := ask (.fetch request)

def readCache (ref : ParsedImageReference) (currentTag : Text) : Task (Option CachedResult) :=
  ask (.readCache ref currentTag)

def writeCache (ref : ParsedImageReference) (currentTag : Text) (result : UpdateCheckResult) :
    Task Unit :=
  ask (.writeCache ref currentTag result)

def readRunningImageId : Task (Option Text) := ask .runningImageId

section Probes

variable (urls : Urls)

def isRealmUrlBlocked (realm : Text) : Bool :=
  match urls.parse realm with
  | none => true
  | some url => url.protocol ≠ https || blockedHost url.host.hostname

def fetchBearerToken (wwwAuth : Text) (authCreds : Option Credential) : Task (Option Text) :=
  let params := parseChallenge wwwAuth
  match params.realm.filter (· ≠ []) with
  | none => pure none
  | some realm =>
    if isRealmUrlBlocked urls realm then pure none
    else do
      let query :=
        ((params.service.filter (· ≠ [])).map fun v => ("service".toList, v)).toList ++
          ((params.scope.filter (· ≠ [])).map fun v => ("scope".toList, v)).toList
      let res ← timedFetch
        { url := urls.setParams realm query, method := .get, accept := none,
          authorization := authCreds.map .basic }
      return if res.status ≠ 200 then none else res.token

def answerChallenge (wwwAuth : Text) (authCreds : Option Credential) : Task (Option Authorization) :=
  if basicRegex wwwAuth then pure (authCreds.map .basic)
  else do
    let token ← fetchBearerToken urls wwwAuth authCreds
    return (token.filter (· ≠ [])).map .bearer

def indexHost (ref : ParsedImageReference) : Text :=
  if ref.registryHost = "docker.io".toList then "registry-1.docker.io".toList else ref.registryHost

def hexUpper (n : ℕ) : Char := (Nat.digitChar n).toUpper

def encodeURIComponent (s : Text) : Text :=
  s.flatMap fun c =>
    if c.isAlphanum ∨ c ∈ "-_.!~*'()".toList then [c]
    else (String.utf8EncodeChar c).flatMap fun b =>
      ['%', hexUpper (b.toNat / 16), hexUpper (b.toNat % 16)]

def tagsUrl (ref : ParsedImageReference) : Text :=
  "https://".toList ++ indexHost ref ++ "/v2/".toList ++ ref.repository ++ "/tags/list".toList

def manifestUrl (ref : ParsedImageReference) (tag : Text) : Text :=
  "https://".toList ++ indexHost ref ++ "/v2/".toList ++ ref.repository ++ "/manifests/".toList ++
    encodeURIComponent tag

structure DigestResolution where
  digest : Option Text
  reason : Option String
  deriving DecidableEq

def manifestAccept : Text :=
  ", ".toList.intercalate ["application/vnd.oci.image.index.v1+json".toList,
    "application/vnd.docker.distribution.manifest.list.v2+json".toList,
    "application/vnd.oci.image.manifest.v1+json".toList,
    "application/vnd.docker.distribution.manifest.v2+json".toList]

def readManifest (url : Text) (authCreds : Option Credential) (method : Method) :
    Task (Option Response) :=
  tryCatch
    (do
      let first ← timedFetch
        { url := url, method := method, accept := some manifestAccept, authorization := none }
      if first.status ≠ 401 then return some first
      else
        match first.wwwAuthenticate.filter (· ≠ []) with
        | none => return some first
        | some wwwAuth => do
            let authorization ← answerChallenge urls wwwAuth authCreds
            match authorization with
            | none => return some first
            | some authorization => do
                let second ← timedFetch
                  { url := url, method := method, accept := some manifestAccept,
                    authorization := some authorization }
                return some second)
    fun _ => pure none

def digestOf (res : Response) : DigestResolution :=
  if res.status = 401 ∨ res.status = 403 then
    ⟨none, some ("registry denied access (" ++ toString res.status ++ ")")⟩
  else if res.status = 404 then ⟨none, some "tag not found (404)"⟩
  else if res.status = 429 then ⟨none, some "registry rate limited (429)"⟩
  else if res.status ≥ 500 then ⟨none, some ("registry " ++ toString res.status)⟩
  else if res.status ≠ 200 then ⟨none, some ("unexpected status " ++ toString res.status)⟩
  else
    match res.dockerContentDigest.filter (· ≠ []) with
    | none => ⟨none, some "registry omitted Docker-Content-Digest"⟩
    | some digest =>
      let normalised := SsrfGuard.toLowerCase (trim digest)
      if digestRegex normalised then ⟨some normalised, none⟩
      else ⟨none, some "registry returned a malformed digest"⟩

def readTag (url : Text) (authCreds : Option Credential) : Task (Option Response) := do
  let res ← readManifest urls url authCreds .head
  if res.any fun r => r.status = 405 ∨ r.status = 501 ∨ r.status = 400 then
    readManifest urls url authCreds .get
  else pure res

def resolveTagDigest (ref : ParsedImageReference) (tag : Text) (authCreds : Option Credential) :
    Task DigestResolution :=
  let url := manifestUrl ref tag
  if isRealmUrlBlocked urls url then
    pure ⟨none, some "registry host is not a public address"⟩
  else do
    let res ← readTag urls url authCreds
    match res with
    | none => return ⟨none, some "registry unreachable or timed out"⟩
    | some res => return digestOf res

def unknownResult (current : Option Text) (reason : String) : UpdateCheckResult where
  status := .unknown
  current := current
  latest := none
  reason := some reason

def result (status : UpdateCheckStatus) (current latest : Option Text) (reason : Option String) :
    UpdateCheckResult where
  status := status
  current := current
  latest := latest
  reason := reason

def resultOf (currentTag : Text) (currentSemver : SemverVersion) (response : Response) :
    UpdateCheckResult :=
  let unknown := unknownResult (some currentTag)
  if response.status = 429 then unknown "registry rate limited (429)"
  else if response.status = 404 then unknown "registry returned 404 for tags/list"
  else if response.status ≥ 500 then
    unknown ("registry " ++ toString response.status ++ " on tags/list")
  else if response.status ≠ 200 then
    unknown ("unexpected registry status " ++ toString response.status)
  else
    match response.tags with
    | none => unknown "malformed tags/list response"
    | some [] => result .noUpdate (some currentTag) none (some "registry returned empty tag list")
    | some tags =>
      match pickLatestStable tags currentSemver with
      | none => result .noUpdate (some currentTag) none none
      | some (tag, version) =>
        result (classifyBump currentSemver version) (some currentTag) (some tag) none

def probeRegistry (ref : ParsedImageReference) (currentTag : Text) (currentSemver : SemverVersion)
    (authCreds : Option Credential) : Task UpdateCheckResult :=
  let url := tagsUrl ref
  if isRealmUrlBlocked urls url then
    pure (unknownResult (some currentTag) "registry host is not a public address")
  else do
    let first ← timedFetch { url := url, method := .get, accept := none, authorization := none }
    if first.status = 401 then
      match first.wwwAuthenticate.filter (· ≠ []) with
      | none => return unknownResult (some currentTag) "registry 401 with no auth realm"
      | some wwwAuth => do
          let authorization ← answerChallenge urls wwwAuth authCreds
          match authorization with
          | none => return unknownResult (some currentTag) "auth realm did not return a token"
          | some authorization => do
              let second ← timedFetch
                { url := url, method := .get, accept := none, authorization := some authorization }
              return resultOf currentTag currentSemver second
    else return resultOf currentTag currentSemver first

structure CheckUpdateOptions where
  image : Text
  authCreds : Option Credential
  runningImageId : Option Text
  resolveRunningImageId : Bool
  force : Bool

def readShared (options : CheckUpdateOptions) (ref : ParsedImageReference) (currentTag : Text) :
    Task (Option UpdateCheckResult) :=
  if options.force = false ∧ options.authCreds = none then do
    let cached ← readCache ref currentTag
    return (cached.filter Prod.snd).map Prod.fst
  else pure none

def writeShared (options : CheckUpdateOptions) (ref : ParsedImageReference) (currentTag : Text)
    (result : UpdateCheckResult) : Task Unit :=
  if options.authCreds = none then writeCache ref currentTag result else pure ()

def checkSemverUpdate (ref : ParsedImageReference) (currentTag : Text)
    (currentSemver : SemverVersion) (options : CheckUpdateOptions) : Task UpdateCheckResult := do
  match ← readShared options ref currentTag with
  | some cached => return cached
  | none => do
      let probe ← tryCatch (probeRegistry urls ref currentTag currentSemver options.authCreds)
        fun err => pure (unknownResult (some currentTag) err)
      if probe.status ≠ .unknown then do
        writeShared options ref currentTag probe
        return probe
      else return probe

def extractDigest (imageId : Text) : Option Text :=
  match imageId.tails.reverse.find? fun s => "sha256:".toList.isPrefixOf s with
  | none => none
  | some s =>
    let candidate := SsrfGuard.toLowerCase (trim s)
    if digestRegex candidate then some candidate else none

def digestChanged (runningImageId registryDigest : Option Text) : Bool :=
  match runningImageId.filter (· ≠ []), registryDigest.filter (· ≠ []) with
  | some runningImageId, some registryDigest =>
    match extractDigest runningImageId with
    | none => false
    | some running => running ≠ SsrfGuard.toLowerCase (trim registryDigest)
  | _, _ => false

def shortDigest (digest : Text) : Text :=
  if digest.length > 19 then digest.take 19 ++ ['…'] else digest

def digestResult (currentTag : Text) (running : Option Text) (registryDigest : Text) :
    UpdateCheckResult :=
  match running.filter (· ≠ []) with
  | none => unknownResult (some currentTag) ("not semver — cannot tell if the registry tag moved " ++
      "until the pod’s running digest is observed")
  | some running =>
    if digestChanged (some running) (some registryDigest) then
      result .digest (some currentTag) (some (shortDigest registryDigest))
        (some "the registry re-published this tag with a new image")
    else result .noUpdate (some currentTag) none none

def runningDigest (options : CheckUpdateOptions) : Task (Option Text) :=
  if options.runningImageId.isNone ∧ options.resolveRunningImageId then readRunningImageId
  else pure options.runningImageId

def checkDigestUpdate (ref : ParsedImageReference) (currentTag : Text)
    (options : CheckUpdateOptions) : Task UpdateCheckResult := do
  let running ← runningDigest options
  let cached ← readShared options ref currentTag
  match (cached.bind UpdateCheckResult.latest).filter (· ≠ []) with
  | some registryDigest => return digestResult currentTag running registryDigest
  | none => do
      let res ← resolveTagDigest urls ref currentTag options.authCreds
      match res.digest with
      | none =>
        let reason := res.reason.getD "could not resolve the registry digest"
        return unknownResult (some currentTag) reason
      | some registryDigest => do
          writeShared options ref currentTag
            (result .digest (some currentTag) (some registryDigest) none)
          return digestResult currentTag running registryDigest

def ParsedImageReference.currentTag (ref : ParsedImageReference) : Text :=
  ref.tag.getD "latest".toList

def checkForUpdate (options : CheckUpdateOptions) : Task UpdateCheckResult :=
  match parseImageReference options.image with
  | none => pure (unknownResult none "unparseable image reference")
  | some ref =>
    match parseSemver ref.currentTag with
    | some currentSemver => checkSemverUpdate urls ref ref.currentTag currentSemver options
    | none => checkDigestUpdate urls ref ref.currentTag options

end Probes

end Insula.CustomDeployments
