import Insula.Quantities
import Insula.SsrfGuard

/-!
# Cloning a site

`handleCloneSite` of `file-manager/server.mjs`: a crawl of pages, then a loop over the assets they
refer to. The style sheets among these may refer to further ones, which are put at the end of the
list that the loop walks over. The remote site, the disk and the client that may go away are an
environment that answers each request in its own way. What the files contain and what the client is
told is left out.
-/

namespace Insula.CloneSite

open IpText (Text decimal)
open Javascript (isSpace)
open Quantities (Number endsWith)
open SsrfGuard (httpScheme urlHostIsInternalLiteral)

/-! ## Patterns -/

structure Piece where
  holds : Char → Bool
  least : ℕ := 1
  most : Option ℕ := some 1
  captured : Bool := false

def matchPieces : List Piece → Text → Option (Text × ℕ)
  | [], _ => some ([], 0)
  | p :: ps, s =>
    let run := (s.takeWhile p.holds).length
    let longest := match p.most with | none => run | some most => min most run
    ((List.range (longest + 1 - p.least)).map (longest - ·)).findSome? fun k =>
      (matchPieces ps (s.drop k)).map fun (group, n) => (if p.captured then s.take k else group, k + n)

structure Match where
  whole : Text
  group : Text

/-- `matchAll` of a global pattern that is one of some alternatives, behind so many characters. -/
def matchAll (alternatives : List (List Piece)) : ℕ → Text → List Match
  | _, [] => []
  | skip + 1, _ :: s => matchAll alternatives skip s
  | 0, c :: s =>
    match alternatives.findSome? (matchPieces · (c :: s)) with
    | none => matchAll alternatives 0 s
    | some (group, n) => ⟨(c :: s).take n, group⟩ :: matchAll alternatives (n - 1) s

def letter (c : Char) : Piece := { holds := fun d => d.toLower == c }

def word (w : Text) : List Piece := w.map letter

def blanks : Piece := { holds := isSpace, least := 0, most := none }

def isQuote (c : Char) : Bool := c == '"' || c == '\''

def quote : Piece := { holds := isQuote }

def optionalQuote : Piece := { holds := isQuote, least := 0 }

def group (holds : Char → Bool) : Piece := { holds, most := none, captured := true }

/-- `/href\s*=\s*["']([^"'#]+)/gi`. -/
def hrefs : List (List Piece) :=
  [word ['h', 'r', 'e', 'f'] ++ [blanks, letter '=', blanks, quote, group fun c =>
    !isQuote c && c != '#']]

/-- `/<link[^>]+href\s*=\s*["']([^"']+)["'][^>]*>/gi`. -/
def linkTags : List (List Piece) :=
  [word ['<', 'l', 'i', 'n', 'k'] ++ { holds := (· != '>'), most := none } ::
    word ['h', 'r', 'e', 'f'] ++ [blanks, letter '=', blanks, quote, group fun c => !isQuote c, quote,
      { holds := (· != '>'), least := 0, most := none }, letter '>']]

/-- `/<script[^>]+src\s*=\s*["']([^"']+)["']/gi`. -/
def scriptTags : List (List Piece) :=
  [word ['<', 's', 'c', 'r', 'i', 'p', 't'] ++
    { holds := (· != '>'), most := none } :: word ['s', 'r', 'c'] ++
    [blanks, letter '=', blanks, quote, group fun c => !isQuote c, quote]]

/-- `/(?:src|srcset|poster)\s*=\s*["']([^"'\s,]+)/gi`. -/
def sources : List (List Piece) :=
  [['s', 'r', 'c'], ['s', 'r', 'c', 's', 'e', 't'], ['p', 'o', 's', 't', 'e', 'r']].map fun w =>
    word w ++ [blanks, letter '=', blanks, quote, group fun c => !isQuote c && !isSpace c && c != ',']

/-- `/url\s*\(\s*["']?([^"')]+)["']?\s*\)/gi`. -/
def cssUrls : List (List Piece) :=
  [word ['u', 'r', 'l'] ++ [blanks, letter '(', blanks, optionalQuote,
    group fun c => !isQuote c && c != ')', optionalQuote, blanks, letter ')']]

def startsWith (t head : Text) : Bool := head.isPrefixOf t

def includes (t part : Text) : Bool := t.tails.any part.isPrefixOf

/-! ## Addresses -/

structure Url where
  href : Text
  origin : Text
  pathname : Text

structure Urls where
  read : Text → Option Url
  /-- `new URL(reference, base).href`. -/
  resolve : Text → Text → Option Text
  /-- The text of a URL is read again. -/
  read_resolve : ∀ reference base u, resolve reference base = some u → (read u).isSome
  isIP : Text → ℕ
  parse : Text → Option SsrfGuard.Url

variable (urls : Urls)

def bare (u : Text) : Text := (u.takeWhile (· != '?')).takeWhile (· != '#')

def indexHtml : Text := ['i', 'n', 'd', 'e', 'x', '.', 'h', 't', 'm', 'l']

def localName (pathname : Text) : Text :=
  let p := if endsWith pathname ['/'] then pathname ++ indexHtml else pathname
  let p := if !p.contains '.' && !endsWith p ['/'] then p ++ '/' :: indexHtml else p
  if startsWith p ['/'] then p.drop 1 else p

def urlToPath (u : Text) : Option Text := (urls.read u).map fun parsed => localName parsed.pathname

def dataScheme : Text := ['d', 'a', 't', 'a', ':']

structure Links where
  pages : List Text
  assets : List Text

def resolved (pattern : List (List Piece)) (t pageUrl : Text) : List Text :=
  (matchAll pattern 0 t).filterMap fun m => urls.resolve m.group pageUrl

def isStylesheet (m : Match) : Bool :=
  includes m.whole ['s', 't', 'y', 'l', 'e', 's', 'h', 'e', 'e', 't'] ||
  endsWith m.group ['.', 'c', 's', 's']

def extractLinks (baseOrigin html pageUrl : Text) : Links where
  pages := ((resolved urls hrefs html pageUrl).filter fun abs =>
    startsWith abs baseOrigin && !abs.contains '#').map bare
  assets :=
    (((matchAll linkTags 0 html).filter isStylesheet).filterMap fun m =>
      urls.resolve m.group pageUrl) ++
    resolved urls scriptTags html pageUrl ++
    (resolved urls sources html pageUrl).filter (fun abs => !startsWith abs dataScheme) ++
    (resolved urls cssUrls html pageUrl).filter (fun abs => !startsWith abs dataScheme) ++
    ((matchAll linkTags 0 html).filter fun m => includes m.whole ['i', 'c', 'o', 'n']).filterMap
      fun m =>
      urls.resolve m.group pageUrl

/-- The addresses of a style sheet that have not been visited. -/
def references (visited : List Text) (cssText assetUrl : Text) : List Text :=
  (resolved urls cssUrls cssText assetUrl).filter fun abs =>
    !startsWith abs dataScheme && !visited.contains abs

/-! ## Fetches -/

/-- What answers a request: nothing, a redirect, a status that is not 200 or a body that breaks off
or is too large, or a body. -/
inductive Reply
  | failed
  | redirect (location : Text)
  | other
  | ok (body : Text)

structure Env where
  /-- The answer to each request. -/
  site : ℕ → Text → Reply
  /-- Whether the file of a body can be written. -/
  saved : ℕ → Bool
  /-- Whether the client is gone when a loop looks. -/
  aborted : ℕ → Bool

variable (env : Env)

inductive Fetched
  | thrown
  | nothing
  | body (t : Text)

structure Log where
  turns : ℕ := 0
  requests : List Text := []
  fetches : List Text := []
  files : ℕ := 0

def doFetch : ℕ → Text → List Text → Fetched × List Text
  | left, u, requests =>
    if !httpScheme u || urlHostIsInternalLiteral urls.isIP urls.parse u then (.thrown, requests)
    else
      match env.site requests.length u with
      | .failed => (.thrown, requests ++ [u])
      | .other => (.nothing, requests ++ [u])
      | .ok body => (.body body, requests ++ [u])
      | .redirect location =>
        match left with
        | 0 => (.nothing, requests ++ [u])
        | left + 1 =>
          match urls.resolve location u with
          | none => (.thrown, requests ++ [u])
          | some next => doFetch left next (requests ++ [u])

def fetchBody (u : Text) (log : Log) : Fetched × Log :=
  let answer := doFetch urls env 5 u log.requests
  (answer.1, { log with requests := answer.2, fetches := log.fetches ++ [u] })

def save {α : Type} (log : Log) (ended next : Log → α) : α :=
  if env.saved log.files then next { log with files := log.files + 1 }
  else ended { log with files := log.files + 1 }

/-! ## The crawl and the loop over assets -/

structure Request where
  baseHref : Text
  baseOrigin : Text
  maxPages : Number
  maxDepth : Number

def clamp (x : Number) (most : ℚ) : Number :=
  let x := if x = .nan ∨ x.gt (.fin 1) then x else .fin 1
  if x.gt (.fin most) then .fin most else x

def Request.clampedMaxPages (req : Request) : Number := clamp req.maxPages 500

def Request.clampedMaxDepth (req : Request) : Number := clamp req.maxDepth 10

structure Crawl where
  queue : List (Text × ℕ)
  visited : List Text := []
  pagesDownloaded : ℕ := 0
  assetQueue : List Text := []

structure Assets where
  visited : List Text
  uniqueAssets : List Text
  i : ℕ := 0

inductive Clone
  | crawling (c : Crawl) (log : Log)
  | loading (a : Assets) (log : Log)
  | ended (log : Log)

def Clone.log : Clone → Log
  | .crawling _ log => log
  | .loading _ log => log
  | .ended log => log

variable (req : Request)

def binaryExtensions : List String :=
  ["jpg", "jpeg", "png", "gif", "webp", "avif", "ico", "bmp", "tif", "tiff", "woff", "woff2", "ttf",
    "otf", "eot", "mp4", "webm", "mp3", "wav", "ogg", "pdf", "zip", "gz", "tar", "exe", "dll", "so", "dylib"]

def isBinary (localPath : Text) : Bool :=
  binaryExtensions.any fun e => endsWith (localPath.map Char.toLower) ('.' :: e.toList)

def pushPage (visited : List Text) (depth : ℕ) (queue : List (Text × ℕ)) (link : Text) :
    List (Text × ℕ) :=
  if visited.contains (bare link) || queue.any (·.1 == bare link) then queue
  else queue ++ [(bare link, depth + 1)]

def Crawl.read (c : Crawl) (depth : ℕ) (links : Links) : Crawl :=
  { c with
    pagesDownloaded := c.pagesDownloaded + 1
    queue := if req.clampedMaxDepth.gt (.fin depth) then
      links.pages.foldl (pushPage c.visited depth) c.queue else c.queue
    assetQueue := c.assetQueue ++ links.assets.filter fun asset => !c.visited.contains asset }

def Crawl.visit (c : Crawl) (u : Text) (depth : ℕ) (log : Log) : Clone :=
  let c := { c with visited := c.visited.insert u }
  match fetchBody urls env u log with
  | (.thrown, log) => .ended log
  | (.nothing, log) => .crawling c log
  | (.body html, log) =>
    if isBinary ((urlToPath urls u).getD indexHtml) then save env log .ended (.crawling c)
    else save env log .ended (.crawling (c.read req depth (extractLinks urls req.baseOrigin html u)))

def Crawl.assets (c : Crawl) : Assets where
  visited := c.visited
  uniqueAssets := c.assetQueue.eraseDups.filter fun a => !c.visited.contains a

def crawlTurn (c : Crawl) (log : Log) : Clone :=
  match c.queue with
  | [] => .loading c.assets log
  | (pageUrl, depth) :: queue =>
    if ¬ req.clampedMaxPages.gt (.fin c.pagesDownloaded) ∨ env.aborted log.turns then
      .loading c.assets log
    else if c.visited.contains (bare pageUrl) then .crawling { c with queue } log
    else Crawl.visit urls env req { c with queue } (bare pageUrl) depth log

def Assets.visit (a : Assets) (u localPath : Text) (log : Log) : Clone :=
  match fetchBody urls env u log with
  | (.thrown, log) => .ended log
  | (.nothing, log) => .loading { a with i := a.i + 1 } log
  | (.body t, log) => save env log .ended (.loading { a with
      i := a.i + 1
      uniqueAssets := if endsWith localPath ['.', 'c', 's', 's'] then
        a.uniqueAssets ++ references urls a.visited t u else a.uniqueAssets })

def assetTurn (a : Assets) (log : Log) : Clone :=
  match a.uniqueAssets[a.i]? with
  | none => .ended log
  | some assetUrl =>
    if env.aborted log.turns then .ended log
    else
      let a := { a with visited := a.visited.insert assetUrl }
      match urlToPath urls assetUrl with
      | none => .loading { a with i := a.i + 1 } log
      | some localPath => Assets.visit urls env a assetUrl localPath log

def Log.turn (log : Log) : Log := { log with turns := log.turns + 1 }

def turn : Clone → Clone
  | .crawling c log => crawlTurn urls env req c log.turn
  | .loading a log => assetTurn urls env a log.turn
  | .ended log => .ended log

def start : Clone := .crawling { queue := [(req.baseHref, 0)] } {}

def run : ℕ → Clone
  | 0 => start req
  | n + 1 => turn urls env req (run n)

def news (a : Assets) (log : Log) : List Text :=
  match a.uniqueAssets[a.i]? with
  | none => []
  | some u =>
    if env.aborted log.turn.turns ∨ ¬ env.saved log.files then []
    else
      match urlToPath urls u, (fetchBody urls env u log.turn).1 with
      | some localPath, .body t =>
        if endsWith localPath ['.', 'c', 's', 's'] then references urls (a.visited.insert u) t u else []
      | _, _ => []

def SixATurn : Prop := ∀ n,
  (run urls env req (n + 1)).log.requests.length ≤ (run urls env req n).log.requests.length + 6

/-- The clone ends after finitely many requests, and nothing is fetched twice. -/
structure Finishes : Prop where
  ends : ∃ n log, run urls env req n = .ended log
  requests : SixATurn urls env req
  once : ∀ n, (run urls env req n).log.fetches.Nodup

inductive Serves : ℕ → Text → ℕ → Text → Prop
  | body {left : ℕ} {u : Text} {k : ℕ} {t : Text}
      (hallowed : (!httpScheme u || urlHostIsInternalLiteral urls.isIP urls.parse u) = false)
      (hok : env.site k u = .ok t) : Serves left u k t
  | behind {left : ℕ} {u : Text} {k : ℕ} {location next t : Text}
      (hallowed : (!httpScheme u || urlHostIsInternalLiteral urls.isIP urls.parse u) = false)
      (hredirect : env.site k u = .redirect location) (hnext : urls.resolve location u = some next)
      (hserves : Serves left next (k + 1) t) : Serves (left + 1) u k t

def named (cssText assetUrl : Text) : List Text :=
  (resolved urls cssUrls cssText assetUrl).filter fun abs => !startsWith abs dataScheme

/-- The next address of the list is that of a style sheet. -/
structure Takes (a : Assets) (log : Log) (u t : Text) : Prop where
  next : a.uniqueAssets[a.i]? = some u
  css : ∃ localPath, urlToPath urls u = some localPath ∧ endsWith localPath ['.', 'c', 's', 's'] = true
  serves : Serves urls env 5 u log.requests.length t

/-- A style sheet that is taken from the list names each other address once that has not been
visited, and none that waits; and all of them name finitely many. -/
structure FewReferences : Prop where
  apart : ∀ n a log u t, run urls env req n = .loading a log → Takes urls env a log u t →
    ∀ x ∈ named urls t u, x ≠ u → x ∉ a.visited →
      (named urls t u).count x = 1 ∧ x ∉ a.uniqueAssets.drop (a.i + 1)
  finite : ∃ S : Finset Text, ∀ n a log u t, run urls env req n = .loading a log →
    Takes urls env a log u t → ∀ x ∈ named urls t u, x ∈ S

/-- No error and no client that goes away ends the clone before the list does. -/
def Uncut : Prop :=
  ∀ n log, run urls env req (n + 1) = .ended log →
    (∃ log', run urls env req n = .ended log') ∨
      ∃ a log', run urls env req n = .loading a log' ∧ a.uniqueAssets.length ≤ a.i

/-! ## What a turn does -/

section Turns

variable {urls env req} {c : Crawl} {a : Assets} {log : Log} {u t x : Text}

theorem doFetch_length (left : ℕ) (u : Text) (requests : List Text) :
    (doFetch urls env left u requests).2.length ≤ requests.length + left + 1 := by
  induction left generalizing u requests with
  | zero =>
    rw [doFetch]
    split
    · simp
    · split <;> simp
  | succ left ih =>
    rw [doFetch]
    split
    · simp
      omega
    · cases env.site requests.length u with
      | failed => simp
      | other => simp
      | ok body => simp
      | redirect location =>
        cases hnext : urls.resolve location u with
        | none => simp [hnext]
        | some next =>
          have hlater := ih next (requests ++ [u])
          rw [List.length_append, List.length_singleton] at hlater
          simp only [hnext]
          omega

theorem fetchBody_fetches : (fetchBody urls env u log).2.fetches = log.fetches ++ [u] := rfl

theorem fetchBody_requests :
    (fetchBody urls env u log).2.requests.length ≤ log.requests.length + 6 :=
  doFetch_length 5 u log.requests

/-- What a turn adds to the log: at most the fetch of one address, with its redirects. -/
structure Adds (log : Log) (fetched : List Text) (log' : Log) : Prop where
  fetches : log'.fetches = log.fetches ++ fetched
  requests : log'.requests.length ≤ log.requests.length + 6

theorem Adds.none (log : Log) : Adds log [] log.turn := ⟨(List.append_nil _).symm, Nat.le_add_right _ _⟩

theorem Adds.fetch (log : Log) (u : Text) : Adds log [u] (fetchBody urls env u log.turn).2 :=
  ⟨fetchBody_fetches, fetchBody_requests⟩

theorem save_cases {log' : Log} {fetched : List Text} (h : Adds log fetched log') (next : Log → Clone) :
    ∃ log'', Adds log fetched log'' ∧ (save env log' .ended next = .ended log'' ∨
        env.saved log'.files = true ∧ save env log' .ended next = next log'') := by
  refine ⟨{ log' with files := log'.files + 1 }, ⟨h.fetches, h.requests⟩, ?_⟩
  rw [save]
  split
  · next hsaved => exact .inr ⟨hsaved, rfl⟩
  · exact .inl rfl

theorem read_of_mem_resolved {pattern : List (List Piece)} {base : Text}
    (h : x ∈ resolved urls pattern t base) : (urls.read x).isSome := by
  obtain ⟨m, -, hm⟩ := List.mem_filterMap.mp h
  exact urls.read_resolve _ _ _ hm

theorem read_of_mem_assets {origin html base : Text}
    (h : x ∈ (extractLinks urls origin html base).assets) : (urls.read x).isSome := by
  have hlinks : ∀ ms : List Match, x ∈ ms.filterMap (fun m => urls.resolve m.group base) →
      (urls.read x).isSome := by
    intro ms hx
    obtain ⟨m, -, hm⟩ := List.mem_filterMap.mp hx
    exact urls.read_resolve _ _ _ hm
  simp only [extractLinks, List.mem_append] at h
  rcases h with (((h | h) | h) | h) | h
  · exact hlinks _ h
  · exact read_of_mem_resolved h
  · exact read_of_mem_resolved (List.mem_filter.mp h).1
  · exact read_of_mem_resolved (List.mem_filter.mp h).1
  · exact hlinks _ h

theorem visit_cases (c : Crawl) (u : Text) (depth : ℕ) (log : Log) :
    ∃ log', Adds log [u] log' ∧ (c.visit urls env req u depth log.turn = .ended log' ∨
      ∃ c' : Crawl, c.visit urls env req u depth log.turn = .crawling c' log' ∧
        c'.visited = c.visited.insert u ∧
        (∀ x ∈ c'.assetQueue, x ∈ c.assetQueue ∨ (urls.read x).isSome) ∧
        (c'.queue = c.queue ∧ c'.pagesDownloaded = c.pagesDownloaded ∨
          c'.pagesDownloaded = c.pagesDownloaded + 1)) := by
  have hadds : Adds log [u] (fetchBody urls env u log.turn).2 := Adds.fetch log u
  rw [Crawl.visit]
  generalize fetchBody urls env u log.turn = answer at hadds ⊢
  obtain ⟨fetched, log'⟩ := answer
  cases fetched with
  | thrown => exact ⟨log', hadds, .inl rfl⟩
  | nothing => exact ⟨log', hadds, .inr ⟨_, rfl, rfl, fun x hx => .inl hx, .inl ⟨rfl, rfl⟩⟩⟩
  | body html =>
    simp only
    split
    · obtain ⟨log'', hadds', hended | ⟨-, hnext⟩⟩ := save_cases hadds (.crawling
        { c with visited := c.visited.insert u })
      · exact ⟨log'', hadds', .inl hended⟩
      · exact ⟨log'', hadds', .inr ⟨_, hnext, rfl, fun x hx => .inl hx, .inl ⟨rfl, rfl⟩⟩⟩
    · obtain ⟨log'', hadds', hended | ⟨-, hnext⟩⟩ := save_cases hadds (.crawling
        (Crawl.read req { c with visited := c.visited.insert u } depth
          (extractLinks urls req.baseOrigin html u)))
      · exact ⟨log'', hadds', .inl hended⟩
      · refine ⟨log'', hadds', .inr ⟨_, hnext, rfl, fun x hx => ?_, .inr rfl⟩⟩
        rcases List.mem_append.mp hx with hx | hx
        · exact .inl hx
        · exact .inr (read_of_mem_assets (List.mem_filter.mp hx).1)

theorem lt_of_gt_clampedMaxPages {n : ℕ} (h : req.clampedMaxPages.gt (.fin n) = true) : n < 500 := by
  have hle : ∀ x : Number, (clamp x 500).gt (.fin n) = true → n < 500 := by
    intro x hx
    rw [clamp] at hx
    generalize (if x = .nan ∨ x.gt (.fin 1) then x else .fin 1) = y at hx
    split at hx
    · simpa [Number.gt] using hx
    · next hmost =>
      cases y with
      | nan => cases hx
      | posInf => exact absurd rfl hmost
      | negInf => cases hx
      | fin q =>
        simp only [Number.gt, decide_eq_true_eq, not_lt] at hx hmost
        exact_mod_cast lt_of_lt_of_le hx hmost
  exact hle _ h

theorem crawlTurn_cases (c : Crawl) (log : Log) :
    crawlTurn urls env req c log = .loading c.assets log ∨
      ∃ pageUrl depth queue, c.queue = (pageUrl, depth) :: queue ∧
        (crawlTurn urls env req c log = .crawling { c with queue } log ∨
          c.pagesDownloaded < 500 ∧ bare pageUrl ∉ c.visited ∧ crawlTurn urls env req c log =
              Crawl.visit urls env req { c with queue } (bare pageUrl) depth log) := by
  rw [crawlTurn]
  cases hqueue : c.queue with
  | nil => exact .inl rfl
  | cons entry queue =>
    obtain ⟨pageUrl, depth⟩ := entry
    simp only
    split
    · exact .inl rfl
    · next hgoes =>
      refine .inr ⟨pageUrl, depth, queue, rfl, ?_⟩
      split
      · exact .inl rfl
      · next hnew =>
        rw [not_or, not_not] at hgoes
        exact .inr ⟨lt_of_gt_clampedMaxPages hgoes.1, by simpa using hnew, rfl⟩

theorem assetTurn_cases (hu : a.uniqueAssets[a.i]? = some u) (log : Log) :
    ∃ fetched log', Adds log fetched log' ∧ (fetched = [] ∨ fetched = [u]) ∧
      (assetTurn urls env a log.turn = .ended log' ∨ ((urls.read u).isSome → fetched = [u]) ∧
        assetTurn urls env a log.turn = .loading ⟨a.visited.insert u,
          a.uniqueAssets ++ news urls env a log, a.i + 1⟩ log') := by
  have hadds : Adds log [u] (fetchBody urls env u log.turn).2 := Adds.fetch log u
  have hfiles : (fetchBody urls env u log.turn).2.files = log.files := rfl
  rw [assetTurn, news, hu]
  simp only
  by_cases hgone : env.aborted log.turn.turns = true
  · rw [if_pos hgone]
    exact ⟨[], log.turn, Adds.none log, .inl rfl, .inl rfl⟩
  · rw [if_neg hgone]
    cases hpath : urlToPath urls u with
    | none =>
      refine ⟨[], log.turn, Adds.none log, .inl rfl, .inr ⟨fun hread => ?_, ?_⟩⟩
      · rw [urlToPath, Option.map_eq_none_iff] at hpath
        rw [hpath] at hread
        cases hread
      · simp
    | some localPath =>
      simp only [Assets.visit]
      generalize fetchBody urls env u log.turn = answer at hadds hfiles ⊢
      obtain ⟨fetched, log'⟩ := answer
      cases fetched with
      | thrown => exact ⟨[u], log', hadds, .inr rfl, .inl rfl⟩
      | nothing =>
        refine ⟨[u], log', hadds, .inr rfl, .inr ⟨fun _ => rfl, ?_⟩⟩
        simp
      | body t =>
        obtain ⟨log'', hadds', hended | ⟨hsaved, hnext⟩⟩ := save_cases hadds (.loading (Assets.mk
          (a.visited.insert u) (if endsWith localPath ['.', 'c', 's', 's'] then
            a.uniqueAssets ++ references urls (a.visited.insert u) t u else a.uniqueAssets) (a.i + 1)))
        · exact ⟨[u], log'', hadds', .inr rfl, .inl hended⟩
        · refine ⟨[u], log'', hadds', .inr rfl, .inr ⟨fun _ => rfl, hnext.trans ?_⟩⟩
          have hgoes : ¬ (env.aborted log.turn.turns = true ∨ ¬ env.saved log.files = true) := by
            rw [← hfiles]
            simp [hgone, hsaved]
          rw [if_neg hgoes]
          by_cases hcss : endsWith localPath ['.', 'c', 's', 's'] = true
          · simp only [if_pos hcss]
          · simp only [if_neg hcss, List.append_nil]

theorem doFetch_eq_body {left : ℕ} {u : Text} {requests : List Text} :
    (doFetch urls env left u requests).1 = .body t ↔ Serves urls env left u requests.length t := by
  induction left generalizing u requests with
  | zero =>
    rw [doFetch]
    constructor
    · intro h
      split at h
      · cases h
      · next hallowed =>
        split at h <;> cases h
        next hok => exact .body (Bool.eq_false_iff.mpr hallowed) hok
    · rintro ⟨hallowed, hok⟩
      rw [hallowed, hok]
      rfl
  | succ left ih =>
    rw [doFetch]
    constructor
    · intro h
      split at h
      · cases h
      · next hallowed =>
        split at h
        · cases h
        · cases h
        · next hok =>
          cases h
          exact .body (Bool.eq_false_iff.mpr hallowed) hok
        · next location hredirect =>
          cases hnext : urls.resolve location u with
          | none =>
            simp only [hnext] at h
            cases h
          | some next =>
            simp only [hnext] at h
            have hserves := ih.mp h
            rw [List.length_append, List.length_singleton] at hserves
            exact .behind (Bool.eq_false_iff.mpr hallowed) hredirect hnext hserves
    · intro h
      cases h with
      | body hallowed hok =>
        rw [hallowed, hok]
        rfl
      | @behind _ _ _ location next _ hallowed hredirect hnext hserves =>
        have hlater := @ih next (requests ++ [u])
        rw [List.length_append, List.length_singleton] at hlater
        simp only [hallowed, hredirect, hnext]
        exact hlater.mpr hserves

theorem fetchBody_eq_body :
    (fetchBody urls env u log.turn).1 = .body t ↔ Serves urls env 5 u log.requests.length t :=
  doFetch_eq_body

theorem Takes.unique {v t' : Text} (h : Takes urls env a log u t) (h' : Takes urls env a log v t') :
    u = v ∧ t = t' := by
  obtain rfl := Option.some.inj (h.next.symm.trans h'.next)
  have hbody := (fetchBody_eq_body.mpr h.serves).symm.trans (fetchBody_eq_body.mpr h'.serves)
  exact ⟨rfl, Fetched.body.inj hbody⟩

theorem references_eq (visited : List Text) (t u : Text) :
    references urls visited t u = (named urls t u).filter fun x => !visited.contains x := by
  rw [references, named, List.filter_filter]
  exact List.filter_congr fun x _ => Bool.and_comm _ _

theorem news_of_takes (h : Takes urls env a log u t)
    (hgoes : ¬ (env.aborted log.turn.turns = true ∨ ¬ env.saved log.files = true)) :
    news urls env a log = (named urls t u).filter fun x => !(a.visited.insert u).contains x := by
  obtain ⟨localPath, hpath, hcss⟩ := h.css
  rw [news, h.next]
  simp only [if_neg hgoes, hpath, fetchBody_eq_body.mpr h.serves, if_pos hcss]
  exact references_eq _ t u

/-- What a turn puts at the end of the list is what a style sheet names. -/
theorem takes_of_mem_news (hx : x ∈ news urls env a log) : ∃ u t, Takes urls env a log u t ∧
    news urls env a log = (named urls t u).filter fun x => !(a.visited.insert u).contains x := by
  have hmem := hx
  rw [news] at hmem
  split at hmem
  · cases hmem
  · next u hu =>
    split at hmem
    · cases hmem
    · next hgoes =>
      split at hmem
      · next localPath t hpath hbody =>
        split at hmem
        · next hcss =>
          have htakes : Takes urls env a log u t :=
            ⟨hu, ⟨localPath, hpath, hcss⟩, fetchBody_eq_body.mp hbody⟩
          exact ⟨u, t, htakes, news_of_takes htakes hgoes⟩
        · cases hmem
      · cases hmem

theorem assetTurn_end (h : a.uniqueAssets.length ≤ a.i) :
    assetTurn urls env a log.turn = .ended log.turn := by
  rw [assetTurn, List.getElem?_eq_none h]

end Turns

/-! ## Nothing twice -/

section Once

variable {urls env req} {c : Crawl} {a : Assets} {log log' : Log} {u x : Text}

def Assets.waiting (a : Assets) : List Text := a.uniqueAssets.drop a.i

def Distinct : Clone → Prop
  | .crawling c log => log.fetches.Nodup ∧ ∀ u ∈ log.fetches, u ∈ c.visited
  | .loading a log => (log.fetches.Nodup ∧ ∀ u ∈ log.fetches, u ∈ a.visited) ∧
      a.waiting.Nodup ∧ ∀ u ∈ a.waiting, u ∉ a.visited
  | .ended log => log.fetches.Nodup

theorem nodup_eraseDups (l : List Text) : l.eraseDups.Nodup := by
  induction hn : l.length using Nat.strong_induction_on generalizing l with
  | _ n ih =>
    cases l with
    | nil => simp
    | cons b l =>
      rw [List.eraseDups_cons, List.nodup_cons]
      refine ⟨by simp [List.mem_eraseDups], ih _ ?_ _ rfl⟩
      have hle := List.length_filter_le (fun d => !d == b) l
      rw [← hn, List.length_cons]
      omega

theorem waiting_cons (hu : a.uniqueAssets[a.i]? = some u) :
    a.waiting = u :: a.uniqueAssets.drop (a.i + 1) := by
  obtain ⟨hlt, rfl⟩ := List.getElem?_eq_some_iff.mp hu
  exact List.drop_eq_getElem_cons hlt

theorem waiting_next (hu : a.uniqueAssets[a.i]? = some u) (visited more : List Text) :
    (Assets.mk visited (a.uniqueAssets ++ more) (a.i + 1)).waiting =
      a.uniqueAssets.drop (a.i + 1) ++ more := by
  obtain ⟨hlt, -⟩ := List.getElem?_eq_some_iff.mp hu
  exact List.drop_append_of_le_length hlt

theorem news_fresh (hu : a.uniqueAssets[a.i]? = some u) (hx : x ∈ news urls env a log) :
    x ∉ a.visited.insert u := by
  rw [news, hu] at hx
  simp only at hx
  split at hx
  · cases hx
  · split at hx
    · split at hx
      · rw [references, List.mem_filter] at hx
        have hvisited := (Bool.and_eq_true _ _).mp hx.2
        simpa using hvisited.2
      · cases hx
    · cases hx

theorem Adds.distinct {visited : List Text} {fetched : List Text} (h : Adds log fetched log')
    (hfetched : fetched = [] ∨ fetched = [u])
    (hlog : log.fetches.Nodup ∧ ∀ v ∈ log.fetches, v ∈ visited) (hu : u ∉ visited) :
    log'.fetches.Nodup ∧ ∀ v ∈ log'.fetches, v ∈ visited.insert u := by
  rw [h.fetches]
  rcases hfetched with rfl | rfl
  · rw [List.append_nil]
    exact ⟨hlog.1, fun v hv => List.mem_insert_of_mem (hlog.2 v hv)⟩
  · constructor
    · exact hlog.1.append (List.nodup_singleton u)
        (List.disjoint_singleton.mpr fun hmem => hu (hlog.2 u hmem))
    · intro v hv
      rcases List.mem_append.mp hv with hv | hv
      · exact List.mem_insert_of_mem (hlog.2 v hv)
      · rw [List.mem_singleton.mp hv]
        exact List.mem_insert_self

theorem Distinct.crawlTurn (h : Distinct (.crawling c log)) :
    Distinct (crawlTurn urls env req c log.turn) := by
  rcases crawlTurn_cases c log.turn with hover | ⟨pageUrl, depth, queue, -, hskip | ⟨-, hnew, hvisit⟩⟩
  · rw [hover]
    refine ⟨h, (nodup_eraseDups _).filter _, fun u hu => ?_⟩
    have hnew := (List.mem_filter.mp hu).2
    have hnot : u ∉ c.visited := by simpa using hnew
    exact hnot
  · rw [hskip]
    exact h
  · rw [hvisit]
    obtain ⟨log', hadds, hended | ⟨c', hnext, hvisited, -⟩⟩ :=
      @visit_cases urls env req { c with queue } (bare pageUrl) depth log
    · rw [hended]
      exact (hadds.distinct (.inr rfl) h hnew).1
    · rw [hnext, Distinct, hvisited]
      exact hadds.distinct (.inr rfl) h hnew

theorem Distinct.assetTurn (h : Distinct (.loading a log))
    (hnews : (news urls env a log).Nodup ∧
      ∀ x ∈ news urls env a log, x ∉ a.uniqueAssets.drop (a.i + 1)) :
    Distinct (assetTurn urls env a log.turn) := by
  obtain ⟨hlog, hnodup, hnew⟩ := h
  cases hu : a.uniqueAssets[a.i]? with
  | none =>
    rw [assetTurn_end (List.getElem?_eq_none_iff.mp hu)]
    exact hlog.1
  | some u =>
    rw [waiting_cons hu] at hnodup hnew
    obtain ⟨hhead, htail⟩ := List.nodup_cons.mp hnodup
    obtain ⟨fetched, log', hadds, hfetched, hended | ⟨-, hnext⟩⟩ :=
      @assetTurn_cases urls env a u hu log
    · rw [hended]
      exact (hadds.distinct hfetched hlog (hnew u List.mem_cons_self)).1
    · rw [hnext, Distinct, waiting_next hu]
      refine ⟨hadds.distinct hfetched hlog (hnew u List.mem_cons_self),
        htail.append hnews.1 fun x hx hmore => hnews.2 x hmore hx, fun x hx => ?_⟩
      rcases List.mem_append.mp hx with hx | hx
      · rw [List.mem_insert_iff, not_or]
        exact ⟨fun heq => hhead (heq ▸ hx), hnew x (List.mem_cons_of_mem u hx)⟩
      · exact news_fresh hu hx

/-- What a turn puts at the end of the list is distinct, and does not wait there. -/
theorem FewReferences.news_apart (h : FewReferences urls env req) {n : ℕ}
    (hrun : run urls env req n = .loading a log) :
    (news urls env a log).Nodup ∧ ∀ x ∈ news urls env a log, x ∉ a.uniqueAssets.drop (a.i + 1) := by
  have hapart : ∀ x ∈ news urls env a log,
      (news urls env a log).count x ≤ 1 ∧ x ∉ a.uniqueAssets.drop (a.i + 1) := by
    intro x hx
    obtain ⟨u, t, htakes, hnews⟩ := takes_of_mem_news hx
    rw [hnews] at hx ⊢
    obtain ⟨hmem, hnew⟩ := List.mem_filter.mp hx
    have hfresh : x ≠ u ∧ x ∉ a.visited := by simpa using hnew
    obtain ⟨hcount, hwaits⟩ := h.apart n a log u t hrun htakes x hmem hfresh.1 hfresh.2
    rw [List.count_filter (p := fun x => !(a.visited.insert u).contains x) hnew]
    exact ⟨hcount.le, hwaits⟩
  refine ⟨List.nodup_iff_count.mpr fun x => ?_, fun x hx => (hapart x hx).2⟩
  by_cases hx : x ∈ news urls env a log
  · exact (hapart x hx).1
  · rw [List.count_eq_zero_of_not_mem hx]
    exact Nat.zero_le 1

theorem run_distinct (h : FewReferences urls env req) (n : ℕ) : Distinct (run urls env req n) := by
  induction n with
  | zero => exact ⟨List.nodup_nil, fun u hu => absurd hu List.not_mem_nil⟩
  | succ n ih =>
    rw [run]
    cases hrun : run urls env req n with
    | crawling c log =>
      rw [hrun] at ih
      exact ih.crawlTurn
    | loading a log =>
      rw [hrun] at ih
      exact ih.assetTurn (h.news_apart hrun)
    | ended log =>
      rw [hrun] at ih
      exact ih

theorem Distinct.fetches {s : Clone} (h : Distinct s) : s.log.fetches.Nodup := by
  cases s with
  | crawling c log => exact h.1
  | loading a log => exact h.1.1
  | ended log => exact h

end Once

/-! ## The end -/

section Ends

variable {urls env req} {c : Crawl} {a : Assets} {log : Log} {n : ℕ}

theorem six_a_turn : SixATurn urls env req := by
  intro n
  rw [run]
  cases run urls env req n with
  | crawling c log =>
    rw [turn]
    rcases crawlTurn_cases c log.turn with hover | ⟨pageUrl, depth, queue, -, hskip | ⟨-, -, hvisit⟩⟩
    · rw [hover]
      exact Nat.le_add_right _ _
    · rw [hskip]
      exact Nat.le_add_right _ _
    · rw [hvisit]
      obtain ⟨log', hadds, hended | ⟨c', hnext, -⟩⟩ :=
        @visit_cases urls env req { c with queue } (bare pageUrl) depth log
      · rw [hended]
        exact hadds.requests
      · rw [hnext]
        exact hadds.requests
  | loading a log =>
    rw [turn]
    cases hu : a.uniqueAssets[a.i]? with
    | none =>
      rw [assetTurn_end (List.getElem?_eq_none_iff.mp hu)]
      exact Nat.le_add_right _ _
    | some u =>
      obtain ⟨fetched, log', hadds, -, hended | ⟨-, hnext⟩⟩ := @assetTurn_cases urls env a u hu log
      · rw [hended]
        exact hadds.requests
      · rw [hnext]
        exact hadds.requests
  | ended log => exact Nat.le_add_right _ _

def crawlLeft : Clone → ℕ ×ₗ ℕ
  | .crawling c _ => toLex (500 - c.pagesDownloaded + 1, c.queue.length)
  | _ => toLex (0, 0)

theorem over_lt (c : Crawl) (log : Log) : toLex (0, 0) < crawlLeft (.crawling c log) :=
  Prod.Lex.toLex_lt_toLex.mpr (.inl (Nat.succ_pos _))

/-- The crawl is over after some turns, whatever the site answers. -/
theorem crawl_ends : ∃ n, ∀ c log, run urls env req n ≠ .crawling c log := by
  obtain ⟨n, hn⟩ := @WellFounded.not_rel_apply_succ _ (· < ·) _ fun n => crawlLeft (run urls env req n)
  refine ⟨n, fun c log hrun => hn ?_⟩
  rw [run, hrun, turn]
  rcases @crawlTurn_cases urls env req c log.turn with
    hover | ⟨pageUrl, depth, queue, hqueue, hskip | ⟨hlt, -, hvisit⟩⟩
  · rw [hover]
    exact over_lt c log
  · rw [hskip]
    refine Prod.Lex.toLex_lt_toLex.mpr (.inr ⟨rfl, ?_⟩)
    rw [hqueue]
    exact Nat.lt_succ_self _
  · rw [hvisit]
    obtain ⟨log', -, hended | ⟨c', hnext, -, -, ⟨hsame, hpages⟩ | hpages⟩⟩ :=
      @visit_cases urls env req { c with queue } (bare pageUrl) depth log
    · rw [hended]
      exact over_lt c log
    · rw [hnext]
      refine Prod.Lex.toLex_lt_toLex.mpr (.inr ⟨?_, ?_⟩)
      · simp only [hpages]
      · simp only [hsame, hqueue]
        exact Nat.lt_succ_self _
    · rw [hnext]
      refine Prod.Lex.toLex_lt_toLex.mpr (.inl ?_)
      simp only [hpages]
      omega

theorem run_ended {log : Log} (h : run urls env req n = .ended log) (k : ℕ) :
    run urls env req (n + k) = .ended log := by
  induction k with
  | zero => exact h
  | succ k ih =>
    rw [← Nat.add_assoc, run, ih]
    rfl

theorem not_contains (visited : List Text) (u : Text) : visited.contains u = false ↔ u ∉ visited := by
  rw [← Bool.not_eq_true, List.contains_iff_mem]

/-- The addresses of a finite set that the loop has not visited. -/
def loadLeft (S : Finset Text) : Clone → ℕ
  | .loading a _ => (S.filter fun x => a.visited.contains x = false).card + 1
  | _ => 0

theorem loading_next (hn : run urls env req n = .loading a log)
    (hgoes : ∀ log', run urls env req (n + 1) ≠ .ended log') :
    ∃ u log', a.uniqueAssets[a.i]? = some u ∧
      ((urls.read u).isSome → log'.fetches = log.fetches ++ [u]) ∧ run urls env req (n + 1) =
      .loading ⟨a.visited.insert u, a.uniqueAssets ++ news urls env a log, a.i + 1⟩ log' := by
  rw [run, hn, turn] at hgoes ⊢
  cases hu : a.uniqueAssets[a.i]? with
  | none => exact absurd (assetTurn_end (List.getElem?_eq_none_iff.mp hu)) (hgoes _)
  | some u =>
    obtain ⟨fetched, log', hadds, -, hended | ⟨hfetched, hnext⟩⟩ := @assetTurn_cases urls env a u hu log
    · exact absurd hended (hgoes log')
    · exact ⟨u, log', rfl, fun hread => by rw [hadds.fetches, hfetched hread], hnext⟩

/-- The loop over the assets is over when the addresses of the style sheets are finitely many, since
each turn takes a new one. -/
theorem load_ends (h : FewReferences urls env req) (hn : run urls env req n = .loading a log) :
    ∃ m log', run urls env req m = .ended log' := by
  by_contra hnever
  have hgoes : ∀ m log', run urls env req m ≠ .ended log' := fun m log' hm => hnever ⟨m, log', hm⟩
  obtain ⟨T, hT⟩ := h.finite
  let S : Finset Text := T ∪ a.uniqueAssets.toFinset
  have hloads : ∀ k, ∃ b log', run urls env req (n + k) = .loading b log' ∧ ∀ x ∈ b.waiting, x ∈ S := by
    intro k
    induction k with
    | zero =>
      exact ⟨a, log, hn, fun x hx =>
        Finset.mem_union_right _ (List.mem_toFinset.mpr (List.mem_of_mem_drop hx))⟩
    | succ k ih =>
      obtain ⟨b, log', hb, hwaiting⟩ := ih
      obtain ⟨u, log'', hu, -, hnext⟩ := loading_next hb (hgoes _)
      refine ⟨_, log'', hnext, fun x hx => ?_⟩
      rw [waiting_next hu] at hx
      rcases List.mem_append.mp hx with hx | hx
      · apply hwaiting
        rw [waiting_cons hu]
        exact List.mem_cons_of_mem u hx
      · obtain ⟨v, t, htakes, hnews⟩ := takes_of_mem_news hx
        rw [hnews] at hx
        exact Finset.mem_union_left _ (hT (n + k) b log' v t hb htakes x (List.mem_filter.mp hx).1)
  obtain ⟨k, hk⟩ := @WellFounded.not_rel_apply_succ _ (· < ·) _ fun k =>
    loadLeft S (run urls env req (n + k))
  obtain ⟨b, log', hb, hwaiting⟩ := hloads k
  obtain ⟨u, log'', hu, -, hnext⟩ := loading_next hb (hgoes _)
  have hdistinct := run_distinct h (n + k)
  rw [hb, Distinct, waiting_cons hu] at hdistinct
  rw [waiting_cons hu] at hwaiting
  apply hk
  rw [← Nat.add_assoc, hnext, hb]
  refine Nat.succ_lt_succ (Finset.card_lt_card ?_)
  rw [Finset.ssubset_iff_of_subset]
  · refine ⟨u, ?_, ?_⟩
    · exact Finset.mem_filter.mpr ⟨hwaiting u List.mem_cons_self,
        (not_contains _ _).mpr (hdistinct.2.2 u List.mem_cons_self)⟩
    · simp
  · intro x hx
    rw [Finset.mem_filter, not_contains, List.mem_insert_iff, not_or] at hx
    exact Finset.mem_filter.mpr ⟨hx.1, (not_contains _ _).mpr hx.2.2⟩

theorem finishes_of_few (h : FewReferences urls env req) : Finishes urls env req where
  ends := by
    obtain ⟨n, hn⟩ := @crawl_ends urls env req
    cases hrun : run urls env req n with
    | crawling c log => exact absurd hrun (hn c log)
    | loading a log => exact load_ends h hrun
    | ended log => exact ⟨n, log, hrun⟩
  requests := six_a_turn
  once n := (run_distinct h n).fetches

end Ends

/-! ## Only then -/

section OnlyThen

variable {urls env req} {a : Assets} {log log' : Log} {n : ℕ}

def Walked (urls : Urls) : Clone → Prop
  | .crawling c _ => ∀ x ∈ c.assetQueue, (urls.read x).isSome
  | .loading a log => (∀ x ∈ a.uniqueAssets, (urls.read x).isSome) ∧ a.uniqueAssets.take a.i <:+ log.fetches
  | .ended _ => True

theorem read_of_mem_news {x : Text} (hx : x ∈ news urls env a log) : (urls.read x).isSome := by
  obtain ⟨u, t, -, hnews⟩ := takes_of_mem_news hx
  rw [hnews] at hx
  exact read_of_mem_resolved (List.mem_filter.mp (List.mem_filter.mp hx).1).1

theorem run_walked (n : ℕ) : Walked urls (run urls env req n) := by
  induction n with
  | zero => exact fun x hx => absurd hx List.not_mem_nil
  | succ n ih =>
    rw [run]
    cases hrun : run urls env req n with
    | crawling c log =>
      rw [hrun] at ih
      rw [turn]
      rcases @crawlTurn_cases urls env req c log.turn with
        hover | ⟨pageUrl, depth, queue, -, hskip | ⟨-, -, hvisit⟩⟩
      · rw [hover]
        refine ⟨fun x hx => ?_, List.nil_suffix⟩
        exact ih x (List.mem_eraseDups.mp (List.mem_filter.mp hx).1)
      · rw [hskip]
        exact ih
      · rw [hvisit]
        obtain ⟨log', -, hended | ⟨c', hnext, -, hqueue, -⟩⟩ :=
          @visit_cases urls env req { c with queue } (bare pageUrl) depth log
        · rw [hended]
          trivial
        · rw [hnext]
          exact fun x hx => (hqueue x hx).elim (ih x) id
    | loading a log =>
      rw [hrun] at ih
      rw [turn]
      cases hu : a.uniqueAssets[a.i]? with
      | none =>
        rw [assetTurn_end (List.getElem?_eq_none_iff.mp hu)]
        trivial
      | some u =>
        obtain ⟨hread, htake⟩ := ih
        obtain ⟨fetched, log', hadds, -, hended | ⟨hfetched, hnext⟩⟩ :=
          @assetTurn_cases urls env a u hu log
        · rw [hended]
          trivial
        · rw [hnext]
          obtain ⟨hlt, hget⟩ := List.getElem?_eq_some_iff.mp hu
          refine ⟨fun x hx => ?_, ?_⟩
          · rcases List.mem_append.mp hx with hx | hx
            · exact hread x hx
            · exact read_of_mem_news hx
          · have hmem : u ∈ a.uniqueAssets := hget ▸ List.getElem_mem hlt
            rw [hadds.fetches, hfetched (hread u hmem), List.take_append_of_le_length hlt,
              List.take_succ_eq_append_getElem hlt, hget]
            obtain ⟨before, hbefore⟩ := htake
            exact ⟨before, by rw [← hbefore, List.append_assoc]⟩
    | ended log => trivial

/-- With nothing fetched twice the list that the loop walks over is distinct. -/
theorem list_nodup (hcut : Uncut urls env req)
    (honce : ∀ n, (run urls env req n).log.fetches.Nodup) (k : ℕ)
    (hn : run urls env req n = .loading a log) (hk : run urls env req (n + k) = .ended log') :
    (a.uniqueAssets ++ news urls env a log).Nodup := by
  induction k generalizing n a log with
  | zero =>
    rw [Nat.add_zero, hn] at hk
    cases hk
  | succ k ih =>
    by_cases hgoes : ∀ log'', run urls env req (n + 1) ≠ .ended log''
    · obtain ⟨u, log'', -, -, hnext⟩ := loading_next hn hgoes
      have hlater := ih hnext (by rw [← hk]; congr 1; omega)
      exact (List.nodup_append.mp hlater).1
    · obtain ⟨log'', hended⟩ := not_forall_not.mp hgoes
      rcases hcut n log'' hended with ⟨log3, hlog3⟩ | ⟨b, log3, hb, hle⟩
      · rw [hn] at hlog3
        cases hlog3
      · rw [hn] at hb
        cases hb
        have hwalked := @run_walked urls env req n
        rw [hn, Walked, List.take_of_length_le hle] at hwalked
        have hlist : a.uniqueAssets.Nodup := by
          have hfetches := honce n
          rw [hn] at hfetches
          exact hfetches.sublist hwalked.2.sublist
        rw [news, List.getElem?_eq_none hle, List.append_nil]
        exact hlist

theorem lt_of_loading {m : ℕ} (hm : run urls env req m = .ended log')
    (hn : run urls env req n = .loading a log) : n < m := by
  by_contra hle
  obtain ⟨k, rfl⟩ := Nat.exists_eq_add_of_le (Nat.le_of_not_lt hle)
  rw [run_ended hm k] at hn
  cases hn

/-- A run that ends reads finitely many style sheets. -/
theorem finite_of_ended {m : ℕ} (hm : run urls env req m = .ended log') :
    ∃ S : Finset Text, ∀ n a log u t, run urls env req n = .loading a log →
      Takes urls env a log u t → ∀ x ∈ named urls t u, x ∈ S := by
  classical
  have hturn : ∀ n, ∃ S : Finset Text, ∀ a log u t, run urls env req n = .loading a log →
      Takes urls env a log u t → ∀ x ∈ named urls t u, x ∈ S := by
    intro n
    by_cases hreads : ∃ a log u t, run urls env req n = .loading a log ∧ Takes urls env a log u t
    · obtain ⟨a, log, u, t, hn, htakes⟩ := hreads
      refine ⟨(named urls t u).toFinset, fun b log₂ v t₂ hb hother x hx => ?_⟩
      rw [hn] at hb
      cases hb
      obtain ⟨rfl, rfl⟩ := htakes.unique hother
      exact List.mem_toFinset.mpr hx
    · exact ⟨∅, fun a log u t hn htakes => absurd ⟨a, log, u, t, hn, htakes⟩ hreads⟩
  choose S hS using hturn
  refine ⟨(Finset.range m).biUnion S, fun n a log u t hn htakes x hx => ?_⟩
  exact Finset.mem_biUnion.mpr
    ⟨n, Finset.mem_range.mpr (lt_of_loading hm hn), hS n a log u t hn htakes x hx⟩

theorem goes_on (hcut : Uncut urls env req) (hn : run urls env req n = .loading a log) {u t : Text}
    (h : Takes urls env a log u t) : ¬ (env.aborted log.turn.turns = true ∨
      ¬ env.saved log.files = true) := by
  intro hover
  obtain ⟨localPath, hpath, -⟩ := h.css
  have hended : ∃ log', run urls env req (n + 1) = .ended log' := by
    rw [run, hn, turn, assetTurn, h.next]
    by_cases hgone : env.aborted log.turn.turns = true
    · exact ⟨_, if_pos hgone⟩
    · have hsaved := hover.resolve_left hgone
      have hbody : (doFetch urls env 5 u log.turn.requests).1 = .body t :=
        fetchBody_eq_body.mpr h.serves
      simp only [if_neg hgone, hpath, Assets.visit, fetchBody, hbody, save]
      exact ⟨_, if_neg hsaved⟩
  obtain ⟨log', hended⟩ := hended
  rcases hcut n log' hended with ⟨log₂, hlog⟩ | ⟨b, log₂, hb, hle⟩
  · rw [hn] at hlog
    cases hlog
  · rw [hn] at hb
    cases hb
    have hnext := h.next
    rw [List.getElem?_eq_none hle] at hnext
    cases hnext

theorem few_of_finishes (hcut : Uncut urls env req) (h : Finishes urls env req) :
    FewReferences urls env req := by
  obtain ⟨m, log', hm⟩ := h.ends
  refine ⟨fun n a log u t hn htakes x hx hne hnew => ?_, finite_of_ended hm⟩
  have hnodup := list_nodup hcut h.once m hn (by rw [Nat.add_comm]; exact run_ended hm n)
  rw [news_of_takes htakes (goes_on hcut hn htakes)] at hnodup
  obtain ⟨-, hnews, hapart⟩ := List.nodup_append.mp hnodup
  have hfresh : (!(a.visited.insert u).contains x) = true := by simp [hne, hnew]
  have hmem : x ∈ (named urls t u).filter fun x => !(a.visited.insert u).contains x :=
    List.mem_filter.mpr ⟨hx, hfresh⟩
  refine ⟨?_, fun hwaits => hapart x (List.mem_of_mem_drop hwaits) x hmem rfl⟩
  have hcount := hnews.count (a := x)
  rw [if_pos hmem, List.count_filter (p := fun x => !(a.visited.insert u).contains x) hfresh] at hcount
  exact hcount

end OnlyThen

section Sites

def siteRoot : Text := ['h', 't', 't', 'p', ':', '/', '/', 's', '/']

def directory (u : Text) : Text := (u.reverse.dropWhile (· != '/')).reverse

def siteUrls : Urls where
  read u := if startsWith u siteRoot then some ⟨u, siteRoot.take 8, bare (u.drop 8)⟩ else none
  resolve reference base :=
    if startsWith (directory base ++ reference) siteRoot then some
    (directory base ++ reference) else none
  read_resolve := by
    intro reference base u hu
    split at hu
    · next hroot =>
      cases hu
      rw [if_pos hroot]
      rfl
    · cases hu
  isIP _ := 0
  parse _ := some ⟨SsrfGuard.http, .name ['s']⟩

def siteRequest : Request := ⟨siteRoot, siteRoot.take 8, .fin 50, .fin 3⟩

def numbered (k : ℕ) : Text := ['b', '.', 'c', 's', 's', '?'] ++ decimal k

def sheet (k : ℕ) : Text := ['u', 'r', 'l', '('] ++ numbered k ++ [')']

def sheetUrl (k : ℕ) : Text := siteRoot ++ numbered k

def sheetSite : Env := ⟨fun k _ => .ok (sheet k), fun _ => true, fun _ => false⟩

theorem decimal_injective : Function.Injective decimal :=
  Function.LeftInverse.injective (g := fun s => Nat.ofDigitChars 10 s 0) fun n =>
    Nat.ofDigitChars_toDigits (by decide) (by decide)

theorem holds_numbered {q : Char → Bool} (hdigit : ∀ c : Char, c.isDigit = true → q c = true)
    (hname : ['b', '.', 'c', 's', 's', '?'].all q = true) (k : ℕ) :
    ∀ c ∈ numbered k, q c = true := by
  intro c hc
  rcases List.mem_append.mp hc with hc | hc
  · exact List.all_eq_true.mp hname c hc
  · exact hdigit c (Nat.isDigit_of_mem_toDigits (by decide) (by decide) hc)

theorem ne_of_isDigit {c d : Char} (hc : c.isDigit = true) (hd : d.isDigit = false) : c ≠ d := by
  rintro rfl
  rw [hc] at hd
  cases hd

theorem isQuote_digit {c : Char} (hc : c.isDigit = true) : isQuote c = false := by
  simp [isQuote, ne_of_isDigit hc (d := '"') rfl, ne_of_isDigit hc (d := '\'') rfl]

variable {s : Text}

theorem matchPieces_cons {p : Piece} {ps : List Piece} {t rest group : Text} {n : ℕ}
    (hs : s = t ++ rest) (hleast : p.least ≤ t.length) (hlongest : (match p.most with
      | none => (s.takeWhile p.holds).length
      | some most => min most (s.takeWhile p.holds).length) = t.length)
    (hrest : matchPieces ps rest = some (group, n)) :
    matchPieces (p :: ps) s = some (if p.captured then t else group, t.length + n) := by
  obtain ⟨m, hm⟩ := Nat.exists_eq_add_of_le hleast
  rw [matchPieces]
  simp only [hlongest]
  rw [show t.length + 1 - p.least = m + 1 by omega, List.range_succ_eq_map, List.map_cons,
    List.findSome?_cons, Nat.sub_zero, hs, List.drop_left, hrest, Option.map_some, List.take_left]

theorem matchAll_skip {alternatives : List (List Piece)} {skip : ℕ} (h : s.length ≤ skip) :
    matchAll alternatives skip s = [] := by
  induction s generalizing skip with
  | nil => rw [matchAll]
  | cons c s ih =>
    obtain ⟨skip, rfl⟩ := Nat.exists_eq_add_one_of_ne_zero (n := skip)
      (by rw [List.length_cons] at h; omega)
    rw [matchAll]
    exact ih (Nat.le_of_succ_le_succ h)

theorem matchAll_whole {alternatives : List (List Piece)} {group : Text} (hs : s ≠ [])
    (h : alternatives.findSome? (matchPieces · s) = some (group, s.length)) :
    matchAll alternatives 0 s = [⟨s, group⟩] := by
  obtain ⟨c, s, rfl⟩ := List.exists_cons_of_ne_nil hs
  rw [matchAll, h]
  simp only [List.take_length]
  rw [matchAll_skip (Nat.le_of_eq (by simp))]

theorem matchAll_sheet (k : ℕ) : matchAll cssUrls 0 (sheet k) = [⟨sheet k, numbered k⟩] := by
  have hgroup : ∀ c ∈ numbered k, (!isQuote c && c != ')') = true := by
    refine holds_numbered (fun c hc => ?_) (by decide) k
    simp [isQuote_digit hc, ne_of_isDigit hc (d := ')') rfl]
  have hrun : ((numbered k ++ [')']).takeWhile fun c => !isQuote c && c != ')') = numbered k := by
    rw [List.takeWhile_append_of_pos hgroup]
    exact List.append_nil _
  have htail : matchPieces [optionalQuote, blanks, letter ')'] [')'] = some ([], 1) := by decide
  have hbody : matchPieces (group (fun c => !isQuote c && c != ')') :: [optionalQuote, blanks,
    letter ')']) (numbered k ++ [')']) = some (numbered k, (numbered k).length + 1) :=
    matchPieces_cons rfl (Nat.succ_pos _) (congrArg List.length hrun) htail
  have hquote := matchPieces_cons (p := optionalQuote) (t := []) rfl (Nat.zero_le _) rfl hbody
  have hinner := matchPieces_cons (p := blanks) (t := []) rfl (Nat.zero_le _) rfl hquote
  have hopen := matchPieces_cons (p := letter '(') (t := ['(']) rfl (Nat.le_refl _) rfl hinner
  have houter := matchPieces_cons (p := blanks) (t := []) rfl (Nat.zero_le _) rfl hopen
  have hl := matchPieces_cons (p := letter 'l') (t := ['l']) rfl (Nat.le_refl _) rfl houter
  have hr := matchPieces_cons (p := letter 'r') (t := ['r']) rfl (Nat.le_refl _) rfl hl
  have hu := matchPieces_cons (p := letter 'u') (t := ['u']) rfl (Nat.le_refl _) rfl hr
  have hlength : (sheet k).length = 1 + (1
    + (1 + (0 + (1 + (0 + (0 + ((numbered k).length + 1))))))) := by
    simp [sheet]
    omega
  have hall : matchPieces (word ['u', 'r', 'l'] ++ [blanks, letter '(', blanks, optionalQuote,
      group fun c => !isQuote c && c != ')', optionalQuote, blanks, letter ')']) (sheet k) =
        some (numbered k, (sheet k).length) := by
    rw [hlength]
    exact hu
  refine matchAll_whole (List.cons_ne_nil _ _) ?_
  rw [cssUrls, List.findSome?_cons, hall]

theorem startsWith_sheetUrl (k : ℕ) : startsWith (sheetUrl k) siteRoot = true := by
  rw [startsWith, List.isPrefixOf_iff_prefix]
  exact List.prefix_append _ _

theorem sheetUrl_injective : Function.Injective sheetUrl := by
  intro j k h
  exact decimal_injective (List.append_cancel_left (List.append_cancel_left h))

theorem directory_sheetUrl (k : ℕ) : directory (sheetUrl k) = siteRoot := by
  have hname : ∀ c ∈ (numbered k).reverse, (c != '/') = true := by
    intro c hc
    refine holds_numbered (q := (· != '/')) (fun d hd => ?_) (by decide) k c
      (List.mem_reverse.mp hc)
    simp [ne_of_isDigit hd (d := '/') rfl]
  rw [directory, sheetUrl, List.reverse_append, List.dropWhile_append_of_pos hname]
  rfl

theorem references_sheet {visited : List Text} {j k : ℕ} (h : sheetUrl k ∉ visited) :
    references siteUrls visited (sheet k) (sheetUrl j) = [sheetUrl k] := by
  have hresolve : siteUrls.resolve (numbered k) (sheetUrl j) = some (sheetUrl k) := by
    change (if startsWith (directory (sheetUrl j) ++ numbered k) siteRoot = true then _ else _) = _
    rw [directory_sheetUrl]
    exact if_pos (startsWith_sheetUrl k)
  have hdata : startsWith (sheetUrl k) dataScheme = false := rfl
  rw [references, resolved, matchAll_sheet]
  simp [hresolve, hdata, h]

theorem urlToPath_sheetUrl (k : ℕ) : urlToPath siteUrls (sheetUrl k) = some
    ['b', '.', 'c', 's', 's'] := by
  have hbare : bare ((sheetUrl k).drop 8) = ['/', 'b', '.', 'c', 's', 's'] := rfl
  rw [urlToPath]
  simp only [siteUrls, startsWith_sheetUrl, if_true, Option.map_some, hbare]
  rfl

theorem assetTurn_sheetSite {visited list : List Text} {k : ℕ} {log : Log}
    (hlist : list[k]? = some (sheetUrl k)) (hrequests : log.requests.length = k + 1)
    (hnew : sheetUrl (k + 1) ∉ visited.insert (sheetUrl k)) :
    ∃ log', log'.requests.length = k + 2 ∧ assetTurn siteUrls sheetSite ⟨visited, list, k⟩ log.turn =
      .loading ⟨visited.insert (sheetUrl k), list ++ [sheetUrl (k + 1)], k + 1⟩ log' := by
  have hfetch : doFetch siteUrls sheetSite 5 (sheetUrl k) log.turn.requests =
      (.body (sheet (k + 1)), log.requests ++ [sheetUrl k]) := by
    rw [← hrequests]
    rfl
  have hcss : endsWith ['b', '.', 'c', 's', 's'] ['.', 'c', 's', 's'] = true := rfl
  rw [assetTurn]
  simp only [hlist, urlToPath_sheetUrl, Assets.visit, fetchBody, hfetch, if_pos hcss,
    references_sheet hnew]
  refine ⟨_, ?_, rfl⟩
  simp [hrequests]

/-- The loop walks over a list that is always one longer. -/
theorem run_sheetSite (k : ℕ) : ∃ visited log, run siteUrls sheetSite siteRequest (k + 2) =
      .loading ⟨visited, (List.range (k + 1)).map sheetUrl, k⟩ log ∧ log.requests.length = k + 1 ∧
    ∀ u ∈ visited, u = siteRoot ∨ ∃ j < k, u = sheetUrl j := by
  induction k with
  | zero => exact ⟨[siteRoot], _, rfl, rfl, fun u hu => .inl (List.mem_singleton.mp hu)⟩
  | succ k ih =>
    obtain ⟨visited, log, hrun, hrequests, hvisited⟩ := ih
    have hnext : ∀ u ∈ visited.insert (sheetUrl k), u = siteRoot ∨ ∃ j < k + 1, u = sheetUrl j := by
      intro u hu
      rcases List.mem_insert_iff.mp hu with rfl | hu
      · exact .inr ⟨k, Nat.lt_succ_self k, rfl⟩
      · rcases hvisited u hu with rfl | ⟨j, hj, rfl⟩
        · exact .inl rfl
        · exact .inr ⟨j, Nat.lt_succ_of_lt hj, rfl⟩
    have hnew : sheetUrl (k + 1) ∉ visited.insert (sheetUrl k) := by
      intro hmem
      rcases hnext _ hmem with hroot | ⟨j, hj, heq⟩
      · cases hroot
      · exact Nat.ne_of_gt hj (sheetUrl_injective heq)
    have hlist : ((List.range (k + 1)).map sheetUrl)[k]? = some (sheetUrl k) := by simp
    obtain ⟨log', hrequests', hturn⟩ := assetTurn_sheetSite hlist hrequests hnew
    refine ⟨_, log', ?_, hrequests', hnext⟩
    rw [List.range_succ, List.map_append]
    exact (congrArg (turn siteUrls sheetSite siteRequest) hrun).trans hturn

def pageSite : Env where
  site _ u :=
    if u = siteRoot then .ok "<a href='c.html'>url(b.css)".toList
    else if u = siteRoot ++ "c.html".toList then .ok "<img src='i.png'>".toList
    else if u = siteRoot ++ "b.css".toList then .ok "url(j.png)url(d.css)".toList
    else if u = siteRoot ++ "d.css".toList then .redirect "e.css".toList
    else if u = siteRoot ++ "e.css".toList then .ok "url(k.png)url(d.css)".toList
    else .ok []
  saved _ := true
  aborted _ := false

/-- The condition on the references, in one state. -/
def neat (urls : Urls) (env : Env) : Clone → Bool
  | .loading a log =>
    match a.uniqueAssets[a.i]? with
    | none => true
    | some u =>
      match (fetchBody urls env u log.turn).1 with
      | .body t => (named urls t u).all fun x => x == u || a.visited.contains x ||
          (named urls t u).count x == 1 && !(a.uniqueAssets.drop (a.i + 1)).contains x
      | _ => true
  | _ => true

def Clone.over : Clone → Bool
  | .ended _ => true
  | _ => false

theorem exists_of_over {s : Clone} (h : s.over = true) : ∃ log, s = .ended log := by
  cases s with
  | ended log => exact ⟨log, rfl⟩
  | crawling c log => cases h
  | loading a log => cases h

theorem few_of_neat {urls : Urls} {env : Env} {req : Request} {m : ℕ} {log' : Log}
    (hm : run urls env req m = .ended log') (h : ∀ n < m, neat urls env (run urls env req n) = true) :
    FewReferences urls env req := by
  refine ⟨fun n a log u t hn htakes x hx hne hnew => ?_, finite_of_ended hm⟩
  have hneat := h n (lt_of_loading hm hn)
  rw [hn, neat] at hneat
  simp only [htakes.next, fetchBody_eq_body.mpr htakes.serves, List.all_eq_true] at hneat
  simpa [hne, hnew] using hneat x hx

end Sites

end Insula.CloneSite
