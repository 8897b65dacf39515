import Insula.DnsNames

/-!
# The text of a DNS record's content

`wire-format.ts`: what is sent for a record, and a form of it in which two spellings of one value
are equal. What the URL parser and `toUpperCase` do to a text is left open.
-/

namespace Insula.DnsServers

open Javascript Lowercase
open scoped Lookup

structure Builtins where
  lowering : Lowering
  toUpperCase : Text → Text
  /-- The host that the URL parser reads from `http://[…]/`, without the brackets. -/
  urlHostname : Text → Option Text

def asciiBuiltins : Builtins where
  lowering := asciiLowering
  toUpperCase s := s.map Char.toUpper
  urlHostname _ := none

structure DnsRecordInput where
  type : Text
  name : Text
  content : Text
  ttl : Option ℕ
  priority : Option ℕ
  weight : Option ℕ
  port : Option ℕ

def hostnameContentTypes : List Text :=
  ["CNAME".toList, "NS".toList, "PTR".toList, "DNAME".toList, "ALIAS".toList]

def splitSpaces (s : Text) : List Text :=
  if s = [] then [[]] else (s.splitOnP isSpace).filter (· ≠ [])

def hasNumericPrefix (content : Text) (count : ℕ) : Bool :=
  let parts := splitSpaces (trim content)
  parts.length = count + 1 && (parts.take count).all digits

def decimal (n : ℕ) : Text := (toString n).toList

def quoted (s : Text) : Bool := s.head? = some '"' && s.getLast? = some '"'

def quote (s : Text) : Text := if quoted s then s else '"' :: s ++ ['"']

def lineTerminator (c : Char) : Bool := c.toNat ∈ [10, 13, 0x2028, 0x2029]

/-- `/^(\d+)\s+([a-z0-9]+)\s+(.+)$/i`, on a trimmed text. -/
def matchCaa (raw : Text) : Option (Text × Text × Text) :=
  let flags := raw.takeWhile Char.isDigit
  let afterFlags := raw.dropWhile Char.isDigit
  let rest := afterFlags.dropWhile isSpace
  let tag := rest.takeWhile Char.isAlphanum
  let afterTag := rest.dropWhile Char.isAlphanum
  let value := afterTag.dropWhile isSpace
  if flags ≠ [] ∧ rest.length < afterFlags.length ∧ tag ≠ [] ∧ value.length < afterTag.length ∧
      value ≠ [] ∧ ¬ value.any lineTerminator then
    some (flags, tag, value)
  else none

def mxError : String :=
  "MX records require a priority (preference) — PowerDNS parses MX content as " ++
    "'<priority> <hostname>' and rejects a bare hostname."

def srvError : String :=
  "SRV records require priority, weight and port — PowerDNS parses SRV content as " ++
    "'<priority> <weight> <port> <target>'."

def caaError : String :=
  "CAA records must be written as '<flags> <tag> \"<value>\"', " ++
    "e.g. '0 issue \"letsencrypt.org\"'."

section Functions

variable (lib : Builtins)

def formatContent (input : DnsRecordInput) : Except String Text :=
  let type := lib.toUpperCase input.type
  let raw := trim input.content
  if type = "MX".toList then
    if hasNumericPrefix raw 1 then
      match splitSpaces raw with
      | [pref, target] => .ok (pref ++ ' ' :: fqdn target)
      | _ => .error mxError
    else
      match input.priority with
      | none => .error mxError
      | some priority => .ok (decimal priority ++ ' ' :: fqdn raw)
  else if type = "SRV".toList then
    if hasNumericPrefix raw 3 then
      match splitSpaces raw with
      | [prio, weight, port, target] =>
        .ok (prio ++ ' ' :: weight ++ ' ' :: port ++ ' ' :: fqdn target)
      | _ => .error srvError
    else
      match input.priority, input.weight, input.port with
      | some priority, some weight, some port =>
        .ok (decimal priority ++ ' ' :: decimal weight ++ ' ' :: decimal port ++ ' ' :: fqdn raw)
      | _, _, _ => .error srvError
  else if type = "CAA".toList then
    match matchCaa raw with
    | none => .error caaError
    | some (flags, tag, value) =>
      .ok (flags ++ ' ' :: lib.lowering.toLowerCase tag ++ ' ' :: quote value)
  else if type = "TXT".toList ∨ type = "SPF".toList then .ok (quote raw)
  else if type ∈ hostnameContentTypes then .ok (fqdn raw)
  else .ok raw

/-- `replace(/(?<!\\)"\s+"/g, '')`, after the character `previous`; at most one step a
character. -/
def joinStrings (previous : Option Char) : ℕ → Text → Text
  | 0, s => s
  | _, [] => []
  | fuel + 1, c :: s =>
    let after := s.dropWhile isSpace
    if c = '"' ∧ previous ≠ some '\\' ∧ after.length < s.length ∧ after.head? = some '"' then
      joinStrings (some '"') fuel after.tail
    else c :: joinStrings (some c) fuel s

def canonicalContent (input : DnsRecordInput) : Except String Text := do
  let type := lib.toUpperCase input.type
  let wire ← formatContent lib input
  if type = "TXT".toList ∨ type = "SPF".toList then return joinStrings none wire.length wire
  else if type = "AAAA".toList then
    return (lib.urlHostname wire).getD (lib.lowering.toLowerCase wire)
  else if type = "MX".toList ∨ type = "SRV".toList ∨ type ∈ hostnameContentTypes then
    return lib.lowering.toLowerCase wire
  else return wire

def bareRecord (type name content : Text) : DnsRecordInput where
  type := type
  name := name
  content := content
  ttl := none
  priority := none
  weight := none
  port := none

def sameStoredValue (type name stored canonical : Text) : Bool :=
  match canonicalContent lib (bareRecord type name stored) with
  | .ok content => content = canonical
  | .error _ => stored = canonical

theorem canonicalContent_error_iff (input : DnsRecordInput) (e : String) :
    canonicalContent lib input = .error e ↔ formatContent lib input = .error e := by
  unfold canonicalContent
  cases formatContent lib input with
  | error e' => simp [bind, Except.bind]
  | ok wire =>
    simp only [bind, Except.bind, pure, Except.pure, reduceCtorEq, iff_false]
    split_ifs <;> simp

end Functions

end Insula.DnsServers
