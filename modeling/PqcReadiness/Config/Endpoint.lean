import PqcReadiness.Config.Policy

/-!
# Endpoints of services

What the parsers of service configurations share: the ranks of protocol versions, whether TLS 1.3
can be negotiated (`tls13_allowed`), group lists as services spell them (`split_groups`), and the
record of an endpoint with its judgement (`make_endpoint`).
-/

namespace PqcReadiness.Config

open PqcReadiness.Lib

/-! ## Protocol versions -/

/-- `_PROTO_RANK`, in tenths. -/
def protoRanks : List (String × ℕ) :=
  [("sslv2", 2), ("sslv3", 3), ("tlsv1", 10), ("tlsv1.0", 10), ("tls1", 10), ("tls1.0", 10),
    ("1.0", 10), ("tlsv1.1", 11), ("tls1.1", 11), ("1.1", 11), ("tlsv1.2", 12), ("tls1.2", 12),
    ("1.2", 12), ("tlsv1.3", 13), ("tls1.3", 13), ("1.3", 13)]

/-- `s.lower()`, compared with ASCII text that has neither `i` nor `k`. -/
def lowerAscii (s : Chars) : Chars := s.map Char.toLower

/-- `s.strip("'\"")`. -/
def stripQuotes (s : Chars) : Chars :=
  let isQuote := fun c : Char => c = '\'' || c = '"'
  ((s.dropWhile isQuote).reverse.dropWhile isQuote).reverse

theorem stripQuotes_of_plain {s : Chars} (hs : ∀ c ∈ s, c ≠ '\'' ∧ c ≠ '"') : stripQuotes s = s := by
  have hdrop : ∀ s : Chars, (∀ c ∈ s, c ≠ '\'' ∧ c ≠ '"') →
      s.dropWhile (fun c : Char => c = '\'' || c = '"') = s := by
    intro s hs
    cases s with
    | nil => rfl
    | cons c rest =>
        have hc := hs c List.mem_cons_self
        rw [List.dropWhile_cons, if_neg (by simpa using hc)]
  rw [stripQuotes, hdrop s hs, hdrop s.reverse fun c hc => hs c (List.mem_reverse.mp hc),
    List.reverse_reverse]

/-- `proto_rank`. -/
def protoRank (name : Chars) : Option ℕ :=
  let key := (lowerAscii (stripQuotes (stripChars name))).map fun c => if c = '_' then '.' else c
  (protoRanks.find? fun rank => rank.1.toList = key).map Prod.snd

/-- `tls13_allowed`. -/
def tls13Allowed (allowed : Option (List Chars)) (minimum maximum : Option Chars) : Option Bool :=
  if (maximum.bind protoRank).any (· < 13) then some false
  else if (minimum.bind protoRank).any (13 < ·) then some false
  else
    match allowed with
    | none => none
    | some names =>
        let ranks := names.filterMap protoRank
        if ranks = [] then none else some (ranks.contains 13)

/-! ## Groups -/

/-- The separators of `split_groups`. -/
def isGroupSep (c : Char) : Bool := c = ':' || c = ',' || c = '/' || isSpace c

/-- `split_groups`.  The pieces that are empty, which `re.split` makes only at the ends, are left
out anyway. -/
def splitGroups (value : Option Chars) : Option (List Chars) :=
  match value with
  | none => none
  | some value =>
      let v := stripQuotes (stripChars value)
      if v = [] ∨ lowerAscii v = "auto".toList then none
      else
        let toks := ((splitWhere isGroupSep v).map stripChars).filter fun tok =>
          tok ≠ [] && tok.head? ≠ some '-'
        let out := toks.map fun tok => tok.dropWhile isMark
        if out = [] then none else some out

/-- `classify_groups`. -/
def classifyGroups (groups : List Chars) : PqcNames := classifyPqc groups pqcKemTokenRe

/-! ## The record -/

/-- The arguments of `make_endpoint`. -/
structure EndpointSettings where
  file : String
  line : Option ℕ
  ports : List ℕ
  context : Option String := none
  groups : Option (List Chars) := none
  groupsSetting : Option String := none
  serviceDefaultGroups : Option (List Chars) := none
  serviceSupportsPqcGroups : Option Bool := none
  protocols : Option (List Chars) := none
  minProtocol : Option Chars := none
  maxProtocol : Option Chars := none
  ciphers : Option String := none
  ciphersuites : Option String := none
  certificates : List String := []
  role : String := "server"
  note : Option String := none

/-- An endpoint. -/
structure Endpoint where
  file : String
  line : Option ℕ
  context : Option String
  role : String
  ports : List ℕ
  groups : Option (List Chars)
  groupsSetting : Option String
  groupsSource : String
  pqcGroups : Option PqcNames
  protocols : Option (List Chars)
  minProtocol : Option Chars
  maxProtocol : Option Chars
  tls13Allowed : Option Bool
  ciphers : Option String
  ciphersuites : Option String
  certificates : List String
  serviceSupportsPqcGroups : Option Bool
  followsLibraryDefault : Bool
  pqcKeyExchange : Option Bool
  reason : String
  note : Option String

/-- The groups that decide, and where they come from. -/
def effectiveGroups (settings : EndpointSettings) : Option (List Chars) × String :=
  match settings.groups, settings.serviceDefaultGroups with
  | some groups, _ => (some groups, "config")
  | none, some groups => (some groups, "service default")
  | none, none => (none, "library default")

/-- `pqc` and `reason`. -/
def judgement (settings : EndpointSettings) : Option Bool × String :=
  let (effective, source) := effectiveGroups settings
  let setting := settings.groupsSetting.getD ""
  let where' := if setting = "" then "groups" else setting
  if tls13Allowed settings.protocols settings.minProtocol settings.maxProtocol = some false then
    (some false, "TLS 1.3 is disabled; hybrid ML-KEM groups need TLS 1.3")
  else if settings.serviceSupportsPqcGroups = some false then
    (some false, "the service can only use a single elliptic curve, never ML-KEM")
  else
    match effective with
    | some groups =>
        if (classifyGroups groups).reported then
          (some true, where' ++ " (" ++ source ++ ") includes an ML-KEM group")
        else (some false, where' ++ " (" ++ source ++ ") has no ML-KEM group")
    | none =>
        (none,
          "no group setting: follows the TLS library default (crypto policy / openssl.cnf)")

/-- `make_endpoint`. -/
def makeEndpoint (settings : EndpointSettings) : Endpoint where
  file := settings.file
  line := settings.line
  context := settings.context
  role := settings.role
  ports := sortedBy id settings.ports.dedup
  groups := (effectiveGroups settings).1
  groupsSetting := settings.groupsSetting
  groupsSource := (effectiveGroups settings).2
  pqcGroups := (effectiveGroups settings).1.map classifyGroups
  protocols := settings.protocols
  minProtocol := settings.minProtocol
  maxProtocol := settings.maxProtocol
  tls13Allowed := tls13Allowed settings.protocols settings.minProtocol settings.maxProtocol
  ciphers := settings.ciphers
  ciphersuites := settings.ciphersuites
  certificates := settings.certificates
  serviceSupportsPqcGroups := settings.serviceSupportsPqcGroups
  followsLibraryDefault := (judgement settings).1.isNone
  pqcKeyExchange := (judgement settings).1
  reason := (judgement settings).2
  note := settings.note

/-- Without groups of the service itself, an endpoint has those of the configuration. -/
theorem makeEndpoint_groups {settings : EndpointSettings}
    (hdefault : settings.serviceDefaultGroups = none) :
    (makeEndpoint settings).groups = settings.groups := by
  rw [makeEndpoint, effectiveGroups, hdefault]
  cases settings.groups <;> rfl

end PqcReadiness.Config
