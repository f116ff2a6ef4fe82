import PqcReadiness.Report
import PqcReadiness.Lib.IpAddress

/-!
# One observation record

`validate_record` and what it calls.  A record is any JSON value; the validator
returns the list of problems in the order of its checks.

Two of its operations can raise on an arbitrary value, and neither is caught:
the membership test `protocol not in PROTOCOL_TRANSPORT` hashes its operand,
and `int` refuses a numeral of more than 4300 digits.  They are the two values
of `Crash`.

Parsing of ISO 8601 texts is the parameter `fromIsoFormat`; nothing here depends
on which texts it accepts.
-/

namespace PqcReadiness.Observations

open Lib

/-- An exception that the validator neither raises on purpose nor catches. -/
inductive Crash where
  | typeError
  | valueError
  deriving DecidableEq

/-! ## Times, addresses and versions -/

/-- A parsed date and time: microseconds since the epoch, and whether the text
had an offset. -/
structure DateTime where
  instant : ℤ
  hasOffset : Bool

/-- `_parse_time`, of a text. -/
def parseTimeText (fromIsoFormat : String → Option DateTime) (value : String) : Option DateTime :=
  let text := strip value
  let text :=
    if endsWith "Z" text || endsWith "z" text then
      String.ofList text.toList.dropLast ++ "+00:00"
    else text
  (fromIsoFormat text).filter DateTime.hasOffset

/-- `_parse_time`. -/
def parseTime (fromIsoFormat : String → Option DateTime) (value : Json) : Option DateTime :=
  value.asStr.bind (parseTimeText fromIsoFormat)

/-- `_normalise_ip`. -/
def normaliseIp (value : String) : Option String :=
  (IpAddress.parse (strip value).toList).map fun addr =>
    match addr.mapped with
    | some octets => IpAddress.quadText octets
    | none => addr.toText

/-- The longest numeral that `int` converts. -/
def maxStrDigits : ℕ := 4300

/-- `int(text)` of a text of decimal digits. -/
def intOfText (digits : List Char) : Except Crash ℕ :=
  if maxStrDigits < digits.length then .error .valueError else .ok (decimal digits)

/-- `re.fullmatch(r"(\d+)\.(\d+)", text)`: the two groups. -/
def versionGroups (text : String) : Option (List Char × List Char) :=
  match splitChars '.' text.toList with
  | [major, minor] =>
      if major ≠ [] ∧ major.all isDigit ∧ minor ≠ [] ∧ minor.all isDigit then some (major, minor)
      else none
  | _ => none

/-- `_version_tuple`. -/
def versionTuple (value : Json) : Except Crash (Option (ℕ × ℕ)) :=
  match value.asStr.bind fun text => versionGroups (strip text) with
  | none => .ok none
  | some (major, minor) => do
      let first ← intOfText major
      let second ← intOfText minor
      return some (first, second)

/-! ## Protocols -/

/-- The protocols an observation can be about. -/
inductive Protocol where
  | tls
  | ssh
  | quic
  | dtls
  | ikev2
  deriving DecidableEq

namespace Protocol

/-- The keys of `PROTOCOL_TRANSPORT`, in order. -/
def all : List Protocol := [tls, ssh, quic, dtls, ikev2]

/-- The name of a protocol in a record. -/
def name : Protocol → String
  | tls => "tls"
  | ssh => "ssh"
  | quic => "quic"
  | dtls => "dtls"
  | ikev2 => "ikev2"

/-- `PROTOCOL_TRANSPORT`. -/
def transport : Protocol → Transport
  | tls => .tcp
  | ssh => .tcp
  | quic => .udp
  | dtls => .udp
  | ikev2 => .udp

/-- The protocol with this name. -/
def ofName (name : String) : Option Protocol := all.find? fun protocol => protocol.name = name

theorem ofName_eq_some_iff {name : String} {protocol : Protocol} :
    ofName name = some protocol ↔ name = protocol.name := by
  constructor
  · intro hfound
    have hname := List.find?_some hfound
    exact (of_decide_eq_true hname).symm
  · rintro rfl
    cases protocol <;> rfl

/-- The table lookup that decides membership; a list or an object has no hash. -/
def lookup : Json → Except Crash (Option Protocol)
  | .str value => .ok (ofName value)
  | .arr _ => .error .typeError
  | .obj _ => .error .typeError
  | _ => .ok none

end Protocol

/-- A transport named in a record. -/
def transportOf : Json → Option Transport
  | .str value => [Transport.tcp, Transport.udp].find? fun transport => transport.name = value
  | _ => none

theorem transportOf_eq_some_iff {value : Json} {transport : Transport} :
    transportOf value = some transport ↔ value = .str transport.name := by
  constructor
  · intro hfound
    cases value with
    | str text => simpa [eq_comm] using List.find?_some hfound
    | _ => simp [transportOf] at hfound
  · rintro rfl
    cases transport <;> rfl

/-- `SOURCE_CATEGORIES`. -/
def sourceCategories : List String :=
  ["active-endpoint-scan", "passive-network-sensor", "edge-or-proxy-log", "client-telemetry",
    "manual"]

/-! ## Patterns -/

/-- The first character of a DNS label. -/
def isLabelStart (c : Char) : Bool := c.isAlphanum || c == '_'

/-- One DNS label, of 1 to 63 characters. -/
def isLabel : List Char → Bool
  | [] => false
  | c :: rest =>
      isLabelStart c && rest.length ≤ 62 && rest.all fun d => isLabelStart d || d == '-'

/-- `_HOSTNAME` without its anchors: labels separated by dots, an optional dot at
the end, and at most 253 characters before that dot. -/
def hostnameText (s : String) : Bool :=
  -- The lookahead allows the dot at the end on top of the 253 characters.
  let body := if endsWith "." s then s.toList.dropLast else s.toList
  body.length ≤ 253 && (splitChars '.' body).all isLabel

/-- `_HEX64` without its anchors. -/
def hex64Text (s : String) : Bool := s.toList.length == 64 && s.toList.all isHex

/-! ## The checks -/

/-- `_RECORD_KEYS`. -/
def recordKeys : List String :=
  ["observation_schema_version", "id", "observed_at", "protocol", "transport", "fqdn", "ip",
    "port", "sni", "negotiated_group", "additional_key_exchanges", "offered_groups",
    "tls_version", "certificate_sha256", "source"]

/-- `_SOURCE_KEYS`. -/
def sourceKeys : List String := ["category", "name", "version"]

/-- The keys that are neither known nor extensions, sorted. -/
def unknownKeys (known : List String) (members : List (String × Json)) : List String :=
  sortedBy id ((members.map Prod.fst).filter fun key =>
    !known.contains key && !startsWith "x-" key)

/-- `observation_schema_version`. -/
def checkVersion (version : Json) : Option (ℕ × ℕ) → List String
  | none => ["observation_schema_version missing or not MAJOR.MINOR"]
  | some (major, _) =>
      if major ≠ 1 then
        ["observation_schema_version " ++ orEmpty version.asStr ++
          " unsupported (this scanner reads 1.x)"]
      else []

/-- A newer minor version may carry keys that are not known yet. -/
def newerMinor : Option (ℕ × ℕ) → Bool
  | some (1, minor) => 0 < minor
  | _ => false

/-- Unknown keys, under the label of the object they stand in. -/
def checkKeys (label : String) (newer : Bool) (known : List String)
    (members : List (String × Json)) : List String :=
  if unknownKeys known members ≠ [] ∧ !newer then
    [label ++ ": " ++ join ", " (unknownKeys known members)]
  else []

/-- `observed_at`. -/
def checkTime (fromIsoFormat : String → Option DateTime) (value : Json) : List String :=
  if (parseTime fromIsoFormat value).isNone then
    ["observed_at missing or not an RFC 3339 date-time with offset"]
  else []

/-- `protocol`. -/
def checkProtocol (protocol : Option Protocol) : List String :=
  if protocol.isNone then
    ["protocol must be one of " ++ join ", " (Protocol.all.map Protocol.name)]
  else []

/-- `transport`. -/
def checkTransport (protocol : Option Protocol) : Json → List String
  | .null => []
  | value =>
      match transportOf value, protocol with
      | none, _ => ["transport must be tcp or udp"]
      | some transport, some protocol =>
          if transport ≠ protocol.transport then
            ["transport " ++ transport.name ++ " does not carry " ++ protocol.name]
          else []
      -- An unknown protocol has been reported already.
      | some _, none => []

/-- `port`. -/
def checkPort : Json → List String
  | .int value => if 1 ≤ value ∧ value ≤ 65535 then [] else ["port must be an integer 1-65535"]
  | _ => ["port must be an integer 1-65535"]

/-- The record names an endpoint. -/
def checkNamed (fqdn ip : Json) : List String :=
  if fqdn.isNull && ip.isNull then ["at least one of fqdn or ip is required"] else []

/-- An optional member that has to pass `accept`. -/
def checkOptional (accept : Json → Bool) (problem : String) (value : Json) : List String :=
  if !value.isNull && !accept value then [problem] else []

/-- Is the value a text that passes `accept`? -/
def isText (accept : String → Bool) (value : Json) : Bool := value.asStr.any accept

/-- `fqdn` and `sni`. -/
def checkHostname (key : String) : Json → List String :=
  checkOptional (isText (beforeNewline hostnameText)) (key ++ " is not a DNS name")

/-- `ip`. -/
def checkIp : Json → List String :=
  checkOptional (isText fun text => (normaliseIp text).isSome) "ip is not an IPv4 or IPv6 address"

/-- `negotiated_group`, `tls_version` and `id`. -/
def checkText (key : String) : Json → List String :=
  checkOptional (isText fun text => strip text ≠ "") (key ++ " must be a non-empty string")

/-- `isinstance(value, list) and all(isinstance(v, str) and v for v in value)`. -/
def isTextList : Json → Bool
  | .arr items => items.all (isText (· ≠ ""))
  | _ => false

/-- `additional_key_exchanges` and `offered_groups`. -/
def checkTextList (key : String) : Json → List String :=
  checkOptional isTextList (key ++ " must be a list of non-empty strings")

/-- `certificate_sha256`. -/
def checkCertificate : Json → List String :=
  checkOptional (isText (beforeNewline hex64Text)) "certificate_sha256 must be 64 hex characters"

/-- `source`. -/
def checkSource (newer : Bool) : Json → List String
  | .obj members =>
      [if isText sourceCategories.contains (Json.get members "category") then []
        else ["source.category must be one of " ++ join ", " sourceCategories],
        checkOptional (isText fun _ => true) "source.name must be a string"
          (Json.get members "name"),
        checkOptional (isText fun _ => true) "source.version must be a string"
          (Json.get members "version"),
        checkKeys "unknown source keys" newer sourceKeys members].flatten
  | _ => ["source object is required"]

/-! ## The validator -/

/-- The version a record is read with. -/
def recordVersion (members : List (String × Json)) (inherited : Option String) : Json :=
  (find "observation_schema_version" members).getD ((inherited.map Json.str).getD .null)

/-- The problems of a record, once its version and protocol are looked up. -/
def problems (fromIsoFormat : String → Option DateTime) (members : List (String × Json))
    (version : Json) (vt : Option (ℕ × ℕ)) (protocol : Option Protocol) : List (List String) :=
  [checkVersion version vt,
    checkKeys "unknown keys" (newerMinor vt) recordKeys members,
    checkTime fromIsoFormat (Json.get members "observed_at"),
    checkProtocol protocol,
    checkTransport protocol (Json.get members "transport"),
    checkPort (Json.get members "port"),
    checkNamed (Json.get members "fqdn") (Json.get members "ip"),
    checkHostname "fqdn" (Json.get members "fqdn"),
    checkHostname "sni" (Json.get members "sni"),
    checkIp (Json.get members "ip"),
    checkText "negotiated_group" (Json.get members "negotiated_group"),
    checkText "tls_version" (Json.get members "tls_version"),
    checkText "id" (Json.get members "id"),
    checkTextList "additional_key_exchanges" (Json.get members "additional_key_exchanges"),
    checkTextList "offered_groups" (Json.get members "offered_groups"),
    checkCertificate (Json.get members "certificate_sha256"),
    checkSource (newerMinor vt) (Json.get members "source")]

/-- `validate_record`. -/
def validateRecord (fromIsoFormat : String → Option DateTime) (rec : Json)
    (inherited : Option String) : Except Crash (List String) :=
  match rec with
  | .obj members => do
      let version := recordVersion members inherited
      let vt ← versionTuple version
      let protocol ← Protocol.lookup (Json.get members "protocol")
      return (problems fromIsoFormat members version vt protocol).flatten
  | _ => .ok ["record is not a JSON object"]

end PqcReadiness.Observations
