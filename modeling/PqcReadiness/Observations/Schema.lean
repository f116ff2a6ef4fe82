import PqcReadiness.Lib.Schema
import PqcReadiness.Observations.Record

/-!
# The validator against the published schema

`recordSchema` is `$defs/record` of `endpoint-observation-1.0.schema.json`, keyword
by keyword.  The validator says that it mirrors it, and for a record of version
1.0 the two differ in three ways:

* every optional member may be null for the validator, none for the schema;
* a pattern that ends in `$` lets one newline pass in the validator;
* a text of blanks has length at least one, and `443.0` is an integer, for the
  schema only.

## Strategy

Each member of a record gets a `Reading`, which says who accepts it.  The
validator accepts a record when it accepts every reading, and so does the schema,
so that both are determined by the list `readings`.  `agrees_iff` then says
when two such tests of one list have the same result.
-/

namespace PqcReadiness.Observations

open Lib

/-! ## The schema -/

section Schema

variable (isDateTime isIp : String → Bool)

/-- `type: string, minLength: 1`. -/
def nonEmptySchema : Schema := .allOf [.type .string, .minLength 1]

/-- `type: array` of non-empty strings. -/
def nonEmptyListSchema : Schema := .allOf [.type .array, .items nonEmptySchema]

/-- `type: string` with a pattern. -/
def patternSchema (accept : String → Bool) : Schema := .allOf [.type .string, .pattern accept]

/-- `$defs/version`: `^1\.[0-9]+$`. -/
def versionText (s : String) : Bool :=
  match s.toList with
  | '1' :: '.' :: minor => minor ≠ [] && minor.all fun c => '0' ≤ c && c ≤ '9'
  | _ => false

/-- The `source` property. -/
def sourceSchema : Schema :=
  .allOf [.type .object, .required ["category"],
    .properties [("category", .enum sourceCategories), ("name", .type .string),
      ("version", .type .string)],
    .closed sourceKeys "x-"]

/-- The `properties` of `$defs/recordBody`. -/
def recordProperties : List (String × Schema) :=
  [("observation_schema_version", patternSchema versionText),
    ("id", nonEmptySchema),
    ("observed_at", patternSchema isDateTime),
    ("protocol", .enum (Protocol.all.map Protocol.name)),
    ("transport", .enum ["tcp", "udp"]),
    ("fqdn", patternSchema hostnameText),
    ("ip", patternSchema isIp),
    ("port", .allOf [.type .integer, .minimum 1, .maximum 65535]),
    ("sni", patternSchema hostnameText),
    ("negotiated_group", nonEmptySchema),
    ("additional_key_exchanges", nonEmptyListSchema),
    ("offered_groups", nonEmptyListSchema),
    ("tls_version", nonEmptySchema),
    ("certificate_sha256", patternSchema hex64Text),
    ("source", sourceSchema)]

/-- `$defs/recordBody`. -/
def recordBodySchema : Schema :=
  .allOf [.type .object, .required ["observed_at", "protocol", "port", "source"],
    .anyOf [.required ["fqdn"], .required ["ip"]],
    .properties (recordProperties isDateTime isIp),
    .closed ((recordProperties isDateTime isIp).map Prod.fst) "x-"]

/-- `$defs/record`. -/
def recordSchema : Schema :=
  .allOf [recordBodySchema isDateTime isIp, .required ["observation_schema_version"]]

end Schema

/-- What the schema's description asks of `transport`, beside its enumeration: when
present, it is the transport of the record's protocol. -/
def TransportAgrees (members : List (String × Json)) : Prop :=
  ∀ value, find "transport" members = some value →
    ∃ protocol : Protocol, Json.get members "protocol" = .str protocol.name ∧
      value = .str protocol.transport.name

/-! ## Who accepts what -/

/-- Who accepts a member of a record. -/
inductive Reading where
  | both
  | validatorOnly
  | schemaOnly
  | neither
  deriving DecidableEq

/-- Does the validator accept it? -/
def Reading.validator : Reading → Bool
  | both => true
  | validatorOnly => true
  | _ => false

/-- Does the schema accept it? -/
def Reading.schema : Reading → Bool
  | both => true
  | schemaOnly => true
  | _ => false

/-- Two tests of one list of readings agree when a reading fails both, or when
each is failed alone or neither is. -/
theorem agrees_iff (readings : List Reading) :
    ((∀ reading ∈ readings, reading.validator) ↔ ∀ reading ∈ readings, reading.schema) ↔
      (.neither ∈ readings ∨ (.validatorOnly ∈ readings ↔ .schemaOnly ∈ readings)) := by
  have hvalidator : (∀ reading ∈ readings, reading.validator = true) ↔
      .neither ∉ readings ∧ .schemaOnly ∉ readings := by
    constructor
    · intro hall
      exact ⟨fun hmem => by simpa [Reading.validator] using hall _ hmem,
        fun hmem => by simpa [Reading.validator] using hall _ hmem⟩
    · rintro ⟨hneither, hschema⟩ reading hmem
      cases reading <;> first | rfl | contradiction
  have hschema : (∀ reading ∈ readings, reading.schema = true) ↔
      .neither ∉ readings ∧ .validatorOnly ∉ readings := by
    constructor
    · intro hall
      exact ⟨fun hmem => by simpa [Reading.schema] using hall _ hmem,
        fun hmem => by simpa [Reading.schema] using hall _ hmem⟩
    · rintro ⟨hneither, hvalidator⟩ reading hmem
      cases reading <;> first | rfl | contradiction
  rw [hvalidator, hschema]
  tauto

/-- An optional member that both sides take when `shared` holds of it, the
validator alone when `lenient` does, the schema alone when `strict` does. -/
def optionalReading (shared lenient strict : Json → Bool) : Option Json → Reading
  | none => .both
  | some value =>
      if shared value then .both
      else if value.isNull || lenient value then .validatorOnly
      else if strict value then .schemaOnly
      else .neither

/-- A member that has to be there. -/
def requiredReading (shared : Json → Bool) (value : Option Json) : Reading :=
  if value.any shared then .both else .neither

/-- A text that ends in a newline, and passes `accept` without it. -/
def hasFinalNewline (accept : String → Bool) : Json → Bool :=
  isText fun text => endsWith "\n" text && accept (dropLast "\n" text)

/-- A member with a pattern. -/
def patternReading (accept : String → Bool) : Option Json → Reading :=
  optionalReading (isText accept) (hasFinalNewline accept) fun _ => false

/-- `negotiated_group`, `tls_version` and `id`: a text of blanks is text. -/
def textReading : Option Json → Reading :=
  optionalReading (isText fun text => strip text ≠ "") (fun _ => false)
    (isText fun text => text ≠ "" && strip text = "")

/-- `additional_key_exchanges` and `offered_groups`. -/
def textListReading : Option Json → Reading :=
  optionalReading isTextList (fun _ => false) fun _ => false

/-- `port`: an integer may be written with a zero fraction. -/
def portReading : Option Json → Reading
  | some (.int value) => if 1 ≤ value ∧ value ≤ 65535 then .both else .neither
  | some (.float value) =>
      if value.isInt ∧ 1 ≤ value ∧ value ≤ 65535 then .schemaOnly else .neither
  | _ => .neither

/-- `protocol` and `transport`: with no protocol there is nothing to agree with. -/
def transportReading (members : List (String × Json)) : Reading :=
  match Protocol.lookup (Json.get members "protocol") with
  | .ok (some protocol) =>
      optionalReading (isText (· = protocol.transport.name)) (fun _ => false) (fun _ => false)
        (find "transport" members)
  | _ => .neither

/-- A record names an endpoint by a member that is not null. -/
def namedReading (members : List (String × Json)) : Reading :=
  if (Json.get members "fqdn").isNull && (Json.get members "ip").isNull then .neither else .both

/-- Keys that are known or extensions. -/
def keysReading (known : List String) (members : List (String × Json)) : Reading :=
  if members.all fun entry => known.contains entry.1 || startsWith "x-" entry.1 then .both
  else .neither

/-- A text that may be left out. -/
def anyTextReading : Option Json → Reading :=
  optionalReading (isText fun _ => true) (fun _ => false) fun _ => false

/-- `source`. -/
def sourceReadings : Option Json → List Reading
  | some (.obj members) =>
      [requiredReading (isText sourceCategories.contains) (find "category" members),
        anyTextReading (find "name" members), anyTextReading (find "version" members),
        keysReading sourceKeys members]
  | _ => [.neither]

/-- Who accepts each part of a record. -/
def readings (isDateTime : String → Bool) (members : List (String × Json)) : List Reading :=
  [keysReading recordKeys members,
    requiredReading (isText isDateTime) (find "observed_at" members),
    transportReading members,
    portReading (find "port" members),
    namedReading members,
    patternReading hostnameText (find "fqdn" members),
    patternReading hostnameText (find "sni" members),
    optionalReading (isText fun text => (normaliseIp text).isSome) (fun _ => false)
      (fun _ => false) (find "ip" members),
    textReading (find "negotiated_group" members),
    textReading (find "tls_version" members),
    textReading (find "id" members),
    textListReading (find "additional_key_exchanges" members),
    textListReading (find "offered_groups" members),
    patternReading hex64Text (find "certificate_sha256" members)] ++
    sourceReadings (find "source" members)

/-! ## The validator reads the list of readings -/

section Validator

variable {members : List (String × Json)} {key : String}

theorem checkOptional_eq_nil_iff {accept shared lenient : Json → Bool} (strict : Json → Bool)
    (problem : String) (haccept : ∀ value, accept value = (shared value || lenient value)) :
    checkOptional accept problem (Json.get members key) = [] ↔
      (optionalReading shared lenient strict (find key members)).validator := by
  unfold Json.get checkOptional optionalReading
  cases find key members with
  | none => simp [Json.isNull, Reading.validator]
  | some value =>
      simp only [Option.getD_some, haccept]
      cases shared value <;> cases value.isNull <;> cases lenient value <;> cases strict value <;>
        simp [Reading.validator]

theorem checkPattern_eq_nil_iff (accept : String → Bool) (problem : String) :
    checkOptional (isText (beforeNewline accept)) problem (Json.get members key) = [] ↔
      (patternReading accept (find key members)).validator := by
  apply checkOptional_eq_nil_iff _ problem
  intro value
  cases value <;> simp [isText, hasFinalNewline, beforeNewline, Json.asStr]

theorem checkKeys_eq_nil_iff (label : String) (known : List String) :
    checkKeys label false known members = [] ↔ (keysReading known members).validator := by
  have hknown : unknownKeys known members = [] ↔
      members.all fun entry => known.contains entry.1 || startsWith "x-" entry.1 := by
    rw [unknownKeys, ← List.length_eq_zero_iff, (sortedBy_perm id _).length_eq,
      List.length_eq_zero_iff, List.filter_eq_nil_iff, List.all_eq_true]
    simp [List.mem_map, or_iff_not_imp_left]
  unfold checkKeys keysReading
  by_cases hall : members.all fun entry => known.contains entry.1 || startsWith "x-" entry.1
  · rw [if_pos hall]
    simp [hknown.mpr hall, Reading.validator]
  · rw [if_neg hall]
    simp [mt hknown.mp hall, Reading.validator]

theorem checkTime_eq_nil_iff (fromIsoFormat : String → Option DateTime) :
    checkTime fromIsoFormat (Json.get members key) = [] ↔
      (requiredReading (isText fun text => (parseTimeText fromIsoFormat text).isSome)
        (find key members)).validator := by
  unfold Json.get checkTime requiredReading parseTime
  cases find key members with
  | none => simp [Json.asStr, Reading.validator]
  | some value =>
      cases value with
      | str text =>
          cases htime : parseTimeText fromIsoFormat text <;>
            simp [isText, Json.asStr, Reading.validator, htime]
      | _ => simp [isText, Json.asStr, Reading.validator]

theorem checkPort_eq_nil_iff :
    checkPort (Json.get members key) = [] ↔ (portReading (find key members)).validator := by
  unfold Json.get
  cases find key members with
  | none => simp [checkPort, portReading, Reading.validator]
  | some value =>
      cases value with
      | int port =>
          by_cases hport : 1 ≤ port ∧ port ≤ 65535 <;>
            simp [checkPort, portReading, Reading.validator, hport]
      | float port =>
          by_cases hport : port.isInt ∧ 1 ≤ port ∧ port ≤ 65535 <;>
            simp [checkPort, portReading, Reading.validator, hport]
      | _ => simp [checkPort, portReading, Reading.validator]

theorem checkTransport_eq_nil_iff (protocol : Protocol)
    (hprotocol : Protocol.lookup (Json.get members "protocol") = .ok (some protocol)) :
    checkTransport (some protocol) (Json.get members "transport") = [] ↔
      (transportReading members).validator := by
  unfold transportReading
  rw [hprotocol]
  unfold Json.get
  cases find "transport" members with
  | none => simp [checkTransport, optionalReading, Reading.validator]
  | some value =>
      cases value with
      | str text =>
          have hone : transportOf (.str text) = some protocol.transport ↔
              text = protocol.transport.name := by
            rw [transportOf_eq_some_iff]
            simp
          by_cases htext : text = protocol.transport.name
          · have hsame : transportOf (.str protocol.transport.name) = some protocol.transport :=
              transportOf_eq_some_iff.mpr rfl
            simp [checkTransport, optionalReading, Reading.validator, hsame, isText, Json.asStr,
              htext]
          · have hother : transportOf (.str text) ≠ some protocol.transport := mt hone.mp htext
            cases hfound : transportOf (.str text) with
            | none =>
                simp [checkTransport, optionalReading, Reading.validator, hfound, isText,
                  Json.asStr, htext, Json.isNull]
            | some transport =>
                have hne : transport ≠ protocol.transport := by
                  rintro rfl
                  exact hother hfound
                simp [checkTransport, optionalReading, Reading.validator, hfound, isText,
                  Json.asStr, htext, hne, Json.isNull]
      | null =>
          simp [checkTransport, optionalReading, Reading.validator, isText, Json.asStr, Json.isNull]
      | _ =>
          simp [checkTransport, optionalReading, Reading.validator, isText, Json.asStr,
            Json.isNull, transportOf]

theorem checkNamed_eq_nil_iff :
    checkNamed (Json.get members "fqdn") (Json.get members "ip") = [] ↔
      (namedReading members).validator := by
  unfold checkNamed namedReading
  cases (Json.get members "fqdn").isNull && (Json.get members "ip").isNull <;>
    simp [Reading.validator]

theorem checkSource_eq_nil_iff :
    checkSource false (Json.get members key) = [] ↔
      ∀ reading ∈ sourceReadings (find key members), reading.validator := by
  unfold Json.get
  cases find key members with
  | none => simp [checkSource, sourceReadings, Reading.validator]
  | some value =>
      cases value with
      | obj inner =>
          have hcategory : isText sourceCategories.contains (Json.get inner "category") ↔
              (requiredReading (isText sourceCategories.contains)
                (find "category" inner)).validator := by
            unfold Json.get requiredReading
            cases find "category" inner with
            | none => simp [isText, Json.asStr, Reading.validator]
            | some category =>
                cases hok : isText sourceCategories.contains category <;>
                  simp [hok, Reading.validator]
          have hname : ∀ name problem, checkOptional (isText fun _ => true) problem
              (Json.get inner name) = [] ↔ (anyTextReading (find name inner)).validator :=
            fun name problem => checkOptional_eq_nil_iff _ problem fun value => by simp
          have hkeys : checkKeys "unknown source keys" false sourceKeys inner = [] ↔
              (keysReading sourceKeys inner).validator := checkKeys_eq_nil_iff _ sourceKeys
          simp only [checkSource, sourceReadings, Option.getD_some, List.flatten_eq_nil_iff,
            List.forall_mem_cons, hname, hkeys, ← hcategory]
          simp
      | _ => simp [checkSource, sourceReadings, Reading.validator]

/-- The validator accepts a record of version 1.0 when it accepts all its parts. -/
theorem validateRecord_eq_ok_nil_iff (fromIsoFormat : String → Option DateTime)
    (inherited : Option String)
    (hversion : find "observation_schema_version" members = some (.str "1.0")) :
    validateRecord fromIsoFormat (.obj members) inherited = .ok [] ↔
      ∀ reading ∈ readings (fun text => (parseTimeText fromIsoFormat text).isSome) members,
        reading.validator := by
  have htuple : versionTuple (.str "1.0") = .ok (some (1, 0)) := by decide +kernel
  have hrecord : recordVersion members inherited = .str "1.0" := by
    simp [recordVersion, hversion]
  have hrefused : (transportReading members = .neither) →
      ¬ ∀ reading ∈ readings (fun text => (parseTimeText fromIsoFormat text).isSome) members,
        reading.validator := by
    intro hneither hall
    have hbad := hall _ (show transportReading members ∈ readings _ members by simp [readings])
    simp [hneither, Reading.validator] at hbad
  simp only [validateRecord, hrecord, htuple]
  cases hlookup : Protocol.lookup (Json.get members "protocol") with
  | error crash =>
      refine iff_of_false (by simp [bind, Except.bind]) (hrefused ?_)
      simp [transportReading, hlookup]
  | ok found =>
      cases found with
      | none =>
          refine iff_of_false ?_ (hrefused (by simp [transportReading, hlookup]))
          simp [bind, Except.bind, pure, Except.pure, problems, checkProtocol]
      | some protocol =>
          have hminor : newerMinor (some (1, 0)) = false := rfl
          have hok : checkVersion (.str "1.0") (some (1, 0)) = [] := rfl
          have hip : checkIp (Json.get members "ip") = [] ↔
              (optionalReading (isText fun text => (normaliseIp text).isSome) (fun _ => false)
                (fun _ => false) (find "ip" members)).validator :=
            checkOptional_eq_nil_iff _ _ fun value => (Bool.or_false _).symm
          have htext : ∀ key, checkText key (Json.get members key) = [] ↔
              (textReading (find key members)).validator :=
            fun key => checkOptional_eq_nil_iff _ _ fun value => (Bool.or_false _).symm
          have hlist : ∀ key, checkTextList key (Json.get members key) = [] ↔
              (textListReading (find key members)).validator :=
            fun key => checkOptional_eq_nil_iff _ _ fun value => (Bool.or_false _).symm
          simp only [bind, Except.bind, pure, Except.pure, Except.ok.injEq,
            List.flatten_eq_nil_iff, problems, readings, List.forall_mem_append,
            List.forall_mem_cons, checkTransport_eq_nil_iff protocol hlookup, hminor, hok,
            checkKeys_eq_nil_iff, checkTime_eq_nil_iff, checkPort_eq_nil_iff,
            checkNamed_eq_nil_iff, checkHostname, checkCertificate, checkPattern_eq_nil_iff,
            checkSource_eq_nil_iff, hip, htext, hlist, checkProtocol, Option.isNone_some,
            Bool.false_eq_true, if_false, true_and, and_assoc, List.not_mem_nil, false_imp_iff,
            implies_true, and_true]

end Validator

/-! ## The schema reads the same list -/

section Schema

variable {members : List (String × Json)} {key : String}

theorem all_eq_optionalReading {schema shared lenient strict : Json → Bool}
    (hschema : ∀ value, schema value = (shared value || strict value))
    (hstrict : ∀ value, strict value → !value.isNull && !lenient value) (value : Option Json) :
    value.all schema = (optionalReading shared lenient strict value).schema := by
  cases value with
  | none => rfl
  | some value =>
      have hdisjoint := hstrict value
      simp only [Option.all_some, hschema, optionalReading]
      cases hshared : shared value <;> cases hnull : value.isNull <;>
        cases hlenient : lenient value <;> cases hstrictValue : strict value <;>
          simp_all [Reading.schema]

theorem patternSchema_eq (accept : String → Bool) (value : Json) :
    patternSchema accept value = isText accept value := by
  cases value <;> simp [patternSchema, Schema.allOf, Schema.type, Schema.pattern, isText, Json.asStr]

theorem nonEmptySchema_eq (value : Json) : nonEmptySchema value = isText (· ≠ "") value := by
  cases value with
  | str text =>
      have hlength : 1 ≤ text.toList.length ↔ text ≠ "" := by
        rw [Nat.one_le_iff_ne_zero, Ne, List.length_eq_zero_iff, String.toList_eq_nil_iff]
      simp [nonEmptySchema, Schema.allOf, Schema.type, Schema.minLength, isText, Json.asStr, hlength]
  | _ => simp [nonEmptySchema, Schema.allOf, Schema.type, isText, Json.asStr]

theorem nonEmptyListSchema_eq (value : Json) : nonEmptyListSchema value = isTextList value := by
  have hitem : nonEmptySchema = isText (· ≠ "") := funext nonEmptySchema_eq
  cases value <;>
    simp [nonEmptyListSchema, Schema.allOf, Schema.type, Schema.items, isTextList, hitem]

theorem strip_empty : strip "" = "" := by decide

/-- A text passes `minLength: 1` when it has something besides blanks, or is
nothing but blanks. -/
theorem all_nonEmptySchema (value : Option Json) :
    value.all nonEmptySchema = (textReading value).schema := by
  refine all_eq_optionalReading ?_ ?_ value
  · intro value
    rw [nonEmptySchema_eq]
    cases value with
    | str text =>
        by_cases hempty : text = ""
        · subst hempty
          simp [isText, Json.asStr, strip_empty]
        · by_cases hblank : strip text = "" <;> simp [isText, Json.asStr, hempty, hblank]
    | _ => simp [isText, Json.asStr]
  · intro value
    cases value <;> simp [isText, Json.asStr, Json.isNull]

theorem all_patternSchema (accept : String → Bool) (value : Option Json) :
    value.all (patternSchema accept) = (patternReading accept value).schema :=
  all_eq_optionalReading (fun value => by rw [patternSchema_eq, Bool.or_false])
    (fun _ => by simp) value

theorem all_nonEmptyListSchema (value : Option Json) :
    value.all nonEmptyListSchema = (textListReading value).schema :=
  all_eq_optionalReading (fun value => by rw [nonEmptyListSchema_eq, Bool.or_false])
    (fun _ => by simp) value

theorem all_typeString (value : Option Json) :
    value.all (Schema.type .string) = (anyTextReading value).schema :=
  all_eq_optionalReading (fun value => by cases value <;> simp [Schema.type, isText, Json.asStr])
    (fun _ => by simp) value

theorem required_eq {schema shared : Json → Bool} (hschema : ∀ value, schema value = shared value)
    (value : Option Json) :
    (value.isSome && value.all schema) = (requiredReading shared value).schema := by
  cases value with
  | none => simp [requiredReading, Reading.schema]
  | some value => cases hshared : shared value <;>
      simp [requiredReading, Reading.schema, hschema, hshared]

theorem closed_eq (known : List String) :
    Schema.closed known "x-" (.obj members) = (keysReading known members).schema := by
  simp only [Schema.closed, keysReading]
  cases members.all fun entry => known.contains entry.1 || startsWith "x-" entry.1 <;> rfl

theorem port_eq (value : Option Json) :
    (value.isSome && value.all (Schema.allOf [.type .integer, .minimum 1, .maximum 65535])) =
      (portReading value).schema := by
  cases value with
  | none => rfl
  | some value =>
      cases value with
      | int port =>
          by_cases hport : 1 ≤ port ∧ port ≤ 65535
          · simp [Schema.allOf, Schema.type, Schema.minimum, Schema.maximum, portReading,
              Reading.schema, hport]
          · simp only [portReading, if_neg hport, Reading.schema]
            simpa [Schema.allOf, Schema.type, Schema.minimum, Schema.maximum] using hport
      | float port =>
          by_cases hport : port.isInt ∧ 1 ≤ port ∧ port ≤ 65535
          · simp [Schema.allOf, Schema.type, Schema.minimum, Schema.maximum, portReading,
              Reading.schema, hport]
          · simp only [portReading, if_neg hport, Reading.schema]
            simpa [Schema.allOf, Schema.type, Schema.minimum, Schema.maximum] using hport
      | _ => simp [Schema.allOf, Schema.type, portReading, Reading.schema]

theorem source_iff (value : Option Json) :
    (value.isSome && value.all sourceSchema) ↔
      ∀ reading ∈ sourceReadings value, reading.schema := by
  cases value with
  | none => simp [sourceReadings, Reading.schema]
  | some value =>
      cases value with
      | obj inner =>
          have hcategories : ∀ value, Schema.enum sourceCategories value =
              isText sourceCategories.contains value := by
            intro value
            cases value <;> simp [Schema.enum, isText, Json.asStr]
          have hcategory := required_eq hcategories (find "category" inner)
          simp only [sourceReadings, List.forall_mem_cons, ← closed_eq, ← all_typeString,
            ← hcategory]
          simp [sourceSchema, Schema.allOf, Schema.type, Schema.required, Schema.properties]
          tauto
      | _ => simp [sourceSchema, Schema.allOf, Schema.type, sourceReadings, Reading.schema]

theorem enum_protocol_iff (value : Json) :
    Schema.enum (Protocol.all.map Protocol.name) value ↔
      ∃ protocol : Protocol, value = .str protocol.name := by
  cases value with
  | str text =>
      have hall : ∀ protocol, protocol ∈ Protocol.all := by
        intro protocol
        cases protocol <;> decide
      simp [Schema.enum, hall, eq_comm]
  | _ => simp [Schema.enum]

theorem lookup_eq_ok_some_iff {value : Json} {protocol : Protocol} :
    Protocol.lookup value = .ok (some protocol) ↔ value = .str protocol.name := by
  cases value <;> simp [Protocol.lookup, Protocol.ofName_eq_some_iff]

/-- `protocol` and `transport`, with the rule that ties them together. -/
theorem transport_iff :
    ((find "protocol" members).isSome &&
        (find "protocol" members).all (Schema.enum (Protocol.all.map Protocol.name))) ∧
        (find "transport" members).all (Schema.enum ["tcp", "udp"]) ∧ TransportAgrees members ↔
      (transportReading members).schema := by
  by_cases hprotocol : ∃ protocol : Protocol, Json.get members "protocol" = .str protocol.name
  · obtain ⟨protocol, hprotocol⟩ := hprotocol
    have hfind : find "protocol" members = some (.str protocol.name) := by
      unfold Json.get at hprotocol
      cases hfind : find "protocol" members with
      | none => simp [hfind] at hprotocol
      | some value => simpa [hfind] using hprotocol
    have henum := (enum_protocol_iff (.str protocol.name)).mpr ⟨protocol, rfl⟩
    have hagrees : TransportAgrees members ↔
        (find "transport" members).all (isText (· = protocol.transport.name)) := by
      have hsame : ∀ other : Protocol, protocol.name = other.name → other = protocol := by
        intro other hname
        cases protocol <;> cases other <;> first | rfl | exact absurd hname (by decide)
      unfold TransportAgrees
      cases find "transport" members with
      | none => simp
      | some value =>
          simp only [Option.some.injEq, forall_eq', hprotocol, Json.str.injEq, Option.all_some]
          constructor
          · rintro ⟨other, hname, rfl⟩
            rw [hsame other hname]
            simp [isText, Json.asStr]
          · intro htext
            cases value with
            | str text =>
                refine ⟨protocol, rfl, ?_⟩
                simpa [isText, Json.asStr] using htext
            | _ => simp [isText, Json.asStr] at htext
    have htransport : (find "transport" members).all (isText (· = protocol.transport.name)) =
        (transportReading members).schema := by
      rw [transportReading, lookup_eq_ok_some_iff.mpr hprotocol]
      exact all_eq_optionalReading (fun _ => (Bool.or_false _).symm) (fun _ => by simp) _
    rw [hagrees, ← htransport, hfind]
    simp only [Option.isSome_some, Option.all_some, henum, Bool.and_self, true_and, and_iff_right_iff_imp]
    intro htext
    cases hvalue : find "transport" members with
    | none => rfl
    | some value =>
        rw [hvalue, Option.all_some] at htext
        cases value with
        | str text =>
            have hname : text = protocol.transport.name := by
              simpa [isText, Json.asStr] using htext
            subst hname
            cases protocol <;> decide
        | _ => simp [isText, Json.asStr] at htext
  · refine iff_of_false ?_ ?_
    · rintro ⟨hfound, -⟩
      cases hfind : find "protocol" members with
      | none => simp [hfind] at hfound
      | some value =>
          rw [hfind, Option.isSome_some, Option.all_some, Bool.true_and, enum_protocol_iff] at hfound
          exact hprotocol (by simpa [Json.get, hfind] using hfound)
    · have hneither : transportReading members = .neither := by
        unfold transportReading
        split
        case h_1 protocol hlookup =>
          exact absurd ⟨protocol, lookup_eq_ok_some_iff.mp hlookup⟩ hprotocol
        case h_2 => rfl
      simp [hneither, Reading.schema]

/-- Once `fqdn` and `ip` have the right type, being there is not being null. -/
theorem named_iff {first second : String → Bool}
    (hfqdn : (find "fqdn" members).all (patternSchema first))
    (hip : (find "ip" members).all (patternSchema second)) :
    ((find "fqdn" members).isSome || (find "ip" members).isSome) = (namedReading members).schema := by
  have hnull : ∀ {key : String} {accept : String → Bool},
      (find key members).all (patternSchema accept) →
        (Json.get members key).isNull = !(find key members).isSome := by
    intro key accept hall
    unfold Json.get
    cases hvalue : find key members with
    | none => rfl
    | some value =>
        rw [hvalue, Option.all_some, patternSchema_eq] at hall
        cases value <;> simp_all [isText, Json.asStr, Json.isNull]
  rw [namedReading, hnull hfqdn, hnull hip]
  cases (find "fqdn" members).isSome <;> cases (find "ip" members).isSome <;> rfl

/-- The schema accepts a record of version 1.0, with the transport of its
protocol, when it accepts all its parts. -/
theorem recordSchema_iff (isDateTime : String → Bool)
    (hversion : find "observation_schema_version" members = some (.str "1.0")) :
    recordSchema isDateTime (fun text => (normaliseIp text).isSome) (.obj members) ∧
        TransportAgrees members ↔
      ∀ reading ∈ readings isDateTime members, reading.schema := by
  have hone : patternSchema versionText (.str "1.0") = true := by decide +kernel
  have hip : (find "ip" members).all (patternSchema fun text => (normaliseIp text).isSome) =
      (optionalReading (isText fun text => (normaliseIp text).isSome) (fun _ => false)
        (fun _ => false) (find "ip" members)).schema :=
    all_eq_optionalReading (fun value => by rw [patternSchema_eq, Bool.or_false])
      (fun _ => by simp) _
  have htime := required_eq (patternSchema_eq isDateTime) (find "observed_at" members)
  simp only [readings, List.forall_mem_append, List.forall_mem_cons, ← source_iff, ← closed_eq,
    ← all_patternSchema, ← all_nonEmptySchema, ← all_nonEmptyListSchema, ← port_eq, ← hip, ← htime,
    ← transport_iff]
  simp only [recordSchema, recordBodySchema, recordProperties, Schema.allOf, Schema.anyOf,
    Schema.type, Schema.required, Schema.properties, List.all_cons, List.all_nil, List.any_cons,
    List.any_nil, hversion, Option.all_some, hone, Option.isSome_some, Bool.and_true, Bool.true_and,
    Bool.or_false, Bool.and_eq_true, List.not_mem_nil, false_imp_iff, implies_true, and_true]
  constructor
  · rintro ⟨⟨⟨htimeHere, hprotocolHere, hportHere, hsourceHere⟩, hnamed, ⟨hid, htimeOk, hprotocol,
      htransport, hfqdn, hipOk, hport, hsni, hgroup, hadditional, hoffered, htls, hcert, hsource⟩,
      hkeys⟩, hagrees⟩
    rw [named_iff hfqdn hipOk] at hnamed
    exact ⟨⟨hkeys, ⟨htimeHere, htimeOk⟩, ⟨⟨hprotocolHere, hprotocol⟩, htransport, hagrees⟩,
      ⟨hportHere, hport⟩, hnamed, hfqdn, hsni, hipOk, hgroup, htls, hid, hadditional, hoffered,
      hcert⟩, hsourceHere, hsource⟩
  · rintro ⟨⟨hkeys, ⟨htimeHere, htimeOk⟩, ⟨⟨hprotocolHere, hprotocol⟩, htransport, hagrees⟩,
      ⟨hportHere, hport⟩, hnamed, hfqdn, hsni, hipOk, hgroup, htls, hid, hadditional, hoffered,
      hcert⟩, hsourceHere, hsource⟩
    rw [← named_iff hfqdn hipOk] at hnamed
    exact ⟨⟨⟨htimeHere, hprotocolHere, hportHere, hsourceHere⟩, hnamed, ⟨hid, htimeOk, hprotocol,
      htransport, hfqdn, hipOk, hport, hsni, hgroup, hadditional, hoffered, htls, hcert, hsource⟩,
      hkeys⟩, hagrees⟩

end Schema

/-! ## Where the two agree -/

/-- **The validator and the published schema agree on a record of version 1.0
exactly when** some part of it is refused by both, or when its parts that only
the validator accepts and those that only the schema accepts are both there or
both missing. -/
theorem validateRecord_agrees_with_schema_iff (fromIsoFormat : String → Option DateTime)
    (members : List (String × Json))
    (hversion : find "observation_schema_version" members = some (.str "1.0")) :
    (validateRecord fromIsoFormat (.obj members) none = .ok [] ↔
        recordSchema (fun text => (parseTimeText fromIsoFormat text).isSome)
            (fun text => (normaliseIp text).isSome) (.obj members) ∧
          TransportAgrees members) ↔
      (.neither ∈ readings (fun text => (parseTimeText fromIsoFormat text).isSome) members ∨
        (.validatorOnly ∈ readings (fun text => (parseTimeText fromIsoFormat text).isSome) members ↔
          .schemaOnly ∈ readings (fun text => (parseTimeText fromIsoFormat text).isSome)
            members)) := by
  rw [validateRecord_eq_ok_nil_iff fromIsoFormat none hversion, recordSchema_iff _ hversion]
  exact agrees_iff _

/-- A well-formed record, with one more member. -/
def sampleMembers (extra : List (String × Json)) : List (String × Json) :=
  [("observation_schema_version", .str "1.0"), ("observed_at", .str "2026-01-01T00:00:00Z"),
    ("protocol", .str "tls"), ("port", .int 443), ("fqdn", .str "web.example.com"),
    ("source", .obj [("category", .str "manual")])] ++ extra

/-- What `datetime.fromisoformat` reads in the sample's time. -/
def sampleClock (text : String) : Option DateTime :=
  if text = "2026-01-01T00:00:00+00:00" then some ⟨1767225600000000, true⟩ else none

/-- Both accept the well-formed record. -/
theorem sampleMembers_agrees :
    validateRecord sampleClock (.obj (sampleMembers [])) none = .ok [] ↔
      recordSchema (fun text => (parseTimeText sampleClock text).isSome)
          (fun text => (normaliseIp text).isSome) (.obj (sampleMembers [])) ∧
        TransportAgrees (sampleMembers []) :=
  (validateRecord_agrees_with_schema_iff sampleClock (sampleMembers []) rfl).mpr
    (Or.inr (by decide +kernel))

/-- A null `id` passes the validator and not the schema. -/
theorem nullId_disagrees :
    find "observation_schema_version" (sampleMembers [("id", .null)]) = some (.str "1.0") ∧
      ¬ (validateRecord sampleClock (.obj (sampleMembers [("id", .null)])) none = .ok [] ↔
        recordSchema (fun text => (parseTimeText sampleClock text).isSome)
            (fun text => (normaliseIp text).isSome) (.obj (sampleMembers [("id", .null)])) ∧
          TransportAgrees (sampleMembers [("id", .null)])) := by
  have haccepted : validateRecord sampleClock (.obj (sampleMembers [("id", .null)])) none =
      .ok [] := by
    decide +kernel
  have hrefused : recordSchema (fun text => (parseTimeText sampleClock text).isSome)
      (fun text => (normaliseIp text).isSome) (.obj (sampleMembers [("id", .null)])) = false := by
    decide +kernel
  refine ⟨rfl, ?_⟩
  intro hiff
  have hschema := (hiff.mp haccepted).1
  rw [hrefused] at hschema
  exact Bool.false_ne_true hschema

end PqcReadiness.Observations
