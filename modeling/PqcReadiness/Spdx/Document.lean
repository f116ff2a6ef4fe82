import PqcReadiness.Bom.Libraries
import PqcReadiness.Findings.Order
import PqcReadiness.Lib.Convert
import PqcReadiness.Lib.Distinct
import PqcReadiness.Lib.Pathname

/-!
# The SPDX document

`render_spdx` writes a graph of elements: the tool, the document, the host with its assets, and for
each finding a vulnerability with its relationship to the host.  Elements refer to each other by
their ids, so a reader needs that each id that is referred to is the id of an element, and that no
two elements share one.
-/

namespace PqcReadiness.Spdx

open Lib Gap Findings

/-! ## Elements -/

/-- The members of an element, in the order in which they are set. -/
abbrev Element := List (String × Json)

/-- `element["spdxId"]`. -/
def idOf (element : Element) : Json := Json.get element "spdxId"

/-- `CryptoAsset`. -/
structure CryptoAsset where
  key : String
  name : String
  category : String
  assetType : String
  primitive : String := ""
  executionEnvironment : String := ""
  implementationPlatform : String := ""
  protocolType : String := ""
  relatedMaterialType : String := ""
  parameterSet : String := ""
  nistCategory : Option ℤ := none
  source : String := ""
  properties : List (String × String) := []

/-- `RuleSpec`, but for the level that only the SARIF rules show. -/
structure RuleSpec where
  id : String
  shortDescription : String
  fullDescription : String
  helpUri : String

/-- What the document reads of a report beside its assets and findings. -/
structure Host where
  hostname : String := ""
  os : String := ""
  arch : String := ""
  cpuModel : String := ""
  /-- `scan_mode`, if there is one, and its root. -/
  scanMode : Option (Option String) := none
  generatedAt : String := ""

/-- `SPDX_URN_PREFIX`. -/
def spdxUrnPrefix : String := "urn:pqc-readiness"

/-- `SCRIPT_VERSION`. -/
def scriptVersion : String := "2.4.0"

/-- Does a character stay as it is? -/
def isSafe (c : Char) : Bool :=
  ('0' ≤ c && c ≤ '9') || ('a' ≤ c && c ≤ 'z') || ('A' ≤ c && c ≤ 'Z') || c ∈ ['.', '_', '-']

/-- Runs of characters that do not stay become one dash; `inRun` tells whether the character before
was one of them. -/
def dashed (inRun : Bool) : List Char → List Char
  | [] => []
  | c :: rest =>
      if isSafe c then c :: dashed false rest
      else if inRun then dashed true rest
      else '-' :: dashed true rest

/-- `_spdx_safe`. -/
def spdxSafe (s : String) : String :=
  let kept := (dashed false s.toList).dropWhile (· = '-')
  let cleaned := (kept.reverse.dropWhile (· = '-')).reverse
  if cleaned = [] then "unknown" else String.ofList cleaned

/-- `_spdx_software_purpose`. -/
def spdxSoftwarePurpose (asset : CryptoAsset) : String :=
  if asset.executionEnvironment = "hardware" then "device"
  else if asset.assetType = "related-crypto-material" then "data"
  else "library"

/-- `value or default`. -/
def orElse (text default : String) : String := if text = "" then default else text

/-- A member that is only there if its text is. -/
def memberIf (key text : String) : Element := if text = "" then [] else [(key, .str text)]

/-! ## The elements of a document -/

section Document

-- The time of the document, which all its elements carry.
variable (runTime : String)

/-- `_spdx_creation_info`. -/
def spdxCreationInfo (creatorId : String) : Json :=
  .obj [("type", .str "CreationInfo"), ("specVersion", .str "3.0.1"), ("created", .str runTime),
    ("createdBy", .arr [.str creatorId])]

/-- `_spdx_element_base`. -/
def spdxElementBase (spdxId typeName name creatorId : String) : Element :=
  [("type", .str typeName), ("spdxId", .str spdxId),
    ("creationInfo", spdxCreationInfo runTime creatorId), ("name", .str name)]

/-- `_spdx_creator_agent`. -/
def spdxCreatorAgent (spdxId : String) : Element :=
  spdxElementBase runTime spdxId "SoftwareAgent" "pqc-readiness" spdxId ++
    [("description", .str ("Open-source PQC readiness scanner — see " ++
      "https://github.com/aclater/pqc-readiness"))]

/-- `_spdx_host_package`. -/
def spdxHostPackage (spdxId creatorId : String) (host : Host) : Element :=
  let description :=
    match host.scanMode with
    | some root => "Offline filesystem tree " ++ optionText root ++
        ": host hardware, kernel, process and benchmark sections not applicable"
    | none => if host.cpuModel = "" then "" else "CPU: " ++ host.cpuModel
  spdxElementBase runTime spdxId "software_Package" (orElse host.hostname "unknown-host")
      creatorId ++
    memberIf "summary" (join " / " ([host.os, host.arch].filter (· ≠ ""))) ++
    [("software_primaryPurpose", .str "platform")] ++ memberIf "description" description

/-- The line of a description that is only there if its value is. -/
def lineIf (key value : String) : List String := if value = "" then [] else [key ++ "=" ++ value]

/-- `ExternalIdentifier`. -/
def externalIdentifier (identifier : String) : Json :=
  .arr [.obj [("type", .str "ExternalIdentifier"), ("externalIdentifierType", .str "other"),
    ("identifier", .str identifier)]]

/-- The id of an asset. -/
def assetId (ns : String) (asset : CryptoAsset) : String := ns ++ ":asset:" ++ spdxSafe asset.key

/-- `_spdx_asset_package`. -/
def spdxAssetPackage (asset : CryptoAsset) (ns creatorId : String) : Element :=
  let descLines :=
    ["category=" ++ asset.category, "assetType=" ++ asset.assetType] ++
      lineIf "primitive" asset.primitive ++
      lineIf "executionEnvironment" asset.executionEnvironment ++
      lineIf "implementationPlatform" asset.implementationPlatform ++
      lineIf "protocolType" asset.protocolType ++
      lineIf "relatedMaterialType" asset.relatedMaterialType ++ lineIf "source" asset.source ++
      asset.properties.map fun (key, value) => key ++ "=" ++ value
  spdxElementBase runTime (assetId ns asset) "software_Package" asset.name creatorId ++
    [("summary", .str ("Cryptographic asset (category=" ++ asset.category ++ ")")),
      ("software_primaryPurpose", .str (spdxSoftwarePurpose asset)),
      ("description", .str (join "\n" descLines))] ++
    memberIf "software_packageVersion" asset.parameterSet ++
    match asset.nistCategory with
    | some number => [("externalIdentifier",
        externalIdentifier ("nist-pqc-category-" ++ toString number))]
    | none => []

/-- The id of the vulnerability of a finding. -/
def findingId (ns : String) (idx : ℕ) (ruleId : String) : String :=
  ns ++ ":finding:" ++ zeroPadded 4 idx ++ ":" ++ spdxSafe ruleId

/-- The text of a level. -/
def levelText : Level → String
  | .error => "error"
  | .warning => "warning"
  | .note => "note"

/-- `_spdx_vulnerability`. -/
def spdxVulnerability (finding : Finding) (spec : RuleSpec) (ns creatorId : String) (idx : ℕ) :
    Element :=
  spdxElementBase runTime (findingId ns idx spec.id) "security_Vulnerability" spec.id creatorId ++
    [("summary", .str spec.shortDescription),
      ("description", .str (spec.fullDescription ++ "\n\nDetected: " ++ finding.message)),
      ("comment", .str ("severity: " ++ levelText finding.level)),
      ("security_publishedTime", .str runTime),
      ("externalIdentifier", externalIdentifier spec.id),
      ("externalRef", .arr [.obj [("type", .str "ExternalRef"),
        ("externalRefType", .str "securityAdvisory"), ("locator", .arr [.str spec.helpUri])]])]

/-- The id of the relationship of a finding. -/
def vexId (ns : String) (idx : ℕ) : String := ns ++ ":vex:" ++ zeroPadded 4 idx

/-- `_spdx_vex_affects`. -/
def spdxVexAffects (vulnId targetId ns creatorId : String) (idx : ℕ) (actionStatement : String) :
    Element :=
  [("type", .str "security_VexAffectedVulnAssessmentRelationship"), ("spdxId", .str (vexId ns idx)),
    ("creationInfo", spdxCreationInfo runTime creatorId), ("relationshipType", .str "affects"),
    ("from", .str vulnId), ("to", .arr [.str targetId]),
    ("security_assessedElement", .str targetId), ("security_actionStatement", .str actionStatement),
    ("security_publishedTime", .str runTime)]

end Document

/-! ## The document -/

section Render

variable (host : Host) (assets : List CryptoAsset) (findings : List Finding)
  (specs : List RuleSpec)

/-- `namespace`. -/
def namespaceOf : String := spdxUrnPrefix ++ ":" ++ spdxSafe (orElse host.hostname "unknown-host")

/-- `creator_id`. -/
def creatorId : String := spdxUrnPrefix ++ ":tool:" ++ spdxSafe scriptVersion

/-- `host_id`. -/
def hostId : String := namespaceOf host ++ ":host"

/-- `sbom_id`. -/
def sbomId : String := namespaceOf host ++ ":sbom"

/-- `doc_id`. -/
def docId (uuid : String) : String := namespaceOf host ++ ":document:" ++ uuid

/-- `rule_specs_by_id.get(rule_id)`; of two specs the last one counts. -/
def specOf (ruleId : String) : Option RuleSpec := specs.reverse.find? fun spec => spec.id = ruleId

/-- The findings whose rule is known, each with its place among all. -/
def knownFindings : List (Finding × ℕ × RuleSpec) :=
  findings.zipIdx.filterMap fun entry =>
    (specOf specs entry.1.ruleId).map fun spec => (entry.1, entry.2, spec)

variable (uuid now : String)

/-- `timestamp`; `now` is the time of the call, for a report that has none. -/
def timestamp : String := orElse host.generatedAt now

/-- `asset_pkgs`. -/
def assetPkgs : List Element :=
  assets.map fun asset => spdxAssetPackage (timestamp host now) asset (namespaceOf host) creatorId

/-- `vulns`. -/
def vulns : List Element :=
  (knownFindings findings specs).map fun entry =>
    spdxVulnerability (timestamp host now) entry.1 entry.2.2 (namespaceOf host) creatorId entry.2.1

/-- `vex_rels`. -/
def vexRels : List Element :=
  (knownFindings findings specs).map fun entry =>
    spdxVexAffects (timestamp host now) (findingId (namespaceOf host) entry.2.1 entry.2.2.id)
      (hostId host) (namespaceOf host) creatorId entry.2.1 entry.1.message

/-- `member_ids`. -/
def memberIds : List Json :=
  [.str (hostId host)] ++ (assetPkgs host assets now).map idOf ++
    (vulns host findings specs now).map idOf ++ (vexRels host findings specs now).map idOf

/-- `sbom`. -/
def sbom : Element :=
  [("type", .str "software_Sbom"), ("spdxId", .str (sbomId host)),
    ("creationInfo", spdxCreationInfo (timestamp host now) creatorId),
    ("name", .str ("pqc-readiness inventory for " ++ orElse host.hostname "unknown-host")),
    ("profileConformance", .arr [.str "core", .str "software", .str "security"]),
    ("rootElement", .arr [.str (hostId host)]),
    ("element", .arr (memberIds host assets findings specs now)),
    ("software_sbomType", .arr [.str "analyzed"])]

/-- `document`. -/
def document : Element :=
  [("type", .str "SpdxDocument"), ("spdxId", .str (docId host uuid)),
    ("creationInfo", spdxCreationInfo (timestamp host now) creatorId),
    ("name", .str ("pqc-readiness " ++ scriptVersion ++ " report")),
    ("profileConformance", .arr [.str "core", .str "software", .str "security"]),
    ("dataLicense", .str "https://spdx.org/licenses/CC0-1.0"),
    ("rootElement", .arr [.str (sbomId host)]),
    ("element", .arr (.str (sbomId host) :: memberIds host assets findings specs now ++
      [.str creatorId]))]

/-- `graph`. -/
def graph : List Element :=
  [spdxCreatorAgent (timestamp host now) creatorId, document host assets findings specs uuid now,
    sbom host assets findings specs now,
    spdxHostPackage (timestamp host now) (hostId host) creatorId host] ++
    assetPkgs host assets now ++ vulns host findings specs now ++ vexRels host findings specs now

/-- `render_spdx`, before `json.dumps`. -/
def renderSpdx : Json :=
  .obj [("@context", .str "https://spdx.org/rdf/3.0.1/spdx-context.jsonld"),
    ("@graph", .arr ((graph host assets findings specs uuid now).map Json.obj))]

end Render

end PqcReadiness.Spdx
