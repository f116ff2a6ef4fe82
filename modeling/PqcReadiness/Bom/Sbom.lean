import PqcReadiness.Lib.Dict
import PqcReadiness.Lib.Percent
import PqcReadiness.Packages.Inventory

/-!
# Package URLs and the SBOM

`package_purl` names a package of an inventory, `_purl_index` looks the names up by package and
version, and `build_sbom` makes a component of every package that has one.

`lower` stands for `str.lower`.
-/

namespace PqcReadiness.Bom

open PqcReadiness.Lib PqcReadiness.Packages

/-- A package that documents list, with the kind of its database where that was probed. -/
structure Listed extends Package where
  db : Option DbKind := none
  deriving DecidableEq

/-! ## Package URLs -/

/-- The bytes that `purl_encode` keeps: letters, digits and `.-_~:`. -/
def isPurlByte (b : UInt8) : Bool :=
  (65 ≤ b.toNat && b.toNat ≤ 90) || (97 ≤ b.toNat && b.toNat ≤ 122) ||
    (48 ≤ b.toNat && b.toNat ≤ 57) || b = 46 || b = 45 || b = 95 || b = 126 || b = 58

/-- `purl_encode`. -/
def purlEncode (value : String) : String := percentEncode isPurlByte value

/-- `_DB_BY_FAMILY`. -/
def dbByFamily (family : String) : Option DbKind :=
  find family
    [("rhel", .rpm), ("suse", .rpm), ("debian", .debian), ("alpine", .alpine), ("arch", .arch)]

/-- `_PURL_TYPE_BY_DB`. -/
def purlTypeByDb : DbKind → Option String
  | .rpm => some "rpm"
  | .debian => some "deb"
  | .alpine => some "apk"
  | .arch => some "alpm"
  | .opkg => none

/-- `DISTRO` and `DISTRO_VERSION` of `/etc/buildinfo`. -/
structure BuildInfo where
  distro : Option String := none
  distroVersion : Option String := none

/-- What a document knows of its host, apart from the packages. -/
structure Context where
  osRelease : OsRelease
  buildinfo : BuildInfo := {}

namespace Context

variable (context : Context)

/-- `_os_id`. -/
def osId : Option String := context.osRelease.id.filter fun id => id ≠ "" ∧ id ≠ "unknown"

/-- `_is_yocto`. -/
def isYocto : Bool := (present context.buildinfo.distro).isSome || context.osId = some "poky"

/-- `_os_id(os_release) or buildinfo.get("DISTRO")`. -/
def vendor : Option String := context.osId.or (present context.buildinfo.distro)

/-- The version of the distribution. -/
def distroVersion : Option String :=
  (present context.osRelease.versionId).or
    (if context.osId.isNone then context.buildinfo.distroVersion else none)

end Context

/-- What stands before and behind the last `-`, if there is something behind it. -/
def lastSegment (s : List Char) : Option (List Char × List Char) :=
  match s.reverse.dropWhile (· ≠ '-') with
  | [] => none
  | _ :: before =>
      let after := (s.reverse.takeWhile (· ≠ '-')).reverse
      if after = [] then none else some (before.reverse, after)

/-- `_SRPM_RE`, with the name and the version. -/
def srpmOf (s : String) : Option (String × String) :=
  let body : Option String :=
    if endsWith ".src.rpm" s then some (dropLast ".src.rpm" s)
    else if endsWith ".src.rpm\n" s then some (dropLast ".src.rpm\n" s)
    else none
  (body.bind fun body => lastSegment body.toList).bind fun (rest, _) =>
    (lastSegment rest).bind fun (name, version) =>
      if name = [] ∨ '\n' ∈ name then none
      else some (String.ofList name, String.ofList version)

/-- `_yocto_purl`. -/
def yoctoPurl (pkg : Listed) : Option String :=
  (srpmOf (pkg.sourcerpm.getD "")).map fun (name, version) =>
    "pkg:yocto/" ++ purlEncode name ++ "@" ++ purlEncode version

/-- The version, with the release. -/
def fullVersion (version : String) (release : Option String) : String :=
  match present release with
  | none => version
  | some release => version ++ "-" ++ release

section Purls

variable (lower : String → String) (context : Context)

/-- The qualifiers of a package. -/
def qualifiers (pkg : Listed) (vendor : String) : List (String × String) :=
  ((present pkg.arch).map fun arch => ("arch", arch)).toList ++
    ((pkg.epoch.filter fun epoch => epoch ≠ "" ∧ epoch ≠ "0").map fun epoch =>
      ("epoch", epoch)).toList ++
    [("distro", rstripChar '-' (vendor ++ "-" ++ context.distroVersion.getD ""))]

/-- The purl of a package with a type and a vendor. -/
def typedPurl (ptype vendor : String) (pkg : Listed) : String :=
  let name := if ptype = "apk" then lower pkg.name else pkg.name
  let quals := sortedBy Prod.fst (qualifiers context pkg vendor)
  "pkg:" ++ ptype ++ "/" ++ purlEncode (lower vendor) ++ "/" ++ purlEncode name ++ "@" ++
    purlEncode (fullVersion pkg.version pkg.release) ++ "?" ++
    join "&" (quals.map fun (key, value) => key ++ "=" ++ purlEncode value)

/-- The purl of a package of opkg. -/
def opkgPurl (pkg : Listed) : String :=
  let ns :=
    match context.vendor with
    | none => ""
    | some vendor => purlEncode (lower vendor) ++ "/"
  "pkg:generic/" ++ ns ++ purlEncode pkg.name ++ "@" ++ purlEncode pkg.version

/-- `package_purl`. -/
def packagePurl (pkg : Listed) : Option String :=
  match pkg.db.or (dbByFamily context.osRelease.family) with
  | none => none
  | some db =>
      if pkg.name = "" ∨ pkg.version = "" then none
      else
        match if db = .rpm ∧ context.isYocto then yoctoPurl pkg else none with
        | some purl => some purl
        | none =>
            if db = .opkg then some (opkgPurl lower context pkg)
            else
              match purlTypeByDb db, context.vendor with
              | some ptype, some vendor => some (typedPurl lower context ptype vendor pkg)
              | _, _ => none

/-! ## The index -/

/-- `index` and `upstream`. -/
structure IndexState where
  index : Dict (String × String) String := .empty
  upstream : Dict (String × String) (List String) := .empty

/-- `upstream.setdefault(key, set()).add(purl)`. -/
def addPurl (purl : String) (found : Option (List String)) : List String :=
  let found := found.getD []
  if purl ∈ found then found else found ++ [purl]

/-- One package. -/
def indexTurn (state : IndexState) (pkg : Listed) : IndexState :=
  match packagePurl lower context pkg with
  | none => state
  | some purl =>
      { index := state.index.update (pkg.name, fullVersion pkg.version pkg.release) (·.getD purl)
        upstream := state.upstream.update (pkg.name, pkg.version) (addPurl purl) }

/-- One entry of `upstream`. -/
def upstreamTurn (index : Dict (String × String) String)
    (entry : (String × String) × List String) : Dict (String × String) String :=
  match entry.2 with
  | [purl] => index.update entry.1 (·.getD purl)
  | _ => index

/-- `_purl_index` of an inventory. -/
def purlIndex (pkgs : List Listed) : Dict (String × String) String :=
  let state := pkgs.foldl (indexTurn lower context) {}
  state.upstream.entries.foldl upstreamTurn state.index

/-! ## Inventories -/

/-- The packages of an inventory, with the kind of the database. -/
def listed (db : Option DbKind) (pkgs : List Package) : List Listed :=
  pkgs.map fun pkg => { toPackage := pkg, db := db }

/-- `_probed_packages`; of an rpm database, the whole inventory. -/
def probedPackages (host : PackageHost) : List Listed :=
  match probePackageDb host with
  | none => []
  | some found =>
      listed (some found.kind)
        (if found.kind = .rpm then host.rpm.getD found.packages else found.packages)

/-- `installed_packages`. -/
def installedPackages (host : PackageHost) (family : String) : List Listed :=
  if family = "rhel" ∨ family = "suse" then listed none (host.rpm.getD [])
  else
    match if host.hasPrefix then prefixedDb family else none with
    | some kind => listed none ((host.readDb kind).getD [])
    | none =>
        if family ∉ plannedFamilies then probedPackages host
        else listed none ((host.runTool family).getD [])

/-- `sbom_purl`. -/
def sbomPurl (host : PackageHost) (pkg : Listed) : Option String :=
  if pkg.name = "" ∨ pkg.version = "" then none
  else
    match (purlIndex lower context (installedPackages host context.osRelease.family)).get?
        (pkg.name, fullVersion pkg.version pkg.release) with
    | some purl => some purl
    | none =>
        -- A package that the inventory does not list.
        if pkg.db.isNone ∧ (dbByFamily context.osRelease.family).isNone then
          packagePurl lower context { pkg with db := (probePackageDb host).map ProbedDb.kind }
        else packagePurl lower context pkg

/-! ## The SBOM -/

/-- A component of the SBOM. -/
structure Component where
  type : String
  bomRef : String
  name : String
  version : Option String := none
  purl : Option String := none
  description : Option String := none

/-- What the loop of `build_sbom` has. -/
structure SbomState where
  components : Dict String Component := .empty
  noPurl : ℕ := 0

/-- The reference of a component: a recipe's purl is shared by its packages. -/
def refOf (purl name : String) : String :=
  if startsWith "pkg:yocto/" purl then purl ++ "#" ++ name else purl

/-- One package. -/
def sbomTurn (state : SbomState) (pkg : Listed) : SbomState :=
  -- The signing keys of rpm are no software.
  if pkg.name = "gpg-pubkey" then state
  else
    match packagePurl lower context pkg with
    | none => { state with noPurl := state.noPurl + 1 }
    | some purl =>
        { state with
          components := state.components.update (refOf purl pkg.name) (·.getD
            { type := "library"
              bomRef := refOf purl pkg.name
              name := pkg.name
              version := some (fullVersion pkg.version pkg.release)
              purl := some purl }) }

/-- What a report says of its host. -/
structure HostFacts where
  hostname : Option String := none
  os : Option String := none
  prettyName : Option String := none

/-- The component of the operating system. -/
def osComponent (facts : HostFacts) : Component where
  type := "operating-system"
  bomRef := "os:" ++ context.vendor.getD "unknown"
  name := (context.vendor.or (present facts.os)).getD "unknown"
  version := present context.distroVersion
  description := if context.osId.isSome then present facts.prettyName else none

/-- The SBOM: its components and what its host depends on. -/
structure Sbom where
  hostRef : String
  components : List Component
  dependsOn : List String
  packageCount : ℕ
  withoutPurl : ℕ

/-- `build_sbom`. -/
def buildSbom (host : PackageHost) (facts : HostFacts) : Sbom :=
  let state := (installedPackages host context.osRelease.family).foldl (sbomTurn lower context) {}
  let ordered := (sortedBy Prod.fst state.components.entries).map Prod.snd
  { hostRef := "host/" ++ (present facts.hostname).getD "unknown"
    components := osComponent context facts :: ordered
    dependsOn := (osComponent context facts).bomRef :: ordered.map Component.bomRef
    packageCount := state.components.entries.length
    withoutPurl := state.noPurl }

end Purls

end PqcReadiness.Bom
