import PqcReadiness.Bom.Assets

/-!
# The CBOM

`render_cbom`: the components, with their references, and the dependencies.  The properties of the
components are left out, as is what only they need: the deadlines of a profile, the mirrored facts
of an interop mode and the `namespaced` names.
-/

namespace PqcReadiness.Bom

open PqcReadiness.Lib PqcReadiness.Packages

/-! ## Components -/

/-- A component of the CBOM; `related` are its `relatedCryptographicAssets`. -/
structure CbomComponent where
  type : String
  bomRef : String
  name : String
  version : Option String := none
  purl : Option String := none
  group : Option String := none
  related : List String := []

/-- `_cbom_component`. -/
def assetComponent (asset : CryptoAsset) : CbomComponent where
  type := "cryptographic-asset"
  bomRef := asset.key
  name := asset.name

/-- The component of an algorithm of a library. -/
def libraryAssetComponent (asset : CryptoAsset) : CbomComponent :=
  { assetComponent asset with group := some asset.library }

/-- `_CDX17_PROTOCOLS`: the reference, the name and the categories. -/
def cdx17Protocols : List (String × String × List String) :=
  [("protocol/tls", "TLS 1.3 (OpenSSL key-exchange groups)",
      ["openssl_tls_hybrid", "openssl_tls_pqc", "openssl_tls_classical"]),
    ("protocol/ssh", "SSH (OpenSSH key exchange)",
      ["ssh_kex_hybrid", "ssh_kex_pqc", "ssh_kex_classical"])]

/-- `_cbom17_protocol_components`. -/
def protocolComponents (assets : List CryptoAsset) : List CbomComponent :=
  cdx17Protocols.filterMap fun (ref, name, categories) =>
    let members := assets.filter fun asset => asset.category ∈ categories
    if members.isEmpty then none
    else
      some { type := "cryptographic-asset", bomRef := ref, name := name
             related := members.map CryptoAsset.key }

/-- `_cbom17_certificate_components`. -/
def certificateComponents (lower : String → String) (report : Report) : List CbomComponent :=
  (certificateEntries lower report).entries.map fun (sha, cert) =>
    { type := "cryptographic-asset"
      bomRef := "cert/sha256:" ++ sha
      name := (present cert.subject).getD ("certificate " ++ String.ofList (sha.toList.take 16)) }

/-- `_generic_purl`. -/
def genericPurl (name version : String) : String :=
  "pkg:generic/" ++ purlEncode name ++ "@" ++ purlEncode version

/-- `_library_component`. -/
def libraryComponent (ref name : String) (version purl : Option String) : CbomComponent where
  type := "library"
  bomRef := ref
  name := name
  version := version
  purl := purl

/-- A component of `_library_components`. -/
def LibraryComponent.component (library : LibraryComponent) : CbomComponent :=
  libraryComponent library.purl library.name (some library.version) (some library.purl)

/-! ## The crypto libraries -/

section Libraries

variable (lower upper : String → String) (context : Context) (host : PackageHost)

/-- The purl of a library: that of its first package, or a generic one. -/
def libraryPurl (lib : String) (info : LibraryInfo) : Option String :=
  (info.packages.head?.bind fun pkg => sbomPurl lower context host { toPackage := pkg }).or
    ((present info.version).map (genericPurl lib))

/-- The reference of a library without separate installs. -/
def libraryRef (lib : String) (info : LibraryInfo) : String :=
  (libraryPurl lower context host lib info).getD ("crypto-library/" ++ lib)

/-- The component of an install. -/
def installComponent (lib : String) (install : Install) : CbomComponent :=
  let version := present install.version
  let purl := version.map (genericPurl lib)
  libraryComponent (purl.getD ("crypto-library/" ++ lib ++ "/" ++ purlEncode install.path)) lib
    version purl

/-- What `_crypto_library_inventory` returns: components, what they provide, and the references of
the libraries by name and version. -/
structure LibraryInventory where
  components : List CbomComponent := []
  provides : Dict String (List String) := .empty
  index : Dict (String × String) String := .empty

/-- `index.setdefault((lib, version), ref)`, where there is a version. -/
def indexVersion (lib : String) (version : Option String) (ref : String)
    (index : Dict (String × String) String) : Dict (String × String) String :=
  match version with
  | none => index
  | some version => index.update (lib, version) (·.getD ref)

/-- One install. -/
def installTurn (lib : String) (inventory : LibraryInventory) (install : Install) :
    LibraryInventory :=
  let component := installComponent lib install
  { inventory with
    components := inventory.components ++ [component]
    index := indexVersion lib component.version component.bomRef inventory.index }

/-- One library; `byLib` has the keys of its algorithms. -/
def libraryTurn (byLib : Dict String (List String)) (inventory : LibraryInventory)
    (entry : String × LibraryInfo) : LibraryInventory :=
  let (lib, info) := entry
  if ¬ info.installed then inventory
  else if info.installs ≠ [] then info.installs.foldl (installTurn lib) inventory
  else
    let ref := libraryRef lower context host lib info
    let keys := (byLib.get? lib).getD []
    let version := present info.version
    { components := inventory.components ++
        [libraryComponent ref lib version (libraryPurl lower context host lib info)]
      provides :=
        if keys = [] then inventory.provides else inventory.provides.update ref fun _ => keys
      index := indexVersion lib version ref inventory.index }

/-- The keys of the algorithms of every library. -/
def keysByLibrary (assets : List CryptoAsset) : Dict String (List String) :=
  assets.foldl
    (fun byLib asset => byLib.update asset.library fun keys => keys.getD [] ++ [asset.key]) .empty

/-- `_crypto_library_inventory`. -/
def cryptoLibraryInventory (report : Report) (assets : List CryptoAsset) : LibraryInventory :=
  (librariesOf report).foldl (libraryTurn lower context host (keysByLibrary assets)) {}

end Libraries

/-! ## The services -/

/-- What `_service_inventory` returns. -/
structure ServiceInventory where
  services : Dict String CbomComponent := .empty
  extra : Dict String CbomComponent := .empty
  uses : Dict String (List String) := .empty

/-- What a listener is called by: its unit, or its executable. -/
def Listener.ident (listener : Listener) : String :=
  let unit := listener.systemdUnit.getD ""
  if endsWith ".service" unit then unit
  else ((present listener.exe).or (present listener.process)).getD unit

/-- The name of its component. -/
def Listener.label (listener : Listener) : String :=
  let unit := listener.systemdUnit.getD ""
  if endsWith ".service" unit then unit else (present listener.process).getD listener.ident

/-- The libraries that a listener maps, and the Go version that it has. -/
def Listener.links (listener : Listener) : List (String × Option String) :=
  (listener.libraries.map fun link => (link.family, present link.version)) ++
    ((present listener.goVersion).map fun version =>
      ("go", present (some (dropFirst "go" version)))).toList

/-- The reference of a library that a listener maps. -/
def linkRef (index : Dict (String × String) String) (link : String × Option String) : String :=
  match link.2 with
  | none => "crypto-library/" ++ link.1
  | some version => (index.get? (link.1, version)).getD (genericPurl link.1 version)

/-- Has the index the library? -/
def isIndexed (index : Dict (String × String) String) (link : String × Option String) : Bool :=
  (link.2.bind fun version => index.get? (link.1, version)).isSome

/-- One library of a service. -/
def linkTurn (index : Dict (String × String) String) (service : String)
    (inventory : ServiceInventory) (link : String × Option String) : ServiceInventory :=
  let ref := linkRef index link
  { inventory with
    extra :=
      if isIndexed index link then inventory.extra
      else inventory.extra.update ref
        (·.getD (libraryComponent ref link.1 link.2 (link.2.map fun _ => ref)))
    uses := inventory.uses.update service fun refs =>
      if ref ∈ refs.getD [] then refs.getD [] else refs.getD [] ++ [ref] }

/-- One listener. -/
def listenerTurn (index : Dict (String × String) String) (inventory : ServiceInventory)
    (listener : Listener) : ServiceInventory :=
  if listener.pid.isNone ∧ (present listener.exe).isNone then inventory
  else
    let ref := "service/" ++ listener.ident
    let started : ServiceInventory :=
      { inventory with
        services := inventory.services.update ref
          (·.getD { type := "application", bomRef := ref, name := listener.label })
        uses := inventory.uses.update ref (·.getD []) }
    listener.links.foldl (linkTurn index ref) started

/-- `_service_inventory`. -/
def serviceInventory (report : Report) (index : Dict (String × String) String) :
    ServiceInventory :=
  (report.listeners.getD []).foldl (listenerTurn index) {}

/-! ## The document -/

/-- The spec versions. -/
inductive SpecVersion where
  | v16
  | v17
  deriving DecidableEq

/-- `PROFILES`. -/
inductive Profile where
  | none
  | federalDraft
  deriving DecidableEq

/-- `INTEROP_MODES`. -/
inductive Interop where
  | none
  | dependencyTrack
  | sbomOnly
  deriving DecidableEq

/-- An entry of `dependencies`. -/
structure Dependency where
  ref : String
  dependsOn : List String := []
  provides : List String := []

/-- What `_merge_inventory` returns. -/
structure Merged where
  libraries : List CbomComponent
  provides : Dict String (List String)
  services : List CbomComponent := []
  uses : Dict String (List String) := .empty

/-- The document; without dependencies, it has no such member. -/
structure Cbom where
  hostRef : String
  toolRef : String
  components : List CbomComponent
  dependencies : List Dependency

/-- `{c["bom-ref"]: c for c in components}`. -/
def byRef (components : List CbomComponent) : Dict String CbomComponent :=
  components.foldl (fun byRef component => byRef.update component.bomRef fun _ => component) .empty

/-- `add`: of a reference that is there already, the first component stays. -/
def addComponent (byRef : Dict String CbomComponent) (component : CbomComponent) :
    Dict String CbomComponent :=
  byRef.update component.bomRef (·.getD component)

/-- `bucket += [k for k in keys if k not in bucket]`. -/
def addKeys (provides : Dict String (List String)) (entry : String × List String) :
    Dict String (List String) :=
  provides.update entry.1 fun bucket =>
    bucket.getD [] ++ entry.2.filter fun key => key ∉ bucket.getD []

section Document

variable (lower upper : String → String) (context : Context) (host : PackageHost)

/-- `_merge_inventory`. -/
def mergeInventory (report : Report) (assets : List CryptoAsset)
    (libraries : List CbomComponent) (provides : Dict String (List String)) : Merged :=
  let inventory := cryptoLibraryInventory lower context host report assets
  let services := serviceInventory report inventory.index
  { libraries :=
      ((inventory.components ++ services.extra.values).foldl addComponent (byRef libraries)).values
    provides := inventory.provides.entries.foldl addKeys provides
    services := services.services.values
    uses := services.uses }

/-- The assets of a report with a profile. -/
def profileAssets (report : Report) (profile : Profile) : List CryptoAsset :=
  canonicalAssets report ++
    match profile with
    | .none => []
    | .federalDraft => profileClassicalAssets report

/-- The assets of the libraries, which 1.7 has. -/
def specLibraryAssets (report : Report) (spec : SpecVersion) : List CryptoAsset :=
  match spec with
  | .v16 => []
  | .v17 => libraryCryptoAssets upper report

/-- The components of the assets. -/
def assetComponents (report : Report) (spec : SpecVersion) (profile : Profile) :
    List CbomComponent :=
  let assets := profileAssets report profile
  let components :=
    match spec with
    | .v16 => assets.map assetComponent
    | .v17 =>
        assets.map assetComponent ++ protocolComponents assets ++ certificateComponents lower report
  components ++ (specLibraryAssets upper report spec).map libraryAssetComponent

/-- The libraries and the services, with what they provide and use. -/
def mergedOf (report : Report) (spec : SpecVersion) (profile : Profile) (interop : Interop) :
    Merged :=
  let found : LibraryState :=
    match interop with
    | .none => {}
    | .dependencyTrack | .sbomOnly =>
        libraryComponents lower context host (profileAssets report profile) report.bundledCrypto
  let libraries := found.libs.values.map LibraryComponent.component
  match spec with
  | .v16 => { libraries := libraries, provides := found.provides }
  | .v17 =>
      mergeInventory lower context host report (specLibraryAssets upper report spec) libraries
        found.provides

/-- `host/…`. -/
def hostRef (report : Report) : String := "host/" ++ (present report.hostname).getD "unknown"

/-- The entries of `dependencies`. -/
def dependenciesOf (report : Report) (merged : Merged) (provides : Dict String (List String)) :
    List Dependency :=
  { ref := hostRef report
    dependsOn := (merged.libraries ++ merged.services).map CbomComponent.bomRef } ::
    (merged.services.map fun service =>
        { ref := service.bomRef, dependsOn := (merged.uses.get? service.bomRef).getD [] }) ++
      merged.libraries.map fun library =>
        { ref := library.bomRef, provides := (provides.get? library.bomRef).getD [] }

/-- `render_cbom`. -/
def renderCbom (report : Report) (spec : SpecVersion) (profile : Profile) (interop : Interop) :
    Cbom :=
  let merged := mergedOf lower upper context host report spec profile interop
  let inventory := merged.libraries ++ merged.services
  { hostRef := hostRef report
    toolRef := "tool/pqc-readiness@2.4.0"
    components :=
      match interop with
      | .sbomOnly => inventory
      | .none | .dependencyTrack => assetComponents lower upper report spec profile ++ inventory
    dependencies :=
      if interop = .none ∧ inventory.isEmpty then []
      else
        dependenciesOf report merged
          (match interop with
            | .sbomOnly => .empty
            | .none | .dependencyTrack => merged.provides) }

end Document

end PqcReadiness.Bom
