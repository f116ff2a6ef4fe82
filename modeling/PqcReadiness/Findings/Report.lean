import PqcReadiness.Gap.Findings
import PqcReadiness.Ike.Proposals

/-!
# The report behind the findings

What `build_findings` reads of a report: the sections that the verdict is about, with the members
that only findings show, and the sections of the other scans.  A section that the scan did not
produce is the structure's default value.
-/

namespace PqcReadiness.Findings

open Lib Gap

/-! ## The host -/

/-- What the findings read of `openssl` beside the verdict. -/
structure OpenSslDetails where
  version : Option String := none
  versionSource : Option String := none
  upgradePath : Option String := none
  kemAlgorithms : List String := []
  sigAlgorithms : List Json := []
  /-- `"pqc_native_expected" in o`. -/
  expectationGiven : Bool := false
  installed : Bool := true
  /-- `package`: name and version. -/
  package : Option (Option String × Option String) := none
  /-- `library`: path and version. -/
  library : Option (Option String × Option String) := none

/-- `fips`. -/
structure Fips where
  kernel : Json := .null
  opensslProvider : Json := .null
  fenceCheckActive : Bool := false
  algorithmFenceEngaged : Bool := false
  algorithmsReachableOutsideFence : List (String × List String) := []

/-- `fips_pqc_conflict`. -/
structure FipsConflict where
  inConflict : Bool := false
  explanation : Option String := none

/-- `trust_store`. -/
structure TrustStore where
  available : Bool := false
  totalCerts : Option ℤ := none
  pqcCerts : Option ℤ := none
  hybridCerts : Option ℤ := none
  scannedDirs : List String := []
  truncated : Bool := false
  scannedCount : Option ℤ := none
  totalFound : Option ℤ := none

/-- One entry of `accelerators`. -/
structure Accelerator where
  kind : Option String := none
  name : Option String := none
  pqcCapable : Bool := false

/-- What the findings read of `crypto_policy` beside the verdict. -/
structure PolicyDetails where
  available : Bool := false
  active : Option String := none
  availableSubpolicies : Json := .null

/-- One entry of `signing_keys.keys`. -/
structure SigningKey where
  algorithm : Option String := none
  keyId : Option String := none

/-- `signing_keys`. -/
structure SigningKeys where
  available : Bool := false
  /-- `summary.all_classical`. -/
  allClassical : Bool := false
  /-- `summary.total`. -/
  total : ℕ := 0
  keys : List SigningKey := []

/-- What the findings read of `sshd` beside the verdict. -/
structure SshdDetails where
  source : Option String := none
  kexOffered : List String := []

/-- `boot_chain.module_signing.sample_module`. -/
structure SampleModule where
  parsed : Bool := false
  keySize : Option ℤ := none
  signatureAlgorithm : Option String := none
  digestAlgorithm : Option String := none

/-- `boot_chain`. -/
structure BootChain where
  available : Bool := false
  /-- `summary.classical_layers`. -/
  classicalLayers : List String := []
  secureBootCertificates : Option ℤ := none
  secureBootAlgorithms : List String := []
  moduleSigningPqc : Json := .null
  sampleModule : SampleModule := {}
  keyTypesConfigured : List String := []
  /-- The `key_algorithm` of each certificate of `ima_evm`. -/
  imaAlgorithms : List (Option String) := []
  tpmSpecRevision : Option String := none

/-- `kerberos`. -/
structure Kerberos where
  available : Bool := false
  deprecatedEnctypes : List String := []
  aes128Enctypes : List String := []
  enctypesInKeytabs : List String := []
  keytabKeys128BitOnly : Bool := false
  pkinitClassical : Bool := false
  /-- The `source` of each list of `config.enctype_lists`. -/
  enctypeSources : List String := []

/-- One entry of `tunnels.openvpn.configs`. -/
structure OpenVpnConfig where
  path : String
  readable : Bool := false
  reason : Option String := none
  pqcKeyExchange : Option Bool := none
  tlsVersionMax : Option String := none
  tlsGroups : List String := []

/-- `tunnels`. -/
structure Tunnels where
  available : Bool := false
  /-- `wireguard.summary`. -/
  peers : ℕ := 0
  peersWithoutPsk : ℕ := 0
  unreadableConfigs : List String := []
  openvpn : List OpenVpnConfig := []

/-- A configuration that could not be read. -/
structure UnreadableConfig where
  path : String
  reason : String

/-- `dnssec`. -/
structure DnsSec where
  available : Bool := false
  signingConfigured : Bool := false
  signingPqc : Bool := false
  /-- The names of `summary.signing_algorithms`. -/
  signingAlgorithms : List String := []
  deprecatedSigning : List String := []
  unreadableConfigs : List UnreadableConfig := []

/-! ## Software -/

/-- An install of a toolchain. -/
structure Install where
  path : String
  version : Option String := none
  jcaMlKemMlDsa : Option Bool := none
  tlsMlkemDefault : Option Bool := none

/-- One entry of `crypto_libraries.libraries`. -/
structure ScannedLibrary extends LibraryProbe where
  evidence : Option String := none
  /-- The installs of a toolchain (java, go). -/
  installs : Option (List Install) := none
  caveats : List String := []

/-- A configured endpoint of a service. -/
structure ConfiguredEndpoint extends TlsEndpoint where
  file : String
  line : Option ℕ := none
  groups : List String := []
  groupsSource : Option String := none
  groupsSetting : Option String := none
  tls13Allowed : Option Bool := none
  reason : Option String := none
  note : Option String := none

/-- One entry of `service_tls_config.services`. -/
structure ConfiguredService where
  service : String
  version : Option String := none
  endpoints : List ConfiguredEndpoint := []

/-- `ipsec_pqc.configured.capability_mismatch`. -/
structure CapabilityMismatch where
  connections : List String := []
  reason : Option String := none

/-- What the findings read of `ipsec_pqc` beside the verdict. -/
structure IpsecDetails where
  implementation : Option String := none
  version : Option String := none
  capabilityMismatch : Option CapabilityMismatch := none
  proposals : List Ike.Proposal := []

/-- One entry of `packages.bundled_crypto`. -/
structure BundledPackage where
  package : String
  version : Option String := none
  note : Option String := none

/-- `packages`. -/
structure Packages where
  available : Bool := false
  bundledCrypto : List BundledPackage := []

/-! ## The report -/

/-- A report with all that the findings read. -/
structure HostReport where
  /-- The sections that only the verdict reads, and those that both read alike. -/
  rest : Report := {}
  /-- Whether the scan was of a tree, as `scan_mode` says. -/
  offline : Bool := false
  isaScore : ℤ := 0
  isaReason : String := ""
  openssl : OpenSslDetails := {}
  fips : Fips := {}
  fipsPqcConflict : FipsConflict := {}
  trustStore : TrustStore := {}
  accelerators : List Accelerator := []
  cryptoPolicy : PolicyDetails := {}
  signingKeys : SigningKeys := {}
  sshd : SshdDetails := {}
  bootChain : BootChain := {}
  kerberos : Kerberos := {}
  tunnels : Tunnels := {}
  dnssec : DnsSec := {}
  ipsec : IpsecDetails := {}
  packages : Packages := {}
  /-- `crypto_libraries.available`. -/
  librariesAvailable : Bool := false
  libraries : Dict String ScannedLibrary := Dict.empty
  servicesAvailable : Bool := false
  listeners : List ScannedListener := []
  /-- `service_tls_config.available`. -/
  configAvailable : Bool := false
  services : List ConfiguredService := []
  pqcDeploymentGap : Option DeploymentGap := none

/-- The report that the findings about listeners are about. -/
def HostReport.toScanned (r : HostReport) : ScannedReport where
  rest := { r.rest with
    cryptoLibraries := r.libraries.entries.map fun entry => (entry.1, entry.2.toLibraryProbe) }
  available := r.servicesAvailable
  listeners := r.listeners

/-! ## Members of a finding -/

/-- A list of texts as a member. -/
def textsMember (texts : List String) : Json := .arr (texts.map Json.str)

/-- An optional number as a member. -/
def intMember (n : Option ℤ) : Json := (n.map Json.int).getD .null

/-- An optional truth value as a member. -/
def boolMember (b : Option Bool) : Json := (b.map Json.bool).getD .null

/-- The texts of a list. -/
def jsonTexts : Json → List String
  | .arr items => items.filterMap Json.asStr
  | _ => []

/-- `", ".join(texts[:n]) + (", ..." if len(texts) > n else "")`. -/
def firstOf (n : ℕ) (texts : List String) : String :=
  join ", " (texts.take n) ++ if texts.length > n then ", ..." else ""

end PqcReadiness.Findings
