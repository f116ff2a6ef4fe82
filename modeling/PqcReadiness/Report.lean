import PqcReadiness.Lib.Text

/-!
# The host report

The sections of a scan report that the deployment-gap verdict, the observation
join and the fleet aggregator read.  A section the scan did not produce is the
structure's default value, which is what `report.get(section) or {}` reads.

Fields have the type the scanner writes.  A member whose type the readers test
at run time (`isinstance(value, bool)`, `isinstance(groups, dict)`) is kept as
`Json`, so that the test is part of the model; `Json.null` stands for a member
that is absent or null.
-/

namespace PqcReadiness

open Lib

/-! ## Host-wide sections -/

/-- `openssl`. -/
structure OpenSsl where
  available : Bool := false
  tlsGroups : Json := .null
  pqcNative : Json := .null
  pqcNativeExpected : Json := .null
  /-- `config.pqc_key_exchange_by_default`. -/
  pqcKeyExchangeByDefault : Json := .null

/-- `crypto_policy.pqc_enabled`. -/
structure CryptoPolicy where
  tlsKeyExchange : Json := .null
  sshKeyExchangeServer : Json := .null
  ikeKeyExchange : Json := .null

/-- `sshd`. -/
structure Sshd where
  available : Bool := false
  /-- Is the list of unreadable files non-empty? -/
  unreadable : Bool := false
  opensshSupportsPqcKex : Json := .null
  pqcOffered : Json := .null
  pqcFirst : Json := .null
  firstKex : Option String := none
  kexSource : Option String := none

/-- `ssh_pqc`. -/
structure SshPqc where
  available : Bool := false
  kexGroups : Json := .null

/-- `ipsec_pqc`, with the counts of its `configured.summary`. -/
structure IpsecPqc where
  available : Bool := false
  pqc : Json := .null
  connections : ℕ := 0
  connectionsOfferingPqc : ℕ := 0
  /-- `configured.capability_mismatch.connections`. -/
  mismatchConnections : List String := []

/-! ## Processes and sockets -/

/-- A crypto library a process maps. -/
structure CryptoLibrary where
  family : Option String := none
  path : Option String := none
  version : Option String := none
  libraryPqcCapable : Option Bool := none

/-- The Go toolchain of a binary, with the key exchange it defaults to. -/
structure GoBuild where
  goVersion : Option String := none
  defaultHybridKex : Option String := none
  godebugReverts : List String := []

/-- The transport of a socket. -/
inductive Transport where
  | tcp
  | udp
  deriving DecidableEq

/-- Which addresses a bound socket can be reached on. -/
inductive BindScope where
  | any
  | loopback
  | multicast
  | linkLocal
  | specific
  deriving DecidableEq

/-- The network namespace of a socket, seen from the scanner. -/
inductive NetworkNamespace where
  | host
  | other
  deriving DecidableEq

/-- One entry of `service_crypto_linkage.listeners`. -/
structure Listener where
  protocol : Option Transport := none
  address : Option String := none
  port : Option ℤ := none
  bindScope : Option BindScope := none
  networkNamespace : Option NetworkNamespace := none
  process : Option String := none
  exe : Option String := none
  systemdUnit : Option String := none
  cryptoLibraries : List CryptoLibrary := []
  /-- Were the libraries taken from worker processes or binaries? -/
  cryptoLibrariesFrom : Bool := false
  go : Option GoBuild := none

/-- `service_crypto_linkage`. -/
structure ServiceCryptoLinkage where
  available : Bool := false
  listeners : List Listener := []

/-- The side of a configured TLS endpoint. -/
inductive EndpointRole where
  | server
  | client
  deriving DecidableEq

/-- A configured TLS endpoint of a service. -/
structure TlsEndpoint where
  role : EndpointRole := .server
  ports : List ℤ := []
  pqcKeyExchange : Option Bool := none
  serviceSupportsPqcGroups : Option Bool := none

/-- One entry of `service_tls_config.services`. -/
structure TlsService where
  service : String
  endpoints : List TlsEndpoint := []

/-- `service_tls_config`. -/
structure ServiceTlsConfig where
  available : Bool := false
  services : List TlsService := []

/-- One entry of `process_crypto_linkage.groups`. -/
structure ProcessGroup where
  exe : Option String := none
  process : Option String := none
  systemdUnits : List String := []
  containers : List Json := []
  containersOmitted : ℕ := 0
  /-- `roles.client`. -/
  clients : ℕ := 0
  cryptoLibraries : List CryptoLibrary := []
  go : Option GoBuild := none

/-- `process_crypto_linkage`. -/
structure ProcessCryptoLinkage where
  available : Bool := false
  groups : List ProcessGroup := []
  omittedGroups : ℕ := 0

/-- One entry of `crypto_libraries.libraries`. -/
structure LibraryProbe where
  installed : Bool := false
  pqcCapable : Option Bool := none
  files : List String := []
  version : Option String := none

/-! ## A verdict read back from a report -/

/-- The members of a stored client verdict that the aggregator reads. -/
structure StoredClient where
  state : Option String := none
  clientProcesses : ℤ := 0

/-- The members of a stored `pqc_deployment_gap` that the aggregator reads: the
state of each protocol, service and client group, where given. -/
structure StoredGap where
  protocols : List (String × Option String) := []
  services : List (Option String) := []
  clients : List StoredClient := []

/-! ## The report -/

/-- A host report. -/
structure Report where
  hostname : String := ""
  generatedAt : Json := .null
  arch : Option String := none
  osReleaseId : Option String := none
  isaTier : Option String := none
  verdict : Option String := none
  environment : Option String := none
  cpuModel : Option String := none
  /-- The `kind` of each accelerator. -/
  accelerators : List (Option String) := []
  hostFsDetectionsUnavailable : Dict String Json := Dict.empty
  replaceRequired : Bool := false
  openssl : OpenSsl := {}
  cryptoPolicy : CryptoPolicy := {}
  sshd : Sshd := {}
  sshPqc : SshPqc := {}
  ipsecPqc : IpsecPqc := {}
  serviceCryptoLinkage : ServiceCryptoLinkage := {}
  serviceTlsConfig : ServiceTlsConfig := {}
  processCryptoLinkage : ProcessCryptoLinkage := {}
  cryptoLibraries : List (String × LibraryProbe) := []
  /-- The `sha256` of each certificate of `crypto_material`. -/
  cryptoMaterial : List Json := []
  /-- The `sha256` of each certificate of `trust_store`. -/
  trustStore : List Json := []
  pqcDeploymentGap : Option StoredGap := none

/-- The same report with its sockets enumerated differently. -/
def Report.withListeners (report : Report) (listeners : List Listener) : Report :=
  { report with
    serviceCryptoLinkage := { report.serviceCryptoLinkage with listeners := listeners } }

/-- The text of an optional member in a formatted string. -/
def optionText : Option String → String
  | none => "None"
  | some text => text

/-- The name the report uses for a transport. -/
def Transport.name : Transport → String
  | tcp => "tcp"
  | udp => "udp"

/-- `x or ""` for an optional text. -/
def orEmpty : Option String → String
  | none => ""
  | some text => text

end PqcReadiness
