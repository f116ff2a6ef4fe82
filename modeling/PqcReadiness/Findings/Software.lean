import PqcReadiness.Findings.Host
import PqcReadiness.Ike.Negotiation

/-!
# Findings about software

The rules of `build_findings` that fire once for each service, library, connection, package or file,
and `build_findings` itself.
-/

namespace PqcReadiness.Findings

open Lib Gap

/-! ## Configured endpoints -/

/-- An endpoint of `blocked_endpoints`. -/
structure BlockedEndpoint where
  service : String
  version : Option String
  endpoint : ConfiguredEndpoint

/-- `blocked_endpoints`. -/
def blockedEndpoints (available : Bool) (services : List ConfiguredService)
    (tlsCapable : Option Bool) : List BlockedEndpoint :=
  if !available || tlsCapable ≠ some true then []
  else
    services.flatMap fun svc =>
      (svc.endpoints.filter fun ep =>
        ep.role = .server && ep.pqcKeyExchange = some false).map fun ep =>
          ⟨svc.service, svc.version, ep⟩

/-- `SERVICE_LABELS`. -/
def serviceLabels : List (String × String) :=
  [("apache", "Apache httpd"), ("mysql", "MariaDB/MySQL"), ("redis", "Redis/Valkey"),
    ("postgresql", "PostgreSQL"), ("openldap", "OpenLDAP"), ("389-ds", "389 Directory Server"),
    ("postfix", "Postfix smtpd"), ("dovecot", "Dovecot"), ("haproxy", "HAProxy"),
    ("stunnel", "stunnel"), ("squid", "Squid"), ("tomcat", "Tomcat"), ("nginx", "nginx")]

/-- `describe_blocked`. -/
def describeBlocked (item : BlockedEndpoint) : String :=
  let ep := item.endpoint
  let label := (find item.service serviceLabels).getD item.service
  let location := ep.file ++
    ((ep.line.filter (· ≠ 0)).map fun number => ":" ++ toString number).getD ""
  let ports := join ", " (ep.ports.map toString)
  let head := label ++ " (" ++ location ++ (if ports ≠ "" then ", port " ++ ports else "") ++ ")"
  let groups := join ":" ep.groups
  if ep.tls13Allowed = some false then
    head ++ " disables TLS 1.3, so it can't offer hybrid ML-KEM"
  else if ep.serviceSupportsPqcGroups = some false then
    head ++ ": " ++ (nonempty ep.note).getD (optionText ep.reason)
  else if ep.groupsSource = some "service default" then
    head ++ " uses its built-in group list " ++ groups ++ ", which has no ML-KEM group; set " ++
      (nonempty ep.groupsSetting).getD "the group list" ++ " to include X25519MLKEM768"
  else
    head ++ " sets " ++ optionText ep.groupsSetting ++ " " ++ groups ++
      ", which has no ML-KEM group"

/-- Who a finding about an endpoint is about. -/
def BlockedEndpoint.subject (item : BlockedEndpoint) : String :=
  item.service ++ ":" ++ item.endpoint.file ++ ":" ++
    ((item.endpoint.line.filter (· ≠ 0)).map toString).getD "" ++ ":" ++
    join "," (item.endpoint.ports.map toString)

/-- `pqc-021`. -/
def configRule : String := "pqc-021-service-config-blocks-pqc"

/-- The finding about one endpoint. -/
def blockedFinding (item : BlockedEndpoint) : Finding where
  ruleId := configRule
  level := .warning
  message := describeBlocked item ++ "."
  properties :=
    [("service:name", .str item.service), ("service:version", textMember item.version),
      ("service:config_file", .str item.endpoint.file),
      ("service:config_line", intMember (item.endpoint.line.map Int.ofNat)),
      ("service:ports", .arr (item.endpoint.ports.map Json.int)),
      ("service:groups", textsMember item.endpoint.groups),
      ("service:groups_source", textMember item.endpoint.groupsSource),
      ("service:tls13_allowed", boolMember item.endpoint.tls13Allowed)]
  subject := item.subject

/-- The endpoints that `service_config_blocks` names. -/
def blockedItems (r : HostReport) : List BlockedEndpoint :=
  blockedEndpoints r.configAvailable r.services (tlsCapable r.rest).1

/-- `_service_config_findings`. -/
def serviceConfigFindings (r : HostReport) : List Finding := (blockedItems r).map blockedFinding

/-! ## Libraries -/

/-- `pqc-013`. -/
def cryptoLibraryRule : String := "pqc-013-crypto-library-without-pqc"

/-- `pqc-014`. -/
def preStandardRule : String := "pqc-014-crypto-library-pre-standard-mlkem"

/-- `JDK_JCA_PQC_MAJOR`. -/
def jdkJcaPqcMajor : ℕ := 24

/-- `GO_MLKEM_DEFAULT_VERSION`, as it is shown. -/
def goNeeded : String := join "." (goMlkemDefaultVersion.map toString)

/-- What an install of a toolchain can do. -/
def Install.capable (name : String) (install : Install) : Option Bool :=
  if name = "java" then install.jcaMlKemMlDsa else install.tlsMlkemDefault

/-- The subject of an install. -/
def Install.subject (name : String) (install : Install) : String :=
  "library:" ++ name ++ ":" ++ install.path

/-- The finding about one install, if there is one. -/
def installFinding (name : String) (install : Install) : Option Finding :=
  let label := name ++ " " ++ optionText install.version ++ " at " ++ install.path
  let props := [("library:name", Json.str name), ("library:version", textMember install.version),
    ("library:path", Json.str install.path)]
  match install.capable name with
  | some true => none
  | none => some (undetermined (install.subject name) label props)
  | some false =>
      let why :=
        if name = "java" then
          "has no ML-KEM / ML-DSA (JEP 496 / 497 arrived in JDK " ++ toString jdkJcaPqcMajor ++ ")"
        else
          "builds programs without default hybrid ML-KEM in crypto/tls (Go " ++ goNeeded ++ "+)"
      some ⟨cryptoLibraryRule, .warning, label ++ " " ++ why ++ ".", props, install.subject name⟩

/-- The finding about a library that is no toolchain, if there is one. -/
def scannedFinding (name : String) (lib : ScannedLibrary) : Option Finding :=
  let subject := "library:" ++ name
  let label := name ++ " " ++ (nonempty lib.version).getD "(unknown version)"
  let props := [("library:name", Json.str name), ("library:version", textMember lib.version),
    ("library:evidence", textMember lib.evidence), ("library:files", textsMember lib.files)]
  match lib.pqcCapable with
  | some false =>
      some ⟨cryptoLibraryRule, .warning, label ++ " has no ML-KEM / ML-DSA (evidence: " ++
        optionText lib.evidence ++ "); software using it fails at PQC.", props, subject⟩
  | none => some (undetermined subject label props)
  | some true =>
      if lib.caveats = [] then none
      else
        some ⟨preStandardRule, .note, label ++ ": " ++ join " " lib.caveats,
          props ++ [("library:caveats", textsMember lib.caveats)], subject⟩

/-- The findings about one entry. -/
def probeFindings (name : String) (lib : ScannedLibrary) : List Finding :=
  if !lib.installed then []
  else
    match lib.installs with
    | some installs => installs.filterMap (installFinding name)
    | none => (scannedFinding name lib).toList

/-- `_library_findings`. -/
def libraryFindings (r : HostReport) : List Finding :=
  if r.librariesAvailable then
    r.libraries.entries.flatMap fun entry => probeFindings entry.1 entry.2
  else []

/-! ## IPsec -/

/-- `pqc-015`. -/
def mlkemUnsupportedRule : String := "pqc-015-ipsec-mlkem-unsupported-by-stack"

/-- `pqc-016`. -/
def classicalIkeRule : String := "pqc-016-ipsec-classical-only-ike"

/-- The finding about connections that the stack cannot load. -/
def mismatchFinding (ipsec : IpsecDetails) : Option Finding :=
  ipsec.capabilityMismatch.map fun mismatch =>
    { ruleId := mlkemUnsupportedRule
      level := .warning
      message := strip (toString mismatch.connections.length ++
        " IPsec connection(s) configure ML-KEM (" ++ join ", " mismatch.connections ++
        ") but the installed " ++ (nonempty ipsec.implementation).getD "IPsec stack" ++
        " has no ML-KEM support; they fail to load. " ++ (nonempty mismatch.reason).getD "")
      properties := [("ipsec:implementation", textMember ipsec.implementation),
        ("ipsec:version", textMember ipsec.version),
        ("ipsec:connections", textsMember mismatch.connections)]
      subject := "" }

/-- The connection of a proposal that counts. -/
def ikeConnection (p : Ike.Proposal) : Option String :=
  if p.kind = .ike then nonempty p.connection else none

/-- `by_conn`. -/
def byConnection (proposals : List Ike.Proposal) : Dict String (List Ike.Proposal) :=
  proposals.foldl (fun found p =>
    match ikeConnection p with
    | none => found
    | some conn => found.update conn fun props => props.getD [] ++ [p]) .empty

/-- The finding about one connection, if there is one. -/
def connectionFinding (conn : String) (props : List Ike.Proposal) : Option Finding :=
  let categories := props.map Ike.Proposal.category
  let subject := "ipsec:" ++ conn
  let base := [("ipsec:connection", Json.str conn),
    ("ipsec:proposals", textsMember (props.map Ike.Proposal.proposal)),
    ("ipsec:sources", textsMember (sortedSet (props.map Ike.Proposal.source)))]
  if conn = "%default" then none
  else if categories.any (· ∈ [some .hybrid, some .purePqc]) then none
  else if none ∈ categories then
    some (undetermined subject ("IPsec connection " ++ conn ++
      " (an IKE proposal relies on the implementation's default key exchanges)") base)
  else
    some ⟨classicalIkeRule, .warning, "IPsec connection " ++ conn ++
      " offers only classical IKE key exchanges (" ++
      join "; " (props.map Ike.Proposal.proposal) ++ ").", base, subject⟩

/-- `_ipsec_findings`. -/
def ipsecFindings (r : HostReport) : List Finding :=
  (mismatchFinding r.ipsec).toList ++
    (sortedBy Prod.fst (byConnection r.ipsec.proposals).entries).filterMap fun entry =>
      connectionFinding entry.1 entry.2

/-! ## Packages -/

/-- `pqc-017`. -/
def bundledRule : String := "pqc-017-bundled-crypto-without-pqc"

/-- What stands behind a text, and the digits that it begins with. -/
def digitsAfter (first : String) (s : List Char) : Option (List Char × List Char) :=
  if first.toList.isPrefixOf s then
    let rest := s.drop first.toList.length
    let digits := rest.takeWhile isDigit
    if digits = [] then none else some (digits, rest.drop digits.length)
  else none

/-- `_java_major`. -/
def javaMajor (package : String) : Option ℕ :=
  match digitsAfter "java-" package.toList with
  | some (digits, rest) =>
      match decimal digits, digitsAfter "." rest with
      | 1, some (minor, _) => some (decimal minor)
      | major, _ => some major
  | none =>
      ((digitsAfter "openjdk-" package.toList).or (digitsAfter "jdk" package.toList)).map
        fun found => decimal found.1

/-- What may stand behind the name of a Go package. -/
def goSuffix : List Char → Bool
  | [] | ['\n'] => true
  | '-' :: rest =>
      rest.head?.any isDigit || rest ∈ ["bin".toList, "bin\n".toList, "go".toList, "go\n".toList]
  | c :: _ => isDigit c

/-- `_GO_PACKAGE_RE`. -/
def isGoPackage (name : String) : Bool :=
  ["golang", "go"].any fun first =>
    first.toList.isPrefixOf name.toList && goSuffix (name.toList.drop first.toList.length)

/-- The numbers of a dotted version, up to the first part that is not one. -/
def dottedNumbers : List (List Char) → List ℕ
  | [] => []
  | part :: rest =>
      let digits := part.takeWhile isDigit
      if digits = [] then []
      else decimal digits :: if digits.length = part.length then dottedNumbers rest else []

/-- `_version_tuple` of the library scan, which skips an epoch. -/
def libraryVersionTuple (text : Option String) : Option (List ℕ) :=
  (nonempty text).bind fun text =>
    let s := stripChars text.toList
    let plain := dottedNumbers (splitChars '.' s)
    let behind := dottedNumbers (splitChars '.' ((s.dropWhile isDigit).drop 1))
    if s.takeWhile isDigit = [] then none
    else if (s.dropWhile isDigit).head? = some ':' ∧ behind ≠ [] then some behind
    else some plain

/-- Whether the scan of the libraries has judged a toolchain. -/
def judged (libraries : Dict String ScannedLibrary) (name : String) : Bool :=
  (libraries.get? name).any fun lib => lib.installed

/-- The finding about one package, if there is one. -/
def packageFinding (libraries : Dict String ScannedLibrary) (entry : BundledPackage) :
    Option Finding :=
  let name := entry.package
  let label := name ++ " " ++ optionText entry.version
  let props := [("package:name", Json.str name), ("package:version", textMember entry.version),
    ("package:note", textMember entry.note)]
  match (javaMajor name).filter fun _ => containsSub "openjdk" name with
  | some major =>
      if judged libraries "java" || jdkJcaPqcMajor ≤ major then none
      else
        some ⟨bundledRule, .warning, label ++ " is OpenJDK " ++ toString major ++
          ": no ML-KEM / ML-DSA (JEP 496 / 497 arrived in JDK " ++ toString jdkJcaPqcMajor ++ ").",
          props ++ [("package:jdk_major", .int major)], "package:" ++ name⟩
  | none =>
      if !isGoPackage name || judged libraries "go" then none
      else
        match libraryVersionTuple entry.version with
        | some (major :: minor :: _) =>
            if [major, minor] < goMlkemDefaultVersion then
              some ⟨bundledRule, .warning, label ++ ": programs built with it get no default " ++
                "hybrid ML-KEM in crypto/tls (Go " ++ goNeeded ++ "+).", props,
                "package:" ++ name⟩
            else none
        | _ => none

/-- `_bundled_findings`. -/
def bundledFindings (r : HostReport) : List Finding :=
  if r.packages.available then
    r.packages.bundledCrypto.filterMap (packageFinding r.libraries)
  else []

/-! ## Trees and files -/

/-- `_offline_openssl_findings`. -/
def offlineOpensslFinding (r : HostReport) : Option Finding :=
  let o := r.openssl
  let package (member : Option String × Option String → Option String) : Option String :=
    o.package.bind member
  let library (member : Option String × Option String → Option String) : Option String :=
    o.library.bind member
  if !r.offline then none
  else if r.rest.openssl.pqcNativeExpected.asBool = some false then
    let what :=
      if o.package.isSome then
        "OpenSSL package " ++ optionText (package Prod.fst) ++ " " ++ optionText (package Prod.snd)
      else
        "OpenSSL library " ++ optionText (library Prod.fst) ++ " " ++ optionText (library Prod.snd)
    let props :=
      if o.package.isSome then
        [("openssl:package", textMember (package Prod.fst)),
          ("openssl:package_version", textMember (package Prod.snd))]
      else
        [("openssl:library", textMember (library Prod.fst)),
          ("openssl:library_version", textMember (library Prod.snd))]
    some (hostFinding opensslRule .warning ("The tree's " ++ what ++
      " is older than 3.5.0 — native ML-KEM / ML-DSA are not available.") props)
  else if r.rest.openssl.pqcNativeExpected.isNull && o.expectationGiven && o.installed then
    some (undetermined "openssl:tree" ("the tree's OpenSSL (no package version, and the library " ++
      "carries no version string)")
      [("openssl:package", textMember (package Prod.fst)),
        ("openssl:library", textMember (library Prod.fst))])
  else none

/-- The finding about a file that could not be read. -/
def unreadableFinding (kind path what : String) : Finding :=
  undetermined (kind ++ ":" ++ path) what [(kind ++ ":config", .str path)]

/-- `_tunnel_findings`. -/
def tunnelFindings (r : HostReport) : List Finding :=
  (r.dnssec.unreadableConfigs.map fun config =>
    unreadableFinding "dnssec" config.path
      ("DNSSEC signing configured in " ++ config.path ++ " (" ++ config.reason ++ ")")) ++
  if r.tunnels.available then
    (r.tunnels.unreadableConfigs.map fun path =>
      unreadableFinding "wireguard" path
        ("WireGuard config " ++ path ++ " (unreadable: needs root)")) ++
    (r.tunnels.openvpn.filter fun config => !config.readable).map fun config =>
      unreadableFinding "openvpn" config.path
        ("OpenVPN config " ++ config.path ++ " (" ++ optionText config.reason ++ ")")
  else []

/-! ## All findings -/

/-- The ids of `RULE_SPECS`. -/
def ruleIds : List String :=
  [opensslRule, "pqc-002-fips-pqc-conflict", "pqc-003-no-pqc-isa-support",
    "pqc-004-classical-only-trust-store", "pqc-005-slh-dsa-in-tls-context",
    "pqc-006-no-network-hsm-pqc-firmware", "pqc-007-fips-without-algorithm-fence",
    "pqc-008-crypto-policy-blocks-pqc", "pqc-009-classical-package-signing-keys",
    "pqc-010-sshd-pqc-kex-not-offered", libraryRule, goRule, cryptoLibraryRule, preStandardRule,
    mlkemUnsupportedRule, classicalIkeRule, bundledRule, undeterminedRule,
    "pqc-020-pqc-capable-not-configured", configRule, "pqc-030-classical-boot-chain",
    "pqc-031-kerberos-weak-enctypes", "pqc-032-wireguard-peer-without-psk",
    "pqc-033-openvpn-classical-key-exchange", "pqc-034-dnssec-classical-signing"]

/-- `order`: where the rule of a finding stands. -/
def ruleIndex (finding : Finding) : ℕ := ruleIds.idxOf finding.ruleId

/-- `found`: the findings about software that fails, predicate by predicate. -/
def failuresFound (r : HostReport) : List Finding :=
  (offlineOpensslFinding r).toList ++ serviceFindings r.toScanned ++ libraryFindings r ++
    ipsecFindings r ++ bundledFindings r ++ tunnelFindings r

/-- `pqc_failure_findings`. -/
def pqcFailureFindings (r : HostReport) : List Finding := sortedBy ruleIndex (failuresFound r)

/-- The rules for the host that stand before the failures. -/
def hostFindings (r : HostReport) : List Finding :=
  [opensslFinding r, conflictFinding r, isaFinding r, trustStoreFinding r, slhDsaFinding r,
    hsmFinding r, fenceFinding r, policyFinding r, signingKeysFinding r, sshdFinding r].reduceOption

/-- The rules for the host that stand behind them. -/
def surveyFindings (r : HostReport) : List Finding :=
  [bootFinding r, kerberosFinding r, wireguardFinding r, openvpnFinding r,
    dnssecFinding r].reduceOption

/-- `build_findings`. -/
def buildFindings (r : HostReport) : List Finding :=
  hostFindings r ++ pqcFailureFindings r ++ (capableNotConfiguredFinding r).toList ++
    serviceConfigFindings r ++ surveyFindings r

end PqcReadiness.Findings
