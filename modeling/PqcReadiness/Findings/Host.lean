import PqcReadiness.Findings.Report

/-!
# Findings about the host

The rules of `build_findings` that fire once for a host, and the predicates of the scans that they
ask.
-/

namespace PqcReadiness.Findings

open Lib Gap

/-! ## Predicates of the scans -/

/-- `policy_blocks_capable_pqc`. -/
def policyBlocksCapablePqc (r : HostReport) : Bool :=
  r.cryptoPolicy.available &&
    (match r.rest.openssl.tlsGroups with
      | .obj groups => offersPqc groups
      | _ => r.rest.openssl.pqcNative.asBool = some true) &&
    r.rest.cryptoPolicy.tlsKeyExchange.asBool = some false

/-- What keeps PQC out of sshd. -/
inductive SshdGap where
  | notOffered
  | notFirst

/-- Its name in the report. -/
def SshdGap.name : SshdGap → String
  | notOffered => "not_offered"
  | notFirst => "not_first"

/-- `sshd_pqc_gap`. -/
def sshdPqcGap (sshd : Sshd) : Option SshdGap :=
  if !sshd.available || !sshd.opensshSupportsPqcKex.truthy then none
  else if sshd.pqcOffered.asBool = some false then some .notOffered
  else if sshd.pqcOffered.truthy && sshd.pqcFirst.asBool = some false then some .notFirst
  else none

/-- The sentence about module signing. -/
def describeModuleSigning (boot : BootChain) : String :=
  let sample := boot.sampleModule
  if sample.parsed then
    "kernel modules are signed with " ++ optionText sample.signatureAlgorithm ++
      ((sample.keySize.filter (· ≠ 0)).map fun size => "-" ++ toString size).getD "" ++ " / " ++
      optionText sample.digestAlgorithm
  else
    "the kernel is configured for " ++
      join "/" (if boot.keyTypesConfigured = [] then ["?"] else boot.keyTypesConfigured) ++
      " module signing"

/-- `describe_classical_layers`. -/
def describeClassicalLayers (boot : BootChain) : List String :=
  if !boot.available then []
  else
    (if "secure_boot" ∈ boot.classicalLayers then
      ["Secure Boot trusts " ++ optionText (boot.secureBootCertificates.map toString) ++
        " certificates (PK/KEK/db/MOK), all classical: " ++ join ", " boot.secureBootAlgorithms]
      else []) ++
    (if "module_signing" ∈ boot.classicalLayers then [describeModuleSigning boot] else []) ++
    (if "ima" ∈ boot.classicalLayers then
      ["IMA code-signing certificates are " ++
        join ", " (sortedSet (boot.imaAlgorithms.map optionText))]
      else []) ++
    if "tpm" ∈ boot.classicalLayers then
      ["the TPM (spec " ++ optionText boot.tpmSpecRevision ++
        ") reports no ML-KEM / ML-DSA support"]
    else []

/-- Where the deprecated enctypes of Kerberos come from. -/
def deprecatedWhere (kerberos : Kerberos) : List String :=
  (if kerberos.deprecatedEnctypes.any (· ∈ kerberos.enctypesInKeytabs) then ["keytab keys"]
    else []) ++
  if "mit_default" ∈ kerberos.enctypeSources then
    ["MIT krb5's default enctype list (no permitted_enctypes set)"]
  else []

/-- The sentences of `describe_findings`, each with the level that it has on its own. -/
def kerberosParts (kerberos : Kerberos) : List (Level × String) :=
  if !kerberos.available then []
  else
    (if kerberos.deprecatedEnctypes ≠ [] then
      [(.warning, "deprecated Kerberos enctypes are allowed: " ++
        join ", " kerberos.deprecatedEnctypes ++
        if deprecatedWhere kerberos ≠ [] then " (" ++ join "; " (deprecatedWhere kerberos) ++ ")"
        else "")]
      else []) ++
    (if kerberos.keytabKeys128BitOnly then
      [(.note, "keytab keys are 128-bit only (" ++ join ", " kerberos.enctypesInKeytabs ++
        "); CNSA 2.0 requires AES-256")]
      else if kerberos.aes128Enctypes ≠ [] then
        [(.note, "128-bit enctypes are permitted (" ++ join ", " kerberos.aes128Enctypes ++
          "); Grover's algorithm leaves them ~64-bit security and CNSA 2.0 requires AES-256")]
      else []) ++
    if kerberos.pkinitClassical then
      [(.note, "PKINIT is configured with a classical identity; post-quantum PKINIT is only an " ++
        "individual Internet-Draft")]
    else []

/-- `describe_wireguard`. -/
def describeWireguard (tunnels : Tunnels) : Option String :=
  if tunnels.peersWithoutPsk = 0 then none
  else some (toString tunnels.peersWithoutPsk ++ " of " ++ toString tunnels.peers ++
    " WireGuard peers have no pre-shared key, so their traffic is protected only by the " ++
    "Curve25519 handshake (harvest-now-decrypt-later)")

/-- Whether an OpenVPN configuration is known to have no PQC key exchange. -/
def OpenVpnConfig.isClassical (config : OpenVpnConfig) : Bool :=
  config.readable && config.pqcKeyExchange = some false

/-- `describe_openvpn`. -/
def describeOpenvpn (tunnels : Tunnels) : List String :=
  (tunnels.openvpn.filter OpenVpnConfig.isClassical).map fun config =>
    let newest := nonempty config.tlsVersionMax
    let why :=
      if newest.any fun text => (words text).head?.any (· ∈ ["1.0", "1.1", "1.2"]) then
        "tls-version-max " ++ newest.getD "" ++ " (hybrid ML-KEM groups need TLS 1.3)"
      else "tls-groups " ++ join ":" config.tlsGroups ++ " has no ML-KEM group"
    config.path ++ ": " ++ why

/-- `describe`, for DNSSEC. -/
def describeDnssec (dnssec : DnsSec) : Option (Level × String) :=
  let names := join ", " dnssec.signingAlgorithms
  if !dnssec.available then none
  else if !dnssec.signingConfigured || dnssec.signingPqc then none
  else if dnssec.deprecatedSigning ≠ [] then
    some (.warning, "DNSSEC signing uses algorithms IANA marks MUST NOT for signing: " ++
      join ", " dnssec.deprecatedSigning ++ " (all signing algorithms: " ++ names ++ ")")
  else
    some (.note, "DNSSEC zones are signed with classical algorithms only (" ++ names ++
      "); ML-DSA-44 (IANA algorithm 18, draft) is the only post-quantum algorithm registered")

/-- `containers_label`. -/
def containersLabel (name : String) (containers : List Json) (omitted : ℕ) : String :=
  let total := containers.length + omitted
  match containers with
  | [] => if total > 1 then name ++ " (" ++ toString total ++ " containers)" else name
  | container :: _ =>
      if total = 1 then
        let members := match container with
          | .obj members => members
          | _ => []
        let identity : ContainerIdentity :=
          { id := (Json.get members "id").asStr
            podNamespace := (Json.get members "pod_namespace").asStr
            podName := (Json.get members "pod_name").asStr
            containerName := (Json.get members "container_name").asStr }
        containerLabel identity ((nonempty identity.containerName).getD name)
      else name ++ " (" ++ toString total ++ " containers)"

/-! ## The rules -/

/-- The rule about an old OpenSSL. -/
def opensslRule : String := "pqc-001-openssl-pre-3.5"

/-- A finding about the whole host. -/
def hostFinding (ruleId : String) (level : Level) (message : String)
    (properties : List (String × Json)) : Finding :=
  ⟨ruleId, level, message, properties, ""⟩

/-- `pqc-001`, of the live probe. -/
def opensslFinding (r : HostReport) : Option Finding :=
  if r.rest.openssl.available && r.rest.openssl.pqcNative.asBool = some false then
    some (hostFinding opensslRule .warning
      ("OpenSSL " ++ dropFirst "OpenSSL " ((nonempty r.openssl.version).getD "unknown") ++
        " is older than 3.5.0 — native ML-KEM / ML-DSA are not available.")
      [("openssl:version", textMember r.openssl.version),
        ("openssl:version_source", textMember r.openssl.versionSource),
        ("openssl:upgrade_path", textMember r.openssl.upgradePath)])
  else none

/-- `pqc-002`. -/
def conflictFinding (r : HostReport) : Option Finding :=
  if r.fipsPqcConflict.inConflict then
    some (hostFinding "pqc-002-fips-pqc-conflict" .error
      ((nonempty r.fipsPqcConflict.explanation).getD "FIPS / PQC provider conflict.")
      [("fips:kernel", r.fips.kernel), ("fips:openssl_provider", r.fips.opensslProvider),
        ("openssl:kem_algorithms", textsMember r.openssl.kemAlgorithms),
        ("openssl:sig_algorithms", .arr r.openssl.sigAlgorithms)])
  else none

/-- `pqc-003`. -/
def isaFinding (r : HostReport) : Option Finding :=
  if r.rest.replaceRequired then
    some (hostFinding "pqc-003-no-pqc-isa-support" .warning
      ("ISA tier '" ++ optionText r.rest.isaTier ++ "' and no PQC-capable accelerator detected; " ++
        "software-only PQC is not viable on this host.")
      [("isa:tier", textMember r.rest.isaTier), ("isa:score", .int r.isaScore),
        ("isa:reason", .str r.isaReason)])
  else none

/-- `pqc-004`. -/
def trustStoreFinding (r : HostReport) : Option Finding :=
  let store := r.trustStore
  let total := store.totalCerts.getD 0
  if store.available && total > 0 && store.pqcCerts.getD 0 = 0 && store.hybridCerts.getD 0 = 0 then
    some (hostFinding "pqc-004-classical-only-trust-store" .note
      ("Scanned " ++ toString total ++ " certificates across " ++
        toString store.scannedDirs.length ++
        " trust-store directories; every cert uses classical signatures." ++
        if store.truncated then
          " Scan was capped at " ++ optionText (store.scannedCount.map toString) ++ " of " ++
            optionText (store.totalFound.map toString) ++
            " unique certificates; the rest were not inspected."
        else "")
      [("trust_store:total_certs", intMember store.totalCerts),
        ("trust_store:pqc_certs", intMember store.pqcCerts),
        ("trust_store:hybrid_certs", intMember store.hybridCerts),
        ("trust_store:scanned_dirs", textsMember store.scannedDirs),
        ("trust_store:truncated", .bool store.truncated)])
  else none

/-- The SLH-DSA signatures that OpenSSL exposes. -/
def slhDsa (r : HostReport) : List String :=
  sortedBy id ((r.openssl.sigAlgorithms.filterMap Json.asStr).filter (startsWith "SLH-DSA"))

/-- `pqc-005`. -/
def slhDsaFinding (r : HostReport) : Option Finding :=
  if slhDsa r ≠ [] then
    some (hostFinding "pqc-005-slh-dsa-in-tls-context" .warning
      ("OpenSSL exposes SLH-DSA signature algorithms (" ++ join ", " (slhDsa r) ++
        "); prefer ML-DSA for TLS handshakes.")
      [("openssl:slh_dsa_algorithms", textsMember (slhDsa r))])
  else none

/-- `network_hsms_no_pqc`. -/
def networkHsmsNoPqc (r : HostReport) : List Accelerator :=
  r.accelerators.filter fun a => a.kind = some "network_hsm" && !a.pqcCapable

/-- `pqc-006`. -/
def hsmFinding (r : HostReport) : Option Finding :=
  let names := sortedSet ((networkHsmsNoPqc r).map fun a => (nonempty a.name).getD "unknown")
  if networkHsmsNoPqc r ≠ [] then
    some (hostFinding "pqc-006-no-network-hsm-pqc-firmware" .warning
      ("Network HSM client present (" ++ join ", " names ++ ") but the appliance is not flagged " ++
        "as PQC-capable.  Verify appliance firmware before relying on it for PQC.")
      [("hsm:network_hsm_names", textsMember names)])
  else none

/-- `pqc-007`. -/
def fenceFinding (r : HostReport) : Option Finding :=
  let outside := r.fips.algorithmsReachableOutsideFence
  let part (label member : String) : List String :=
    let names := (find member outside).getD []
    if names ≠ [] then [label ++ "=" ++ join "," names] else []
  if r.fips.fenceCheckActive && !r.fips.algorithmFenceEngaged then
    some (hostFinding "pqc-007-fips-without-algorithm-fence" .error
      ("FIPS mode is active but the default OpenSSL provider exposes algorithms outside the " ++
        "FIPS provider's set: " ++
        join "; " (part "KEMs" "kems" ++ part "signatures" "signatures" ++
          part "tls_groups" "tls_groups") ++
        ".  See docs/findings/fips-algorithm-fence.md.")
      [("fips:algorithms_reachable_outside_fence",
        .obj (outside.map fun entry => (entry.1, textsMember entry.2)))])
  else none

/-- `pqc-008`. -/
def policyFinding (r : HostReport) : Option Finding :=
  let groups := match r.rest.openssl.tlsGroups with
    | .obj groups => groups
    | _ => []
  if policyBlocksCapablePqc r then
    some (hostFinding "pqc-008-crypto-policy-blocks-pqc" .warning
      ("Crypto policy " ++ optionText r.cryptoPolicy.active ++
        " allows no PQC TLS groups, although OpenSSL supports " ++
        join ", "
          (jsonTexts (Json.get groups "hybrid") ++ jsonTexts (Json.get groups "pure_pqc")) ++ ".")
      [("crypto_policy:active", textMember r.cryptoPolicy.active),
        ("crypto_policy:available_subpolicies", r.cryptoPolicy.availableSubpolicies)])
  else none

/-- `pqc-009`. -/
def signingKeysFinding (r : HostReport) : Option Finding :=
  let algos := sortedSet (r.signingKeys.keys.map fun key => optionText key.algorithm)
  if r.signingKeys.available && r.signingKeys.allClassical then
    some (hostFinding "pqc-009-classical-package-signing-keys" .note
      ("All " ++ toString r.signingKeys.total ++ " trusted package-signing keys are classical (" ++
        join ", " algos ++ "); none uses ML-DSA or SLH-DSA (RFC 9980).")
      [("signing_keys:total", .int r.signingKeys.total),
        ("signing_keys:algorithms", textsMember algos),
        ("signing_keys:key_ids", textsMember
          (sortedBy id (r.signingKeys.keys.filterMap fun key => nonempty key.keyId)))])
  else none

/-- `pqc-010`. -/
def sshdFinding (r : HostReport) : Option Finding :=
  (sshdPqcGap r.rest.sshd).map fun gap =>
    let (level, message) : Level × String := match gap with
      | .notOffered => (.warning,
          "sshd offers no post-quantum key exchange although the installed OpenSSH supports " ++
            "one; offered: " ++ firstOf 4 r.sshd.kexOffered ++ ".")
      | .notFirst => (.note,
          "sshd offers a post-quantum key exchange but prefers " ++
            optionText r.rest.sshd.firstKex ++ " first.")
    hostFinding "pqc-010-sshd-pqc-kex-not-offered" level message
      [("sshd:source", textMember r.sshd.source),
        ("sshd:first_kex", textMember r.rest.sshd.firstKex), ("sshd:gap", .str gap.name)]

/-- The protocols of a verdict that are capable and not configured. -/
def gapProtocols (gap : DeploymentGap) : List String :=
  ([("tls", gap.protocols.tls), ("ssh", gap.protocols.ssh),
    ("ipsec", gap.protocols.ipsec)].filter fun entry =>
      entry.2.state = .capableNotConfigured).map Prod.fst

/-- The services; those that only follow the host say nothing of their own. -/
def gapServices (gap : DeploymentGap) : List String :=
  ((serviceItems gap.services).filter fun item =>
    item.state = .capableNotConfigured && !item.followsHostDefault).map fun item =>
      optionText item.process ++ " " ++ optionText (item.protocol.map Transport.name) ++ "/" ++
        optionText (item.port.map toString)

/-- The client groups. -/
def gapClients (gap : DeploymentGap) : List String :=
  ((clientItems gap.clients).filter fun item =>
    item.state = .capableNotConfigured && !item.followsHostDefault).map fun item =>
      containersLabel (optionText ((nonempty item.exe).or item.process)) item.containers
        item.containersOmitted

/-- `_capable_not_configured_finding`: `pqc-020`. -/
def capableNotConfiguredFinding (r : HostReport) : Option Finding :=
  let protocols := (r.pqcDeploymentGap.map gapProtocols).getD []
  let services := (r.pqcDeploymentGap.map gapServices).getD []
  let clients := (r.pqcDeploymentGap.map gapClients).getD []
  -- Gaps of TLS and SSH alone are what pqc-008 and pqc-010 report.
  let restatesOnly := services = [] ∧ clients = [] ∧ protocols.all (· ∈ ["tls", "ssh"])
  let part (label : String) (texts : List String) (shown : String) : List String :=
    if texts ≠ [] then [label ++ ": " ++ shown] else []
  if protocols = [] ∧ services = [] ∧ clients = [] then none
  else
    some (hostFinding "pqc-020-pqc-capable-not-configured"
      (if restatesOnly then .note else .warning)
      ("PQC-capable software is configured to stay classical (" ++
        join "; " (part "protocols" protocols (join ", " protocols) ++
          part "services" services (firstOf 6 services) ++
          part "clients" clients (firstOf 6 clients)) ++
        "); a configuration change closes the gap.")
      [("gap:protocols", textsMember protocols), ("gap:services", textsMember services),
        ("gap:clients", textsMember clients)])

/-- `pqc-030`. -/
def bootFinding (r : HostReport) : Option Finding :=
  let layers := describeClassicalLayers r.bootChain
  if layers ≠ [] then
    some (hostFinding "pqc-030-classical-boot-chain" .note
      ("Boot chain is classical: " ++ join "; " layers ++ ".")
      [("boot_chain:classical_layers", textsMember r.bootChain.classicalLayers),
        ("boot_chain:secure_boot_algorithms", textsMember r.bootChain.secureBootAlgorithms),
        ("boot_chain:module_signing_pqc", r.bootChain.moduleSigningPqc)])
  else none

/-- `pqc-031`; the first sentence has the highest level. -/
def kerberosFinding (r : HostReport) : Option Finding :=
  let parts := kerberosParts r.kerberos
  parts.head?.map fun first =>
    hostFinding "pqc-031-kerberos-weak-enctypes" first.1
      ("Kerberos: " ++ join "; " (parts.map Prod.snd) ++ ".")
      [("kerberos:deprecated_enctypes", textsMember r.kerberos.deprecatedEnctypes),
        ("kerberos:aes128_enctypes", textsMember r.kerberos.aes128Enctypes),
        ("kerberos:enctypes_in_keytabs", textsMember r.kerberos.enctypesInKeytabs),
        ("kerberos:pkinit_classical", .bool r.kerberos.pkinitClassical)]

/-- `pqc-032`. -/
def wireguardFinding (r : HostReport) : Option Finding :=
  (describeWireguard r.tunnels).map fun message =>
    hostFinding "pqc-032-wireguard-peer-without-psk" .warning (message ++ ".")
      [("wireguard:peers", .int r.tunnels.peers),
        ("wireguard:peers_without_psk", .int r.tunnels.peersWithoutPsk)]

/-- `pqc-033`. -/
def openvpnFinding (r : HostReport) : Option Finding :=
  let configs := describeOpenvpn r.tunnels
  if configs ≠ [] then
    some (hostFinding "pqc-033-openvpn-classical-key-exchange" .warning
      ("OpenVPN configurations without PQC key exchange: " ++ join "; " configs ++ ".")
      [("openvpn:configs", textsMember (configs.map (beforeChar ':')))])
  else none

/-- `pqc-034`. -/
def dnssecFinding (r : HostReport) : Option Finding :=
  (describeDnssec r.dnssec).map fun found =>
    hostFinding "pqc-034-dnssec-classical-signing" found.1 (found.2 ++ ".")
      [("dnssec:signing_algorithms", textsMember r.dnssec.signingAlgorithms)]

end PqcReadiness.Findings
