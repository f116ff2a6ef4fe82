import PqcReadiness.Bom.Libraries

/-!
# The crypto assets of a report

`canonical_assets`, the classical algorithms that a profile adds, the algorithms of the crypto
libraries, and the certificates.  What a component says about its asset (`cryptoProperties`,
`properties`) is left out, and so are the members of a report that only that reads.

`lower` and `upper` stand for `str.lower` and `str.upper`.
-/

namespace PqcReadiness.Bom

open PqcReadiness.Lib PqcReadiness.Packages

/-! ## The report -/

/-- An entry of `accelerators`. -/
structure Accelerator where
  kind : Option String := none
  name : Option String := none

/-- `openssl` and `ssh_pqc`: the algorithms in their lists. -/
structure Stack where
  available : Bool := false
  version : Option String := none
  kem : List String := []
  sig : List String := []
  hybrid : List String := []
  purePqc : List String := []
  classical : List String := []

/-- `ipsec_pqc`. -/
structure Ipsec where
  available : Bool := false
  implementation : Option String := none

/-- A certificate of `trust_store` or `crypto_material`. -/
structure Certificate where
  sha256 : Option String := none
  subject : Option String := none

/-- A JDK or a Go toolchain. -/
structure Install where
  path : String
  version : Option String := none

/-- An entry of `crypto_libraries.libraries`. -/
structure LibraryInfo where
  installed : Bool := false
  version : Option String := none
  packages : List Package := []
  installs : List Install := []
  algorithms : Dict String (List String) := .empty

/-- A crypto library that a listener maps. -/
structure ServiceLink where
  family : String
  version : Option String := none

/-- A listener of `service_crypto_linkage`. -/
structure Listener where
  pid : Option ℕ := none
  exe : Option String := none
  systemdUnit : Option String := none
  process : Option String := none
  libraries : List ServiceLink := []
  goVersion : Option String := none

/-- What the CBOM reads of a report; `none` is a scan that is not available. -/
structure Report where
  hostname : Option String := none
  isaFeatures : Dict String (Option String) := .empty
  accelerators : List Accelerator := []
  tpmPresent : Bool := false
  pkcs11Modules : List String := []
  openssl : Stack := {}
  ssh : Stack := {}
  ipsec : Ipsec := {}
  trustStoreAvailable : Bool := false
  trustStoreCertificates : List Certificate := []
  materialCertificates : List Certificate := []
  bundledCrypto : List BundledRow := []
  cryptoLibraries : Option (Dict String LibraryInfo) := none
  listeners : Option (List Listener) := none

/-! ## Canonical assets -/

section Canonical

variable (report : Report)

/-- An algorithm of a stack. -/
def stackAsset (start category source name : String) : CryptoAsset where
  key := start ++ name
  source := source
  name := name
  category := category

/-- `_canonical_isa_assets`. -/
def isaAssets : List CryptoAsset :=
  (sortedBy Prod.fst report.isaFeatures.entries).map fun (flag, name) =>
    { key := "isa/" ++ flag, name := name.getD flag, category := "isa" }

/-- `_canonical_accelerator_assets`. -/
def acceleratorAssets : List CryptoAsset :=
  report.accelerators.zipIdx.map fun (accelerator, idx) =>
    let kind := accelerator.kind.getD "accelerator"
    { key := "accel/" ++ toString idx ++ "/" ++ kind
      name := (present accelerator.name).getD kind
      category := "accelerator" }

/-- `_canonical_tpm_assets`. -/
def tpmAssets : List CryptoAsset :=
  if report.tpmPresent then
    [{ key := "tpm/pqc", name := "TPM PQC capability", category := "tpm" }]
  else []

/-- `Path(path).name`. -/
def pathName (path : String) : String :=
  (((split '/' path).filter fun part => part ≠ "" ∧ part ≠ ".").getLast?).getD ""

/-- `_canonical_pkcs11_assets`. -/
def pkcs11Assets : List CryptoAsset :=
  report.pkcs11Modules.zipIdx.map fun (path, idx) =>
    { key := "pkcs11/" ++ toString idx
      name := (present (some (pathName path))).getD ("pkcs11-module-" ++ toString idx)
      category := "pkcs11" }

/-- `openssl@…` or `openssh@…`. -/
def Stack.source (stack : Stack) (name : String) : String :=
  name ++ "@" ++ (present stack.version).getD "unknown"

/-- `_canonical_openssl_assets`. -/
def opensslAssets : List CryptoAsset :=
  let source := report.openssl.source "openssl"
  if report.openssl.available then
    report.openssl.kem.map (stackAsset "openssl/kem/" "openssl_kem" source) ++
      report.openssl.sig.map (stackAsset "openssl/sig/" "openssl_sig" source) ++
      report.openssl.hybrid.map (stackAsset "openssl/tls-hybrid/" "openssl_tls_hybrid" source) ++
      report.openssl.purePqc.map (stackAsset "openssl/tls-pure-pqc/" "openssl_tls_pqc" source)
  else []

/-- `_canonical_ssh_assets`. -/
def sshAssets : List CryptoAsset :=
  let source := report.ssh.source "openssh"
  if report.ssh.available then
    report.ssh.hybrid.map (stackAsset "ssh/kex/hybrid/" "ssh_kex_hybrid" source) ++
      report.ssh.purePqc.map (stackAsset "ssh/kex/pure-pqc/" "ssh_kex_pqc" source)
  else []

/-- `_canonical_ipsec_assets`. -/
def ipsecAssets : List CryptoAsset :=
  let impl := (present report.ipsec.implementation).getD "ipsec"
  if report.ipsec.available then
    [{ key := "ipsec/" ++ impl, name := "IPsec (" ++ impl ++ ")", category := "ipsec" }]
  else []

/-- `_canonical_trust_store_assets`. -/
def trustStoreAssets : List CryptoAsset :=
  if report.trustStoreAvailable then
    [{ key := "trust-store/summary", name := "Trust store certificate inventory"
       category := "trust_store" }]
  else []

/-- `canonical_assets`. -/
def canonicalAssets : List CryptoAsset :=
  isaAssets report ++ acceleratorAssets report ++ tpmAssets report ++ pkcs11Assets report ++
    opensslAssets report ++ sshAssets report ++ ipsecAssets report ++ trustStoreAssets report

/-- `_profile_classical_assets`. -/
def profileClassicalAssets : List CryptoAsset :=
  let openssl := report.openssl.source "openssl"
  let openssh := report.ssh.source "openssh"
  (if report.openssl.available then
    report.openssl.classical.map
      (stackAsset "openssl/tls-classical/" "openssl_tls_classical" openssl)
    else []) ++
    if report.ssh.available then
      report.ssh.classical.map (stackAsset "ssh/kex/classical/" "ssh_kex_classical" openssh)
    else []

end Canonical

/-! ## Algorithms of libraries -/

section Algorithms

variable (upper : String → String)

/-- `_HYBRID_CURVE_MARKERS`. -/
def hybridCurveMarkers : List String :=
  ["X25519", "X448", "SECP", "NISTP", "P256", "P384", "P521", "BRAINPOOL"]

/-- `_LIBRARY_ALGORITHM_KINDS`: the segment of the key and the end of the category. -/
def libraryAlgorithmKinds : List (String × String × String) :=
  [("kem", "kem", "kem"), ("signatures", "sig", "sig"),
    ("tls_hybrid_groups", "tls-hybrid", "tls_hybrid")]

/-- The segment and the category of a name of a kind. -/
def segmentOf (kind name : String) : String × String :=
  if kind = "ssh_kex" then
    if hybridCurveMarkers.any fun curve => containsSub curve (upper name) then
      ("ssh-kex/hybrid", "ssh_kex_hybrid")
    else ("ssh-kex/pure-pqc", "ssh_kex_pqc")
  else (find kind libraryAlgorithmKinds).getD (kind, kind)

/-- The asset of a name of a kind. -/
def libraryAsset (lib source kind name : String) : CryptoAsset where
  key := "library/" ++ lib ++ "/" ++ (segmentOf upper kind name).1 ++ "/" ++ name
  source := source
  name := name
  category := "library_" ++ (segmentOf upper kind name).2
  library := lib

/-- The assets of a library. -/
def libraryAssets (lib : String) (info : LibraryInfo) : List CryptoAsset :=
  if info.installed then
    (sortedBy Prod.fst info.algorithms.entries).flatMap fun (kind, names) =>
      names.map (libraryAsset upper lib (lib ++ "@" ++ (present info.version).getD "unknown") kind)
  else []

/-- The libraries in the order of their names. -/
def librariesOf (report : Report) : List (String × LibraryInfo) :=
  (report.cryptoLibraries.map fun libraries => sortedBy Prod.fst libraries.entries).getD []

/-- `_library_crypto_assets`. -/
def libraryCryptoAssets (report : Report) : List CryptoAsset :=
  (librariesOf report).flatMap fun (lib, info) => libraryAssets upper lib info

end Algorithms

/-! ## Certificates -/

/-- One certificate: the first record of a fingerprint counts. -/
def certificateTurn (lower : String → String) (merged : Dict String Certificate)
    (cert : Certificate) : Dict String Certificate :=
  let sha := lower (cert.sha256.getD "")
  if sha.length ≠ 64 then merged else merged.update sha (·.getD cert)

/-- `_certificate_entries`. -/
def certificateEntries (lower : String → String) (report : Report) : Dict String Certificate :=
  (report.trustStoreCertificates ++ report.materialCertificates).foldl (certificateTurn lower)
    .empty

end PqcReadiness.Bom
