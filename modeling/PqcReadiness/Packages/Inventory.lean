import PqcReadiness.Lib.Text

/-!
# Installed packages

The inventory of a host, from the rpm database, from the database of its family, from the family's
tool, or from whichever database there is (`probe_package_db`), and the rows of the packages with
bundled cryptography (`classify_bundled_crypto`, `scan_packages`).

`PackageHost` is what the readers return.  The epoch is kept in decimal.  The labels and reasons of a
scan are left out.
-/

namespace PqcReadiness.Packages

open PqcReadiness.Lib

/-! ## Packages and databases -/

/-- The kinds of package databases. -/
inductive DbKind where
  | rpm
  | debian
  | alpine
  | opkg
  | arch
  deriving DecidableEq

/-- A package of an inventory. -/
structure Package where
  name : String
  version : String
  release : Option String := none
  epoch : Option String := none
  arch : Option String := none
  sourcerpm : Option String := none
  deriving DecidableEq

/-- What the readers of the host return; `none` is a reader that fails. -/
structure PackageHost where
  /-- Is there a host prefix? -/
  hasPrefix : Bool
  /-- Does `locate_rpmdb` find a database? -/
  rpmdbLocated : Bool
  /-- `query_rpm_packages`. -/
  rpm : Option (List Package)
  /-- `read_prefixed_package_db`. -/
  readDb : DbKind → Option (List Package)
  /-- The tool of a family, with its parser. -/
  runTool : String → Option (List Package)
  /-- Is the tool there? -/
  onPath : String → Bool

/-- What os-release says. -/
structure OsRelease where
  family : String := "unknown"
  id : Option String := none
  versionId : Option String := none

/-- `_PREFIXED_PACKAGE_DBS`. -/
def prefixedDb (family : String) : Option DbKind :=
  find family [("debian", .debian), ("alpine", .alpine), ("arch", .arch)]

/-- The families of `PACKAGE_QUERY_BY_FAMILY`. -/
def plannedFamilies : List String := ["rhel", "suse", "debian", "arch", "alpine"]

/-- What `probe_package_db` finds. -/
structure ProbedDb where
  kind : DbKind
  packages : List Package

/-- `probe_package_db`; of a package in an rpm database, the name and the version are kept. -/
def probePackageDb (host : PackageHost) : Option ProbedDb :=
  let probeRpm : Option ProbedDb :=
    if host.rpmdbLocated then
      host.rpm.map fun pkgs =>
        ⟨.rpm, pkgs.map fun pkg => { name := pkg.name, version := pkg.version }⟩
    else none
  let probe : DbKind → Option ProbedDb := fun kind => (host.readDb kind).map (⟨kind, ·⟩)
  probeRpm.or ((probe .debian).or ((probe .alpine).or ((probe .opkg).or (probe .arch))))

/-! ## The catalogue -/

/-- A pattern of the catalogue. -/
structure Pattern where
  regex : Regex
  /-- Does it end in `$`? -/
  toEnd : Bool := true
  hint : String

/-- `pat.match(name)`. -/
def Pattern.matchesName (pattern : Pattern) (name : String) : Bool :=
  if pattern.toEnd then pattern.regex.matchLine name
  else (Regex.seq pattern.regex (.star (.one fun _ => true))).fullMatch name

/-- `java-\d+(\.\d+\.\d+)?-openjdk(-headless|-devel)?`. -/
def javaOpenjdk : Regex :=
  .seqs [.text "java-", .digits, .opt (.seqs [.text ".", .digits, .text ".", .digits]),
    .text "-openjdk", .opt (.alt (.text "-headless") (.text "-devel"))]

/-- One of some names. -/
def names (texts : List String) : Regex := .alts (texts.map .text)

/-- `BUNDLED_CRYPTO_BY_FAMILY`. -/
def bundledCryptoByFamily : List (String × List Pattern) :=
  [("rhel",
    [{ regex := javaOpenjdk, hint := "Java JCE provider (SunJCE / Bouncy Castle)" },
      { regex := .text "bouncycastle", toEnd := false, hint := "Bouncy Castle (separate provider)" },
      { regex := .seq (names ["golang", "go"]) (.opt (.text "-bin"))
        hint := "Go runtime (crypto/tls embedded; GODEBUG=fips140=on for FIPS)" },
      { regex := .text "nodejs"
        hint := "Node.js (bundled OpenSSL build; --openssl-config controls FIPS)" },
      { regex := names ["rust", "cargo", "rustc"]
        hint := "Rust toolchain (rustls embeds ring or openssl-sys)" },
      { regex := .text "firefox", hint := "Firefox (embeds NSS — separate PQC roadmap)" },
      { regex := .text "thunderbird", hint := "Thunderbird (embeds NSS)" },
      { regex := .text "chromium", hint := "Chromium (embeds BoringSSL)" },
      { regex := .text "python3", hint := "Python ssl module (links system OpenSSL)" }]),
    ("debian",
    [{ regex := .seqs [.text "openjdk-", .digits, .text "-", names ["jdk", "jre"],
          .opt (.text "-headless")]
       hint := "Java JCE provider (SunJCE / Bouncy Castle)" },
      { regex := .text "libbcprov-java", hint := "Bouncy Castle Java library" },
      { regex := .seq (.text "golang-") (.alt (.text "go")
          (.seqs [.digits, .opt (.seq (.text ".") .digits), .text "-go"]))
        hint := "Go runtime (crypto/tls embedded)" },
      { regex := .text "nodejs", hint := "Node.js (bundled OpenSSL build)" },
      { regex := names ["rustc", "cargo"]
        hint := "Rust toolchain (rustls embeds ring or openssl-sys)" },
      { regex := .seq (.text "firefox") (.opt (.text "-esr")), hint := "Firefox (embeds NSS)" },
      { regex := .text "thunderbird", hint := "Thunderbird (embeds NSS)" },
      { regex := .text "chromium", hint := "Chromium (embeds BoringSSL)" },
      { regex := .text "python3", hint := "Python ssl module (links system OpenSSL)" }]),
    ("suse",
    [{ regex := javaOpenjdk, hint := "Java JCE provider" },
      { regex := .seq (.text "go") (.opt (.seq (.text "1.") .digits)), hint := "Go runtime" },
      { regex := .seq (.text "nodejs") (.opt .digits), hint := "Node.js" },
      { regex := names ["rust", "cargo"], hint := "Rust toolchain" },
      { regex := .text "MozillaFirefox", hint := "Firefox (embeds NSS)" },
      { regex := .text "MozillaThunderbird", hint := "Thunderbird (embeds NSS)" },
      { regex := .text "chromium", hint := "Chromium (embeds BoringSSL)" },
      { regex := .text "python3", hint := "Python ssl module" }]),
    ("arch",
    [{ regex := .seqs [.text "jdk", .digits, .text "-openjdk"], hint := "Java JCE provider" },
      { regex := .text "go", hint := "Go runtime" },
      { regex := .text "nodejs", hint := "Node.js" },
      { regex := .text "rust", hint := "Rust toolchain" },
      { regex := .text "firefox", hint := "Firefox (embeds NSS)" },
      { regex := .text "thunderbird", hint := "Thunderbird" },
      { regex := .text "chromium", hint := "Chromium" },
      { regex := .text "python", hint := "Python" }]),
    ("opkg",
    [{ regex := .text "python3-openssl", hint := "Python ssl module (links system OpenSSL)" },
      { regex := .text "node", hint := "Node.js (bundled or system OpenSSL)" },
      { regex := .seq (.text "openjdk-") .digits, toEnd := false, hint := "Java JCE provider" }]),
    ("alpine",
    [{ regex := .seqs [.text "openjdk", .digits, .opt (names ["-jdk", "-jre"])]
       hint := "Java JCE provider" },
      { regex := .text "go", hint := "Go runtime" },
      { regex := .text "nodejs", hint := "Node.js" },
      { regex := .text "rust", hint := "Rust toolchain" },
      { regex := .text "firefox", hint := "Firefox" },
      { regex := .text "chromium", hint := "Chromium" },
      { regex := .text "python3", hint := "Python" }])]

/-- The patterns of a family. -/
def patternsOf (family : String) : List Pattern := (find family bundledCryptoByFamily).getD []

/-! ## Rows -/

/-- A row of `bundled_crypto`. -/
structure BundledRow where
  package : String
  version : String
  note : String
  release : Option String
  epoch : Option String
  arch : Option String
  deriving DecidableEq

/-- A text, or nothing for an empty one. -/
def present (text : Option String) : Option String := text.filter (· ≠ "")

/-- The row of a package. -/
def rowOf (pkg : Package) (hint : String) : BundledRow :=
  ⟨pkg.name, pkg.version, hint, present pkg.release, present pkg.epoch, present pkg.arch⟩

/-- What the loop of `classify_bundled_crypto` has seen. -/
structure ClassifyState where
  seen : List String := []
  out : List BundledRow := []

/-- One package: the first pattern counts, and of a name the first package. -/
def classifyTurn (patterns : List Pattern) (state : ClassifyState) (pkg : Package) :
    ClassifyState :=
  if pkg.name ∈ state.seen then state
  else
    match patterns.find? fun pattern => pattern.matchesName pkg.name with
    | none => state
    | some pattern => ⟨state.seen ++ [pkg.name], state.out ++ [rowOf pkg pattern.hint]⟩

/-- `classify_bundled_crypto`. -/
def classifyBundledCrypto (pkgs : List Package) (family : String) : List BundledRow :=
  (pkgs.foldl (classifyTurn (patternsOf family)) {}).out

/-! ## Scans -/

/-- A scan that is available. -/
structure PackageScan where
  totalPackages : ℕ
  bundledCrypto : List BundledRow

/-- The scan of an inventory. -/
def scanOf (pkgs : List Package) (family : String) : PackageScan :=
  ⟨pkgs.length, classifyBundledCrypto pkgs family⟩

/-- The name of a kind. -/
def DbKind.name : DbKind → String
  | rpm => "rpm"
  | debian => "debian"
  | alpine => "alpine"
  | opkg => "opkg"
  | arch => "arch"

/-- `_scan_probed_packages`; an rpm database is read with the catalogue of RHEL. -/
def scanProbedPackages (host : PackageHost) : Option PackageScan :=
  (probePackageDb host).map fun found =>
    scanOf found.packages (if found.kind = .rpm then "rhel" else found.kind.name)

/-- `scan_packages`. -/
def scanPackages (host : PackageHost) (family : String) : Option PackageScan :=
  if family = "rhel" ∨ family = "suse" then host.rpm.map (scanOf · family)
  else
    match if host.hasPrefix then prefixedDb family else none with
    | some kind => (host.readDb kind).map (scanOf · family)
    | none =>
        if family ∉ plannedFamilies then scanProbedPackages host
        else if host.onPath family then (host.runTool family).map (scanOf · family)
        else none

end PqcReadiness.Packages
