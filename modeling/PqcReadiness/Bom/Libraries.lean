import PqcReadiness.Bom.Sbom

/-!
# Library components of the CBOM

`_library_components`: a component of every stack that a crypto asset names as its source, and of
every package with bundled cryptography.
-/

namespace PqcReadiness.Bom

open PqcReadiness.Lib PqcReadiness.Packages

/-! ## The source of an asset -/

/-- A crypto asset: its key and its name, where it was detected, and the library that an algorithm is
in. -/
structure CryptoAsset where
  key : String
  source : String := ""
  name : String := ""
  category : String := ""
  library : String := ""

/-- `str.isdigit` of a character, which takes more than the decimal digits. -/
def isDigitChar (c : Char) : Bool :=
  let n := c.toNat
  let within := fun (first last : ℕ) => decide (first ≤ n) && decide (n ≤ last)
  isDigit c || within 0xB2 0xB3 || n == 0xB9 || within 0x1369 0x1371 || n == 0x19DA || n == 0x2070 ||
    within 0x2074 0x2079 || within 0x2080 0x2089 || within 0x2460 0x2468 || within 0x2474 0x247C ||
    within 0x2488 0x2490 || n == 0x24EA || within 0x24F5 0x24FD || n == 0x24FF ||
    within 0x2776 0x277E || within 0x2780 0x2788 || within 0x278A 0x2792 ||
    within 0x10A40 0x10A43 || within 0x10E60 0x10E68 || within 0x11052 0x1105A ||
    within 0x1F100 0x1F10A

/-- `\s+(\S+)`. -/
def spacedWord (s : List Char) : Option (List Char) :=
  match s with
  | c :: _ =>
      let word := (s.dropWhile isSpace).takeWhile fun c => !isSpace c
      if isSpace c ∧ word ≠ [] then some word else none
  | [] => none

/-- `OpenSSL\s+(\S+)`, from here on. -/
def openSslVersion (s : List Char) : Option (List Char) :=
  if "OpenSSL".toList.isPrefixOf s then spacedWord (s.drop "OpenSSL".toList.length) else none

/-- `Library:\s*OpenSSL\s+(\S+)`, from here on. -/
def openSslLibraryVersion (s : List Char) : Option (List Char) :=
  if "Library:".toList.isPrefixOf s then
    openSslVersion ((s.drop "Library:".toList.length).dropWhile isSpace)
  else none

/-- The group of the first match. -/
def searchGroup (here : List Char → Option (List Char)) : List Char → Option (List Char)
  | [] => here []
  | c :: rest => (here (c :: rest)).or (searchGroup here rest)

/-- `_library_from_source`. -/
def libraryFromSource (source : String) : Option (String × String) :=
  let name := beforeChar '@' source
  let rest := (source.toList.dropWhile (· ≠ '@')).tail
  if name = "" ∨ rest = [] ∨ rest = "unknown".toList then none
  else if name = "openssl" then
    match (searchGroup openSslLibraryVersion rest).or (searchGroup openSslVersion rest) with
    | some version => some (name, strip (String.ofList version))
    | none =>
        if (rest.head?.map isDigitChar).getD false then some (name, strip (String.ofList rest))
        else none
  else some (name, strip (String.ofList rest))

/-! ## Components -/

/-- Where a library component comes from. -/
inductive Basis where
  | probedStack
  | bundledCryptoPackage
  deriving DecidableEq

/-- A library component. -/
structure LibraryComponent where
  name : String
  version : String
  purl : String
  basis : Basis
  note : Option String := none

/-- The library components by their purls, and the assets that each provides. -/
structure LibraryState where
  libs : Dict String LibraryComponent := .empty
  provides : Dict String (List String) := .empty

/-- One asset. -/
def assetTurn (state : LibraryState) (asset : CryptoAsset) : LibraryState :=
  match if asset.source = "" then none else libraryFromSource asset.source with
  | none => state
  | some (name, version) =>
      let purl := "pkg:generic/" ++ purlEncode name ++ "@" ++ purlEncode version
      { libs := state.libs.update purl (·.getD ⟨name, version, purl, .probedStack, none⟩)
        provides := state.provides.update purl fun keys => keys.getD [] ++ [asset.key] }

/-- `_package_fields`. -/
def packageFields (row : BundledRow) : Listed where
  name := row.package
  version := row.version
  release := present row.release
  epoch := present row.epoch
  arch := present row.arch

section Components

variable (lower : String → String) (context : Context) (host : PackageHost)

/-- One row of `bundled_crypto`. -/
def rowTurn (libs : Dict String LibraryComponent) (row : BundledRow) :
    Dict String LibraryComponent :=
  if row.package = "" ∨ row.version = "" then libs
  else
    match sbomPurl lower context host (packageFields row) with
    | none => libs
    | some purl =>
        libs.update purl (·.getD
          ⟨row.package, fullVersion row.version row.release, purl, .bundledCryptoPackage,
            present (some row.note)⟩)

/-- `_library_components`, for the rows of a scan. -/
def libraryComponents (assets : List CryptoAsset) (rows : List BundledRow) : LibraryState :=
  let state := assets.foldl assetTurn {}
  { state with libs := rows.foldl (rowTurn lower context host) state.libs }

/-- The rows that `scan_packages` computes for the host. -/
def bundledRows : List BundledRow :=
  ((scanPackages host context.osRelease.family).map PackageScan.bundledCrypto).getD []

/-- The library components of a host, with a scan of its packages. -/
def hostLibraries (assets : List CryptoAsset) : List LibraryComponent :=
  (libraryComponents lower context host assets (bundledRows context host)).libs.values

end Components

end PqcReadiness.Bom
