import PqcReadiness.Gap.Clients
import PqcReadiness.Runtime.Elf

/-!
# What the scan reads of a process

`Proc` is a process directory under `/proc` as the scan sees it: every file and link either
can be read or fails with an `OSError`, independently of the others.  The executable and the
other ELF files below `root` are their contents, which the readers of `Runtime.Elf` go through; a
mapped library is given by what the scan learns from it, its refined family, version and binary
evidence.

`processDetails` is `_process_details`.  A mapped library carries the data that its verdict is
computed from (`Library`), and a Go binary the texts that its record is (`GoDetails`), so that
an entry cannot contradict itself.
-/

namespace PqcReadiness.Runtime

open PqcReadiness.Lib PqcReadiness.Lib.Bytes PqcReadiness.Gap

/-! ## Libraries -/

/-- The families of crypto libraries. -/
inductive Family where
  | openssl
  | gnutls
  | nss
  | wolfssl
  | awsLc
  | boringssl
  | libressl
  deriving DecidableEq

/-- The name of a family in the report. -/
def Family.name : Family → String
  | openssl => "openssl"
  | gnutls => "gnutls"
  | nss => "nss"
  | wolfssl => "wolfssl"
  | awsLc => "aws-lc"
  | boringssl => "boringssl"
  | libressl => "libressl"

/-- What a library file says: its family (the forks of OpenSSL share names), the embedded
version, and whether it has hybrid group names. -/
structure LibraryFacts where
  family : Family
  version : Option String
  markers : Option Bool

/-- A library file, read for a family. -/
abbrev LibraryFile := Family → LibraryFacts

/-- `(st_dev, st_ino)`. -/
abbrev FileKey := ℕ × ℕ

/-- A file that is opened by its path: `os.stat` fails, or gives a key, and reading it fails or
gives its contents. -/
abbrev LibraryAccess := Option (FileKey × Option LibraryFile)

/-- Where a version comes from. -/
inductive VersionSource where
  | embedded
  | filename
  | siblingLibcrypto
  deriving DecidableEq

/-- A mapped crypto library. -/
structure Library where
  family : Family
  path : String
  version : Option String
  versionSource : Option VersionSource
  deleted : Bool
  markers : Option Bool
  deriving DecidableEq

/-- `OPENSSL_PQC_MIN_VERSION`. -/
def opensslPqcMinVersion : List ℕ := [3, 5]

/-- `NSS_PQC_MIN_VERSION`. -/
def nssPqcMinVersion : List ℕ := [3, 108]

/-- `library_pqc_capable`, of a version that does not raise. -/
def libraryPqcCapable (family : Family) (version : Option String) (markers : Option Bool) :
    Option Bool :=
  match markers with
  | some found => some found
  | none =>
      match versionTuple (orEmpty version), family with
      | .ok (some vt), .openssl => some (opensslPqcMinVersion ≤ vt.take 2)
      | .ok (some vt), .nss => some (nssPqcMinVersion ≤ vt.take 2)
      | _, _ => none

/-- `library_pqc_capable`. -/
def Library.pqcCapable (lib : Library) : Option Bool :=
  libraryPqcCapable lib.family lib.version lib.markers

/-! ## Executables -/

/-- What is used of a `parse_go_buildinfo` record. -/
structure GoInfo where
  goVersion : Option String
  mainModule : Option String
  cgoEnabled : Option String
  defaultGodebug : Option String

/-- `go.get("go_version")` to `go["settings"].get("DefaultGODEBUG")`. -/
def GoBuildRead.info : GoBuildRead → GoInfo
  | .pointer => ⟨none, none, none, none⟩
  | .inline version path settings =>
      ⟨version.map String.ofList, path.map String.ofList,
        (settings.get? "CGO_ENABLED".toList).map String.ofList,
        (settings.get? "DefaultGODEBUG".toList).map String.ofList⟩

/-- A Go process. -/
structure GoDetails where
  goVersion : Option String
  mainModule : Option String
  cgoEnabled : Option String
  defaultGodebug : Option String
  runtimeGodebug : Option String
  deriving DecidableEq

/-- The record of a Go process. -/
def GoDetails.build (go : GoDetails) : GoBuild :=
  goRecord go.goVersion go.defaultGodebug go.runtimeGodebug

/-! ## Processes -/

/-- Where a file descriptor leads. -/
inductive FdTarget where
  | socket (inode : ℤ)
  | other
  | unreadable

/-- A process directory. -/
structure Proc where
  comm : File
  cgroup : File
  maps : File
  stat : File
  environ : File
  net : NetTable → File
  exe : Option String
  netns : Option String
  fd : Except OsError (List FdTarget)
  executable : Option (FileKey × Option ElfFile)
  mapFile : String → LibraryAccess
  root : String → LibraryAccess
  elf : String → Option ElfFile
  isFile : String → Bool
  listing : String → Except OsError (List String)

/-- A process that has exited: nothing can be read. -/
def Proc.exited : Proc where
  comm := .error .other
  cgroup := .error .other
  maps := .error .other
  stat := .error .other
  environ := .error .other
  net _ := .error .other
  exe := none
  netns := none
  fd := .error .other
  executable := none
  mapFile _ := none
  root _ := none
  elf _ := none
  isFile _ := false
  listing _ := .error .other

/-- `_socket_inodes`: none is an fd table that may not be read. -/
def socketInodes (proc : Proc) : Option (List ℤ) :=
  match proc.fd with
  | .error .permission => none
  | .error .other => some []
  | .ok targets =>
      some (targets.filterMap fun target =>
        match target with
        | .socket inode => some inode
        | .other => none
        | .unreadable => none).dedup

/-- `_listening_sockets`. -/
def listeningSockets (mode : Mode) (order : ByteOrder) (proc : Proc) : Scanner (List Socket) :=
  [NetTable.tcp, .tcp6, .udp, .udp6].foldlM (fun out table => do
    let text ← readText mode (proc.net table)
    match text with
    | .error _ => return out
    | .ok text => do
        let sockets ← parseProcNet mode order text table.protocol
        return out ++ sockets) []

/-- The path of a cgroup file: the v2 entry, or the last `name=systemd` one. -/
def cgroupOf (path : Option String) : List (List Char) → Option String
  | [] => path
  | line :: rest =>
      match splitAtMost ':' 2 line with
      | [hierarchy, controllers, entry] =>
          if hierarchy = ['0'] then some (String.ofList entry)
          else if containsChars "name=systemd".toList controllers then
            cgroupOf (some (String.ofList entry)) rest
          else cgroupOf path rest
      | _ => cgroupOf path rest

/-- `_cgroup_path`. -/
def cgroupPath (mode : Mode) (proc : Proc) : Scanner (Option String) := do
  let text ← readText mode proc.cgroup
  match text with
  | .error _ => return none
  | .ok text => return cgroupOf none (splitLinesChars text.toList)

/-- `_comm`. -/
def comm (mode : Mode) (proc : Proc) : Scanner (Option String) := do
  let text ← readText mode proc.comm
  match text with
  | .error _ => return none
  | .ok text => return if strip text = "" then none else some (strip text)

/-- `_UNIT_RE`, on the path of a cgroup. -/
def systemdUnit (path : String) : Option String :=
  let last := afterLastChar '/' path
  if '/' ∈ path.toList ∧
      ((endsWith ".service" last ∧ last ≠ ".service") ∨ (endsWith ".scope" last ∧ last ≠ ".scope"))
  then some last
  else none

/-! ## Mapped libraries -/

/-- A library as `maps` names it. -/
structure MapsLibrary where
  family : Family
  path : String
  sonameVersion : Option String
  deleted : Bool
  mapRange : String
  mapsKey : Option (String × ℤ)

/-- `os.path.basename`. -/
def basename (path : String) : String := afterLastChar '/' path

/-- `os.path.dirname`. -/
def dirname (path : String) : String :=
  let head := (path.toList.reverse.dropWhile (· ≠ '/')).reverse
  if head.all (· = '/') then String.ofList head
  else String.ofList (head.reverse.dropWhile (· = '/')).reverse

/-- A library name, with an optional suffix of the given characters. -/
def libraryName (stems : List String) (suffix : Char → Bool) : Regex :=
  .seqs [.text "lib", .alts (stems.map Regex.text), .text ".so",
    .opt (.seq (.text ".") (.plus (.one suffix)))]

/-- `_LIBRARIES`. -/
def libraries (chars : CharData) : List (Family × Regex) :=
  let numbers := fun c => isDigit c || c == '.'
  [(.openssl, libraryName ["ssl", "crypto"] fun c => chars.isWord c || c == '.'),
    (.gnutls, libraryName ["gnutls"] numbers), (.nss, libraryName ["nss3"] numbers),
    (.wolfssl, libraryName ["wolfssl"] numbers)]

/-- The family of a library with this file name. -/
def libraryFamily (chars : CharData) (base : String) : Option Family :=
  ((libraries chars).find? fun entry => entry.2.matchLine base).map Prod.fst

/-- Numbers with dots between them. -/
def dottedNumbers : Regex := .seq .digits (.star (.seq (.text ".") .digits))

/-- `_SONAME_VERSION_RE`: the version at the end of a file name. -/
def sonameVersion : List Char → Option String
  | [] => none
  | c :: rest =>
      let after := (c :: rest).drop 4
      let version := if after.getLast? = some '\n' then after.dropLast else after
      if ".so.".toList.isPrefixOf (c :: rest) ∧ dottedNumbers.accepts version then
        some (String.ofList version)
      else sonameVersion rest

/-- The library of a line of `maps`, if it maps one. -/
def mapsLineLibrary (chars : CharData) (line : List Char) : Option MapsLibrary :=
  match fields 5 line with
  | [range, _, _, device, inode, name] => do
      let name := String.ofList (stripChars name)
      let path := dropLast " (deleted)" name
      let family ← if startsWith "/" path then libraryFamily chars (basename path) else none
      let inode := (intOfChars inode).getD 0
      return {
        family := family
        path := path
        sonameVersion := sonameVersion (basename path).toList
        deleted := endsWith " (deleted)" name
        mapRange := String.ofList range
        mapsKey := if inode = 0 then none else some (String.ofList device, inode) }
  | _ => none

/-- `parse_maps_libraries`: the first mapping of each path. -/
def parseMapsLibraries (chars : CharData) (text : String) : List MapsLibrary :=
  ((splitLinesChars text.toList).filterMap (mapsLineLibrary chars)).foldl (fun seen lib =>
    if seen.any fun other => other.path = lib.path then seen else seen ++ [lib]) []

/-! ## Details -/

/-- The caches of a scan. -/
structure Cache where
  libs : Dict FileKey LibraryFacts
  byMaps : Dict (String × ℤ) LibraryFacts
  exes : Dict FileKey Executable
  /-- The files whose dynamic section has been read, by process and path. -/
  dynamic : List (ℕ × String)

/-- Nothing has been read yet. -/
def Cache.empty : Cache := ⟨.empty, .empty, .empty, []⟩

/-- The paths at which a library is looked for. -/
def libraryCandidates (proc : Proc) (lib : MapsLibrary) : List (String × LibraryAccess) :=
  (if lib.deleted then [(lib.mapRange, proc.mapFile lib.mapRange)] else []) ++
    [(lib.path, proc.root lib.path)]

/-- The first candidate that can be read. -/
def readLibrary (mode : Mode) (cache : Cache) (family : Family) :
    List (String × LibraryAccess) → Scanner (Option (LibraryFacts × Cache))
  | [] => return none
  | (name, access) :: rest => do
      check mode (.path name)
      match if '\x00' ∈ name.toList then none else access with
      | none => readLibrary mode cache family rest
      | some (key, content) =>
          match cache.libs.get? key, content with
          | some facts, _ => return some (facts, cache)
          | none, some file =>
              return some (file family,
                { cache with libs := cache.libs.update key fun _ => file family })
          | none, none => readLibrary mode cache family rest

/-- Remember what the file behind a mapping says. -/
def Cache.noteMapping (cache : Cache) (lib : MapsLibrary) (facts : LibraryFacts) : Cache :=
  match lib.mapsKey with
  | none => cache
  | some key => { cache with byMaps := cache.byMaps.update key fun _ => facts }

/-- The entry of a library with the given facts; the file name gives an OpenSSL version that is
not embedded. -/
def libraryEntry (lib : MapsLibrary) (facts : LibraryFacts) : Library :=
  let release := lib.sonameVersion.filter fun version =>
    facts.version.isNone ∧ 2 ≤ version.toList.count '.' ∧ lib.family = .openssl
  { family := facts.family
    path := lib.path
    version := facts.version <|> release
    versionSource :=
      if facts.version.isSome then some .embedded
      else if release.isSome then some .filename
      else none
    deleted := lib.deleted
    markers := facts.markers }

/-- `_library_details`. -/
def libraryDetails (mode : Mode) (cache : Cache) (proc : Proc) (lib : MapsLibrary) :
    Scanner (Library × Cache) := do
  let found ← readLibrary mode cache lib.family (libraryCandidates proc lib)
  let unknown : LibraryFacts := ⟨lib.family, none, none⟩
  -- A file that cannot be read through this process may have been read through another one.
  let (facts, cache) := match found with
    | some (facts, cache) => (facts, cache.noteMapping lib facts)
    | none => ((lib.mapsKey.bind cache.byMaps.get?).getD unknown, cache)
  let entry := libraryEntry lib facts
  if entry.markers.isNone then check mode (.version (orEmpty entry.version))
  return (entry, cache)

/-- The last libcrypto of known version in a directory. -/
def siblingLibcrypto (libs : List Library) (dir : String) : Option Library :=
  libs.reverse.find? fun lib =>
    dirname lib.path = dir ∧ startsWith "libcrypto." (basename lib.path) ∧
      orEmpty lib.version ≠ ""

/-- `_inherit_libssl_version`. -/
def inheritLibsslVersion (libs : List Library) : List Library :=
  libs.map fun lib =>
    match siblingLibcrypto libs (dirname lib.path) with
    | none => lib
    | some sibling =>
        if lib.version.isNone ∧ startsWith "libssl." (basename lib.path) then
          { lib with
            family := sibling.family
            version := sibling.version
            versionSource := some .siblingLibcrypto
            markers := sibling.markers }
        else lib

/-- `_library_details` of each library, and `_inherit_libssl_version`. -/
def librariesDetails (mode : Mode) (cache : Cache) (proc : Proc) (libs : List MapsLibrary) :
    Scanner (List Library × Cache) := do
  let read ← libs.foldlM (fun (state : List Library × Cache) lib => do
    let entry ← libraryDetails mode state.2 proc lib
    return (state.1 ++ [entry.1], entry.2)) ([], cache)
  return (inheritLibsslVersion read.1, read.2)

/-- The items of an environment. -/
def environItems : Bytes → List Bytes
  | [] => [[]]
  | byte :: rest =>
      if byte = 0 then [] :: environItems rest
      else
        match environItems rest with
        | [] => [[byte]]
        | item :: items => (byte :: item) :: items

/-- `_go_godebug_from_environ`. -/
def goGodebugFromEnviron (raw : Bytes) : Option String :=
  let name := encodeAscii "GODEBUG="
  ((environItems raw).find? fun item => name.isPrefixOf item).map fun item =>
    String.ofList (replaceUtf8From .start (item.drop name.length))

/-- The executable of a process. -/
def executableOf (mode : Mode) (cache : Cache) (proc : Proc) : Scanner (Executable × Cache) :=
  match proc.executable with
  | none => return (.unknown, cache)
  | some (key, file) =>
      match cache.exes.get? key with
      | some known => return (known, cache)
      | none => do
          let exe ← scanElf mode .unknown file (openExecutable file)
          return (exe, { cache with exes := cache.exes.update key fun _ => exe })

/-- The Go details of a process with this executable. -/
def goDetails (mode : Mode) (proc : Proc) (go : Option GoBuildRead) : Scanner (Option GoDetails) :=
  match go with
  | none => return none
  | some go => do
      let info := go.info
      check mode (.version (goVersionText info.goVersion))
      return some {
        goVersion := info.goVersion
        mainModule := info.mainModule
        cgoEnabled := info.cgoEnabled
        defaultGodebug := info.defaultGodebug
        runtimeGodebug := goGodebugFromEnviron (match proc.environ with
          | .ok raw => raw
          | .error _ => []) }

/-- The scan reads the version of a Go binary where `go_tls_kex_default` does, and raises where it
does. -/
theorem goTlsKexDefault_build (go : GoDetails) :
    (Conversion.version (goVersionText go.goVersion)).converts ↔
      goTlsKexDefault go.goVersion go.defaultGodebug go.runtimeGodebug = .ok go.build := by
  have hrecord : goRecord go.goVersion go.defaultGodebug go.runtimeGodebug = go.build := rfl
  rw [goTlsKexDefault_ok_iff, and_iff_left hrecord, ReadableVersion, versionRuns,
    Conversion.converts, List.all_eq_true]
  exact forall₂_congr fun run _ => decide_eq_true_iff

/-- Process identity, crypto libraries and Go details. -/
structure Details where
  process : Option String
  exe : Option String
  systemdUnit : Option String
  cgroup : Option String
  cryptoLibraries : List Library
  staticBinary : Option Bool
  go : Option GoDetails
  deriving DecidableEq

/-- Whether a process has anything to negotiate TLS with. -/
def Details.hasCrypto (details : Details) : Bool :=
  details.cryptoLibraries ≠ [] ∨ details.go.isSome

/-- The text of `maps`, if the caller has not read it. -/
def mapsText (mode : Mode) (proc : Proc) (maps : Option String) : Scanner String :=
  match maps with
  | some text => return text
  | none => do
      let text ← readText mode proc.maps
      match text with
      | .ok text => return text
      | .error _ => return ""

/-- `_process_details`. -/
def processDetails (mode : Mode) (chars : CharData) (cache : Cache) (proc : Proc)
    (maps : Option String) : Scanner (Details × Cache) := do
  let path ← cgroupPath mode proc
  let process ← comm mode proc
  let text ← mapsText mode proc maps
  let libs ← librariesDetails mode cache proc (parseMapsLibraries chars text)
  let exe ← executableOf mode libs.2 proc
  let go ← goDetails mode proc exe.1.go
  return ({
    process := process
    exe := proc.exe
    systemdUnit := path.bind systemdUnit
    cgroup := path.map fun path => String.ofList (path.toList.drop (path.toList.length - 200))
    cryptoLibraries := libs.1
    staticBinary := exe.1.static
    go := go }, exe.2)

end PqcReadiness.Runtime
