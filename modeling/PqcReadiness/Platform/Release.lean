import PqcReadiness.Lib.Codec
import PqcReadiness.Lib.Dict
import PqcReadiness.Lib.Matching

/-!
# The release files

`detect_os` finds out what a host or a tree is from seven release files, of which it takes the
first that offers something.  The result is what that file alone would give (`firstOffer_onlyFile`).

Two of the seven texts are read with `errors="replace"`, the others are not, and the name of a
distribution in `redhat-release` is taken from a list of words that may be empty.
`identified_iff` says which contents the identification gets through.
-/

namespace PqcReadiness.Platform

open PqcReadiness.Lib

/-! ## What is read -/

/-- The release files, in the order in which they are looked at. -/
inductive ReleaseFile where
  | osRelease
  | usrLibOsRelease
  | openwrtRelease
  | buildinfo
  | redhatRelease
  | debianVersion
  | suseRelease
  deriving DecidableEq

/-- What stands at a path; `unreadable` is an `OSError` of the file that exists. -/
inductive Content where
  | absent
  | unreadable
  | data (bytes : Bytes)
  deriving DecidableEq

/-- The release files of a host or a tree. -/
abbrev ReleaseFiles := ReleaseFile → Content

/-- What `detect_os` may raise. -/
inductive Failure where
  | unicodeDecodeError
  | indexError
  deriving DecidableEq

/-- `safe_exists`. -/
def Content.exists (content : Content) : Bool := content ≠ .absent

/-- The content can be read. -/
def Content.isReadable : Content → Bool
  | .data _ => true
  | _ => false

/-- `p.read_text()`; none is an `OSError`. -/
def readText : Content → Except Failure (Option String)
  | .absent => .ok none
  | .unreadable => .ok none
  | .data bytes =>
      match decodeUtf8 bytes with
      | none => .error .unicodeDecodeError
      | some text => .ok (some (String.ofList (universalNewlines text.toList)))

/-- `_read_tree_text`. -/
def readTreeText : Content → Option String
  | .absent => none
  | .unreadable => none
  | .data bytes =>
      some (String.ofList ((universalNewlines (replaceUtf8From .start bytes)).take (64 * 1024)))

/-! ## What a release is -/

/-- The families that `detect_os` documents, and `unknown`. -/
inductive OsFamily where
  | rhel
  | debian
  | suse
  | arch
  | alpine
  | openwrt
  | macos
  | unknown
  deriving DecidableEq

/-- `OS_FAMILY_BY_ID`. -/
def osFamilyById : List (String × OsFamily) :=
  [("rhel", .rhel), ("fedora", .rhel), ("centos", .rhel), ("rocky", .rhel), ("almalinux", .rhel),
    ("ol", .rhel), ("amzn", .rhel), ("debian", .debian), ("ubuntu", .debian),
    ("linuxmint", .debian), ("pop", .debian), ("kali", .debian), ("raspbian", .debian),
    ("neon", .debian), ("elementary", .debian), ("sles", .suse), ("opensuse-leap", .suse),
    ("opensuse-tumbleweed", .suse), ("sled", .suse), ("arch", .arch), ("manjaro", .arch),
    ("endeavouros", .arch), ("garuda", .arch), ("alpine", .alpine), ("openwrt", .openwrt)]

/-- `PKG_MANAGER_ORDER`. -/
def pkgManagerOrder : OsFamily → List String
  | .rhel => ["dnf", "microdnf", "yum"]
  | .debian => ["apt-get", "apt"]
  | .suse => ["zypper"]
  | .arch => ["pacman"]
  | .alpine => ["apk"]
  | .openwrt => ["apk", "opkg"]
  | .macos => []
  | .unknown => []

/-- The record of `detect_os`. -/
structure OsRelease where
  family : OsFamily
  id : String
  versionId : Option String
  versionCodename : Option String
  prettyName : Option String
  packageManager : Option String
  source : Option String
  unavailableInContainer : Bool
  reason : Option String
  deriving DecidableEq

/-- The machine that scans: `hasTool` looks in the tree of an offline scan, `note` is the reason
of `host_fs_unavailable_note`, and `mac` the version of the macOS that it runs, if it does. -/
structure ScanMachine where
  offline : Bool
  mac : Option String
  hasTool : String → Bool
  kernel : String
  note : Option String

/-- A record that names a distribution and no more. -/
def release (family : OsFamily) (id : String) (versionId prettyName : Option String) : OsRelease :=
  ⟨family, id, versionId, none, prettyName, none, none, false, none⟩

/-- `value or None`. -/
def orNone (value : Option String) : Option String := value.filter (· ≠ "")

/-! ## The formats -/

/-- `line.partition(sep)`, if the line has one. -/
def partitionAt (sep : Char) (line : String) : Option (String × String) :=
  match line.toList.dropWhile (· ≠ sep) with
  | [] => none
  | _ :: rest => some (String.ofList (line.toList.takeWhile (· ≠ sep)), String.ofList rest)

/-- A value without the quotes around it. -/
def unquote (value : String) : String :=
  if (startsWith "\"" value ∧ endsWith "\"" value) ∨
      (startsWith "'" value ∧ endsWith "'" value) then
    String.ofList (value.toList.drop 1).dropLast
  else value

/-- The keys of some lines, of which a later one replaces an earlier one. -/
def collectKeys (assignments : List (String × String)) : Dict String String :=
  assignments.foldl (fun keys entry => keys.update entry.1 fun _ => entry.2) Dict.empty

/-- A line of `os-release`. -/
def osReleaseLine (line : String) : Option (String × String) :=
  let line := strip line
  if line = "" ∨ startsWith "#" line then none
  else (partitionAt '=' line).map fun entry => (strip entry.1, unquote (strip entry.2))

section Formats

variable (chars : CharData)

/-- `parse_os_release`. -/
def parseOsRelease (text : String) : OsRelease :=
  let raw := collectKeys ((splitLines text).filterMap osReleaseLine)
  let id := strip (chars.lower ((raw.get? "ID").getD ""))
  let idLike := (words ((raw.get? "ID_LIKE").getD "")).map chars.lower
  let family := (find id osFamilyById).or (idLike.findSome? fun token => find token osFamilyById)
  { family := family.getD .unknown
    id := if id = "" then "unknown" else id
    versionId := orNone (raw.get? "VERSION_ID")
    versionCodename := orNone (raw.get? "VERSION_CODENAME")
    prettyName := orNone (raw.get? "PRETTY_NAME")
    packageManager := none
    source := none
    unavailableInContainer := false
    reason := none }

/-- `_os_release_text`. -/
def osReleaseText (fields : List (String × String)) : String :=
  join "\n" ((fields.filter fun field => field.2 ≠ "").map fun field =>
    field.1 ++ "=\"" ++ field.2 ++ "\"")

/-- `text.strip("'\"")`. -/
def stripQuotes (text : String) : String :=
  let isQuote := fun c => c == '\'' || c == '"'
  String.ofList ((text.toList.dropWhile isQuote).reverse.dropWhile isQuote).reverse

/-- `_from_openwrt_release`, of a file that can be read. -/
def fromOpenwrtRelease (text : String) : OsRelease :=
  let keys := collectKeys ((splitLines text).filterMap fun line =>
    (partitionAt '=' line).map fun entry => (strip entry.1, stripQuotes (strip entry.2)))
  let fields := [("ID", chars.lower ((orNone (keys.get? "DISTRIB_ID")).getD "openwrt")),
    ("VERSION_ID", (keys.get? "DISTRIB_RELEASE").getD ""),
    ("PRETTY_NAME", (keys.get? "DISTRIB_DESCRIPTION").getD "")]
  { parseOsRelease chars (osReleaseText fields) with source := some "/etc/openwrt_release" }

/-- A line of `buildinfo` that is kept. -/
def buildinfoLine (line : String) : Option (String × String) :=
  match partitionAt '=' line with
  | none => none
  | some (key, value) =>
      if strip key ∈ ["DISTRO", "DISTRO_VERSION"] ∧ strip value ≠ "" then
        some (strip key, strip value)
      else none

/-- `read_buildinfo`. -/
def readBuildinfo (content : Content) : Dict String String :=
  collectKeys ((splitLines ((readTreeText content).getD "")).filterMap buildinfoLine)

/-- `_from_buildinfo`. -/
def fromBuildinfo (content : Content) : Option OsRelease :=
  let info := readBuildinfo content
  match orNone (info.get? "DISTRO") with
  | none => none
  | some distro =>
      let version := (info.get? "DISTRO_VERSION").getD ""
      let fields := [("ID", chars.lower distro), ("VERSION_ID", version),
        ("PRETTY_NAME", strip (distro ++ " " ++ version))]
      some { parseOsRelease chars (osReleaseText fields) with source := some "/etc/buildinfo" }

end Formats

/-! ### redhat-release -/

/-- `\d+(?:\.\d+)?` at the start of a text. -/
def leadingVersion (text : List Char) : Option (List Char) :=
  match text.takeWhile isDigit with
  | [] => none
  | major =>
      match text.dropWhile isDigit with
      | '.' :: rest =>
          match rest.takeWhile isDigit with
          | [] => some major
          | minor => some (major ++ '.' :: minor)
      | _ => some major

/-- `\s+`, then what follows it. -/
def afterSpaces : List Char → Option (List Char)
  | [] => none
  | c :: rest => if isSpace c then some (rest.dropWhile isSpace) else none

/-- `\s+release\s+(\d+(?:\.\d+)?)` at the start of a text: a run of spaces is taken whole, since
neither a letter nor a digit is one. -/
def releaseVersion (text : List Char) : Option (List Char) := do
  let text ← afterSpaces text
  if "release".toList.isPrefixOf text then
    leadingVersion (← afterSpaces (text.drop "release".toList.length))
  else none

/-- `^(.+?)\s+release\s+(\d+(?:\.\d+)?)`: the shortest name that is followed by a version. -/
def nameAndVersion (name : List Char) : List Char → Option (List Char × List Char)
  | [] => none
  | c :: rest =>
      if c = '\n' then none
      else
        match releaseVersion rest with
        | some version => some (name ++ [c], version)
        | none => nameAndVersion (name ++ [c]) rest

/-- What `redhat-release` says. -/
structure RedhatRelease where
  raw : String
  distro : Option String
  version : Option String
  minor : Option String

/-- `parse_redhat_release`. -/
def parseRedhatRelease (text : String) : RedhatRelease :=
  let raw := strip text
  match nameAndVersion [] raw.toList with
  | none => ⟨raw, none, none, none⟩
  | some (name, version) =>
      let minor := match version.dropWhile (· ≠ '.') with
        | [] => none
        | _ :: rest => some (String.ofList rest)
      ⟨raw, some (strip (String.ofList name)), some (String.ofList version), minor⟩

/-! ## The identification -/

section Detect

variable (chars : CharData) (machine : ScanMachine) (files : ReleaseFiles)

/-- `_resolve_package_manager`. -/
def packageManager (family : OsFamily) : Option String :=
  (pkgManagerOrder family).find? machine.hasTool

/-- The record with the package manager of its family. -/
def withManager (out : OsRelease) : OsRelease :=
  { out with packageManager := packageManager machine out.family }

/-- The text of the first `os-release` that can be read. -/
def readOsRelease : Except Failure (Option String) := do
  match ← readText (files .osRelease) with
  | some text => return some text
  | none => readText (files .usrLibOsRelease)

/-- The release files that distributions of their own write. -/
def fromDistroFiles : Option OsRelease :=
  ((readTreeText (files .openwrtRelease)).map (fromOpenwrtRelease chars)).or
    (fromBuildinfo chars (files .buildinfo))

/-- What is returned of `redhat-release`. -/
def fromRedhatRelease (text : String) : Except Failure OsRelease :=
  let redhat := parseRedhatRelease text
  match words (chars.lower (redhat.distro.getD "")) with
  | [] => .error .indexError
  | word :: _ =>
      .ok (withManager machine
        (release .rhel (if word = "" then "rhel" else word) redhat.version (some redhat.raw)))

/-- What is returned of `debian_version`; it need not be readable. -/
def fromDebianVersion (text : Option String) : OsRelease :=
  let version := text.map strip
  withManager machine (release .debian "debian" version
    (some (match orNone version with
      | some version => "Debian " ++ version
      | none => "Debian")))

/-- What is returned of `SuSE-release`. -/
def fromSuseRelease : OsRelease :=
  withManager machine
    (release .suse "suse" none (some "SUSE Linux (legacy /etc/SuSE-release)"))

/-- What is returned of a tree without a release file. -/
def unknownRelease : OsRelease :=
  if machine.offline then
    { release .unknown "unknown" none none with
      reason := some ("offline --root scan: the tree has no /etc/os-release, " ++
        "/usr/lib/os-release, /etc/openwrt_release, /etc/buildinfo or " ++
        "legacy release file, so its OS is not identified") }
  else release .unknown "unknown" none (some (strip machine.kernel))

/-- What is returned of a Mac. -/
def macRelease (version : String) : OsRelease :=
  { release .macos "macos" (orNone (some version))
      (some (if version = "" then "macOS" else strip ("macOS " ++ version))) with
    packageManager := if machine.hasTool "brew" then some "brew" else none }

/-- `_detect_os_impl` of a Linux host or a tree. -/
def detectReleaseFiles : Except Failure OsRelease := do
  match ← readOsRelease files with
  | some text => return withManager machine (parseOsRelease chars text)
  | none =>
  match fromDistroFiles chars files with
  | some found => return withManager machine found
  | none =>
  match ← readText (files .redhatRelease) with
  | some text => fromRedhatRelease chars machine text
  | none =>
  if (files .debianVersion).exists then
    return fromDebianVersion machine (← readText (files .debianVersion))
  else if (files .suseRelease).exists then return fromSuseRelease machine
  else return unknownRelease machine

/-- `_detect_os_impl`. -/
def detectOsImpl : Except Failure OsRelease :=
  match machine.mac, machine.offline with
  | some version, false => .ok (macRelease machine version)
  | _, _ => detectReleaseFiles chars machine files

/-- `out.update(note)`. -/
def annotate (out : OsRelease) : OsRelease :=
  match machine.note with
  | none => out
  | some reason => { out with unavailableInContainer := true, reason := some reason }

/-- `detect_os`. -/
def detectOs : Except Failure OsRelease :=
  (detectOsImpl chars machine files).map (annotate machine)

end Detect

/-! ## The file that is taken -/

/-- The release files in the order of the identification. -/
def releaseFiles : List ReleaseFile :=
  [.osRelease, .usrLibOsRelease, .openwrtRelease, .buildinfo, .redhatRelease, .debianVersion,
    .suseRelease]

/-- `debian_version` and `SuSE-release` need only exist, `buildinfo` must name a distribution, and
the others must be readable. -/
def offers (content : Content) : ReleaseFile → Bool
  | .debianVersion => content.exists
  | .suseRelease => content.exists
  | .buildinfo => ((readBuildinfo content).get? "DISTRO").isSome
  | _ => content.isReadable

/-- The first file that offers something. -/
def firstOffer (files : ReleaseFiles) : Option ReleaseFile :=
  releaseFiles.find? fun file => offers (files file) file

/-- The files of which all but one are absent. -/
def onlyFile (file : Option ReleaseFile) (files : ReleaseFiles) : ReleaseFiles := fun other =>
  if file = some other then files other else .absent

section Identify

variable (chars : CharData) (machine : ScanMachine)

/-- What a file that offers something identifies. -/
def identify (content : Content) : ReleaseFile → Except Failure OsRelease
  | .openwrtRelease =>
      .ok (withManager machine (fromOpenwrtRelease chars ((readTreeText content).getD "")))
  | .buildinfo => .ok (withManager machine ((fromBuildinfo chars content).getD
      (unknownRelease machine)))
  | .redhatRelease => do fromRedhatRelease chars machine ((← readText content).getD "")
  | .debianVersion => return fromDebianVersion machine (← readText content)
  | .suseRelease => .ok (fromSuseRelease machine)
  | _ => return withManager machine (parseOsRelease chars ((← readText content).getD ""))

variable {chars machine} {content : Content} {files : ReleaseFiles}

theorem readText_of_not_offers (hno : content.isReadable = false) :
    readText content = .ok none := by
  cases content with
  | absent => rfl
  | unreadable => rfl
  | data bytes => cases hno

theorem readText_of_offers (hoffers : content.isReadable = true) :
    readText content = .error .unicodeDecodeError ∨ ∃ text, readText content = .ok (some text) := by
  cases content with
  | absent => cases hoffers
  | unreadable => cases hoffers
  | data bytes =>
      rw [readText]
      cases decodeUtf8 bytes with
      | none => exact .inl rfl
      | some text => exact .inr ⟨_, rfl⟩

theorem collectKeys_value_ne (assignments : List (String × String))
    (hvalues : ∀ entry ∈ assignments, entry.2 ≠ "") :
    ∀ key value, (collectKeys assignments).get? key = some value → value ≠ "" := by
  have hfold : ∀ (assignments : List (String × String)) (keys : Dict String String),
      (∀ entry ∈ assignments, entry.2 ≠ "") →
      (∀ key value, keys.get? key = some value → value ≠ "") →
      ∀ key value, (assignments.foldl (fun keys entry => keys.update entry.1 fun _ => entry.2)
        keys).get? key = some value → value ≠ "" := by
    intro assignments
    induction assignments with
    | nil => exact fun keys _ hkeys => hkeys
    | cons entry rest ih =>
        intro keys hvalues hkeys
        obtain ⟨hentry, hrest⟩ := List.forall_mem_cons.mp hvalues
        refine ih _ hrest fun key value hget => ?_
        rw [Dict.get?_update] at hget
        split at hget
        · exact (Option.some.inj hget) ▸ hentry
        · exact hkeys key value hget
  exact hfold assignments Dict.empty hvalues (by rintro _ _ ⟨⟩)

/-- `read_buildinfo` keeps no empty value. -/
theorem readBuildinfo_value_ne {key value : String}
    (hget : (readBuildinfo content).get? key = some value) : value ≠ "" := by
  refine collectKeys_value_ne _ (fun entry hentry => ?_) key value hget
  obtain ⟨line, -, hline⟩ := List.mem_filterMap.mp hentry
  rw [buildinfoLine] at hline
  split at hline
  · cases hline
  · split at hline
    · next hkept => exact (Option.some.inj hline) ▸ hkept.2
    · cases hline

theorem fromBuildinfo_isSome :
    (fromBuildinfo chars content).isSome = ((readBuildinfo content).get? "DISTRO").isSome := by
  rw [fromBuildinfo]
  cases hget : (readBuildinfo content).get? "DISTRO" with
  | none => rfl
  | some distro =>
      have hkept : orNone (some distro) = some distro :=
        Option.filter_eq_some_iff.mpr ⟨rfl, by simp [readBuildinfo_value_ne hget]⟩
      rw [hkept]
      rfl

theorem readOsRelease_eq :
    readOsRelease files =
      if offers (files .osRelease) .osRelease then readText (files .osRelease)
      else readText (files .usrLibOsRelease) := by
  rw [readOsRelease]
  split
  · next hoffers =>
      rcases readText_of_offers hoffers with herror | ⟨text, hok⟩
      · rw [herror]
        rfl
      · rw [hok]
        rfl
  · next hno =>
      rw [readText_of_not_offers (eq_false_of_ne_true hno)]
      rfl

theorem fromDistroFiles_eq :
    fromDistroFiles chars files =
      if offers (files .openwrtRelease) .openwrtRelease then
        some (fromOpenwrtRelease chars ((readTreeText (files .openwrtRelease)).getD ""))
      else fromBuildinfo chars (files .buildinfo) := by
  rw [fromDistroFiles]
  cases files .openwrtRelease <;> rfl

/-- **The identification is that of the first file that offers something.** -/
theorem detectReleaseFiles_eq :
    detectReleaseFiles chars machine files =
      (firstOffer files).elim (.ok (unknownRelease machine)) fun file =>
        identify chars machine (files file) file := by
  rw [detectReleaseFiles, readOsRelease_eq, fromDistroFiles_eq, firstOffer, releaseFiles]
  cases hetc : offers (files .osRelease) .osRelease with
  | true =>
      rw [if_pos rfl]
      simp only [List.find?, hetc, Option.elim, identify]
      rcases readText_of_offers hetc with herror | ⟨text, hok⟩
      · rw [herror]
        rfl
      · rw [hok]
        rfl
  | false =>
  rw [if_neg Bool.false_ne_true]
  cases husr : offers (files .usrLibOsRelease) .usrLibOsRelease with
  | true =>
      simp only [List.find?, hetc, husr, Option.elim, identify]
      rcases readText_of_offers husr with herror | ⟨text, hok⟩
      · rw [herror]
        rfl
      · rw [hok]
        rfl
  | false =>
  rw [readText_of_not_offers husr]
  cases hopenwrt : offers (files .openwrtRelease) .openwrtRelease with
  | true =>
      rw [if_pos rfl]
      simp only [List.find?, hetc, husr, hopenwrt, Option.elim, identify]
      rfl
  | false =>
  rw [if_neg Bool.false_ne_true]
  have hbuild := @fromBuildinfo_isSome chars (files .buildinfo)
  cases hbuildinfo : offers (files .buildinfo) .buildinfo with
  | true =>
      simp only [List.find?, hetc, husr, hopenwrt, hbuildinfo, Option.elim, identify]
      obtain ⟨found, hfound⟩ := Option.isSome_iff_exists.mp (hbuild.trans hbuildinfo)
      rw [hfound]
      rfl
  | false =>
  have hnone : fromBuildinfo chars (files .buildinfo) = none :=
    Option.not_isSome_iff_eq_none.mp (ne_true_of_eq_false (hbuild.trans hbuildinfo))
  rw [hnone]
  cases hredhat : offers (files .redhatRelease) .redhatRelease with
  | true =>
      simp only [List.find?, hetc, husr, hopenwrt, hbuildinfo, hredhat, Option.elim, identify]
      rcases readText_of_offers hredhat with herror | ⟨text, hok⟩
      · rw [herror]
        rfl
      · rw [hok]
        rfl
  | false =>
  rw [readText_of_not_offers hredhat]
  cases hdebian : offers (files .debianVersion) .debianVersion with
  | true =>
      simp only [List.find?, hetc, husr, hopenwrt, hbuildinfo, hredhat, hdebian, Option.elim,
        identify]
      exact if_pos hdebian
  | false =>
  cases hsuse : offers (files .suseRelease) .suseRelease with
  | true =>
      simp only [List.find?, hetc, husr, hopenwrt, hbuildinfo, hredhat, hdebian, hsuse, Option.elim,
        identify]
      exact (if_neg (ne_true_of_eq_false hdebian)).trans (if_pos hsuse)
  | false =>
      simp only [List.find?, hetc, husr, hopenwrt, hbuildinfo, hredhat, hdebian, hsuse, Option.elim]
      exact (if_neg (ne_true_of_eq_false hdebian)).trans (if_neg (ne_true_of_eq_false hsuse))

end Identify

/-! ## When the identification gets through -/

/-- The content is UTF-8, if it can be read at all. -/
def Content.Decodes (content : Content) : Prop :=
  ∀ bytes, content = .data bytes → (decodeUtf8 bytes).isSome

/-- The file can be taken: what is decoded strictly is UTF-8, and `redhat-release` says the release
of something. -/
def Legible (content : Content) : ReleaseFile → Prop
  | .osRelease => content.Decodes
  | .usrLibOsRelease => content.Decodes
  | .redhatRelease => ∀ bytes, content = .data bytes → ∃ text, decodeUtf8 bytes = some text ∧
      (nameAndVersion [] (stripChars (universalNewlines text.toList))).isSome
  | .debianVersion => content.Decodes
  | _ => True

/-- `detect_os` returns a record with an identifier, which is that of the first file that offers
something. -/
def Identified (chars : CharData) (machine : ScanMachine) (files : ReleaseFiles) : Prop :=
  ∃ out, detectOs chars machine files = .ok out ∧ out.id ≠ "" ∧
    detectOs chars machine (onlyFile (firstOffer files) files) = .ok out

section Identified

variable {chars : CharData} {machine : ScanMachine} {content : Content} {files : ReleaseFiles}

theorem parseOsRelease_id_ne (chars : CharData) (text : String) :
    (parseOsRelease chars text).id ≠ "" := by
  rw [parseOsRelease]
  dsimp only
  split
  · decide
  · next hne => exact hne

theorem fromOpenwrtRelease_id_ne (text : String) : (fromOpenwrtRelease chars text).id ≠ "" := by
  rw [fromOpenwrtRelease]
  exact parseOsRelease_id_ne chars _

theorem fromBuildinfo_id_ne {out : OsRelease} (hout : fromBuildinfo chars content = some out) :
    out.id ≠ "" := by
  rw [fromBuildinfo] at hout
  dsimp only at hout
  split at hout
  · cases hout
  · rw [← Option.some.inj hout]
    exact parseOsRelease_id_ne chars _

/-- The name in `redhat-release` is not blank. -/
theorem word_of_nameAndVersion {first text name version : List Char}
    (hfirst : ∀ c ∈ first.head?, isSpace c = false)
    (htext : first = [] → ∀ c ∈ text.head?, isSpace c = false)
    (hname : nameAndVersion first text = some (name, version)) :
    ∃ c ∈ name, isSpace c = false := by
  induction text generalizing first with
  | nil => cases hname
  | cons c rest ih =>
      have hword : ∀ d ∈ (first ++ [c]).head?, isSpace d = false := by
        cases first with
        | nil => exact htext rfl
        | cons d first => exact hfirst
      rw [nameAndVersion] at hname
      split at hname
      · cases hname
      · split at hname
        · obtain ⟨rfl, -⟩ := Prod.mk.inj (Option.some.inj hname)
          cases first with
          | nil => exact ⟨c, List.mem_singleton_self c, hword c rfl⟩
          | cons d first => exact ⟨d, List.mem_cons_self, hword d rfl⟩
        · exact ih hword (fun hnil => absurd hnil (List.append_ne_nil_of_right_ne_nil _ (by simp)))
            hname

/-- `redhat-release` identifies a distribution if and only if it says the release of something. -/
theorem fromRedhatRelease_iff (hlower : ∀ s, words (chars.lower s) = [] ↔ words s = [])
    (text : String) :
    (∃ out, fromRedhatRelease chars machine text = .ok out ∧ out.id ≠ "") ↔
      (nameAndVersion [] (stripChars text.toList)).isSome := by
  have hwords : words (chars.lower ((parseRedhatRelease text).distro.getD "")) = [] ↔
      nameAndVersion [] (stripChars text.toList) = none := by
    rw [hlower, parseRedhatRelease]
    have hraw : (strip text).toList = stripChars text.toList := String.toList_ofList
    dsimp only
    rw [hraw]
    cases hname : nameAndVersion [] (stripChars text.toList) with
    | none =>
        have hempty : words "" = [] := by decide
        exact ⟨fun _ => rfl, fun _ => hempty⟩
    | some found =>
        obtain ⟨name, version⟩ := found
        have hhead : ∀ c ∈ (stripChars text.toList).head?, isSpace c = false := by
          intro c hc
          cases hstrip : stripChars text.toList with
          | nil => rw [hstrip] at hc; cases hc
          | cons d rest =>
              rw [hstrip] at hc
              obtain rfl := Option.some.inj hc
              exact isSpace_of_stripChars hstrip
        obtain ⟨c, hc, hspace⟩ := word_of_nameAndVersion (by simp) (fun _ => hhead) hname
        have hne : words (strip (String.ofList name)) ≠ [] := by
          rw [ne_eq, words_eq_nil_iff, strip, String.toList_ofList, String.toList_ofList]
          intro hall
          obtain ⟨left, right, heq, hleft, hright⟩ := eq_stripChars name
          rw [heq, List.mem_append, List.mem_append] at hc
          rcases hc with (hc | hc) | hc
          · exact absurd (hleft c hc) (by simp [hspace])
          · exact absurd (hall c hc) (by simp [hspace])
          · exact absurd (hright c hc) (by simp [hspace])
        exact ⟨fun hnil => absurd hnil hne, fun hnone => by cases hnone⟩
  rw [fromRedhatRelease]
  cases hlist : words (chars.lower ((parseRedhatRelease text).distro.getD "")) with
  | nil =>
      rw [hwords.mp hlist]
      exact ⟨by rintro ⟨_, ⟨⟩, -⟩, by rintro ⟨⟩⟩
  | cons word rest =>
      have hsome : nameAndVersion [] (stripChars text.toList) ≠ none := fun hnone =>
        List.cons_ne_nil word rest (hlist ▸ hwords.mpr hnone)
      refine ⟨fun _ => Option.isSome_iff_ne_none.mpr hsome, fun _ => ⟨_, rfl, ?_⟩⟩
      dsimp only [withManager, release]
      split
      · decide
      · next hne => exact hne

theorem readText_eq (content : Content) :
    (∃ text, readText content = .ok text) ↔ content.Decodes := by
  cases content with
  | absent => exact ⟨fun _ => by rintro _ ⟨⟩, fun _ => ⟨none, rfl⟩⟩
  | unreadable => exact ⟨fun _ => by rintro _ ⟨⟩, fun _ => ⟨none, rfl⟩⟩
  | data bytes =>
      have hdecodes : (Content.data bytes).Decodes ↔ (decodeUtf8 bytes).isSome :=
        ⟨fun h => h bytes rfl, by rintro h _ ⟨⟩; exact h⟩
      rw [hdecodes, readText]
      cases decodeUtf8 bytes with
      | none => exact ⟨by rintro ⟨_, ⟨⟩⟩, by rintro ⟨⟩⟩
      | some text => exact ⟨fun _ => rfl, fun _ => ⟨_, rfl⟩⟩

/-- A record made of a strictly decoded text is there if and only if the text is. -/
theorem read_iff {make : Option String → OsRelease} (hmake : ∀ text, (make text).id ≠ "") :
    (∃ out, (do return make (← readText content)) = Except.ok (ε := Failure) out ∧ out.id ≠ "") ↔
      content.Decodes := by
  rw [← readText_eq]
  cases readText content with
  | error failure => exact ⟨by rintro ⟨_, ⟨⟩, -⟩, by rintro ⟨_, ⟨⟩⟩⟩
  | ok text => exact ⟨fun _ => ⟨text, rfl⟩, fun _ => ⟨make text, rfl, hmake text⟩⟩

theorem exists_ok {found : OsRelease} (hid : found.id ≠ "") :
    ∃ out, Except.ok (ε := Failure) (withManager machine found) = .ok out ∧ out.id ≠ "" :=
  ⟨withManager machine found, rfl, hid⟩

theorem identify_iff (hlower : ∀ s, words (chars.lower s) = [] ↔ words s = [])
    {file : ReleaseFile} (hoffers : offers content file) :
    (∃ out, identify chars machine content file = .ok out ∧ out.id ≠ "") ↔
      Legible content file := by
  have hparsed : ∀ text, (withManager machine (parseOsRelease chars text)).id ≠ "" :=
    parseOsRelease_id_ne chars
  cases file with
  | osRelease => exact read_iff fun text => hparsed (text.getD "")
  | usrLibOsRelease => exact read_iff fun text => hparsed (text.getD "")
  | openwrtRelease =>
      refine ⟨fun _ => trivial, fun _ => ?_⟩
      rw [identify]
      exact exists_ok (fromOpenwrtRelease_id_ne _)
  | buildinfo =>
      refine ⟨fun _ => trivial, fun _ => ?_⟩
      have hsome := (@fromBuildinfo_isSome chars content).trans hoffers
      obtain ⟨found, hfound⟩ := Option.isSome_iff_exists.mp hsome
      rw [identify, hfound, Option.getD_some]
      exact exists_ok (fromBuildinfo_id_ne hfound)
  | redhatRelease =>
      cases content with
      | absent => cases hoffers
      | unreadable => cases hoffers
      | data bytes =>
          have hlegible : Legible (.data bytes) .redhatRelease ↔
              ∃ text, decodeUtf8 bytes = some text ∧
                (nameAndVersion [] (stripChars (universalNewlines text.toList))).isSome :=
            ⟨fun h => h bytes rfl, by rintro h _ ⟨⟩; exact h⟩
          rw [hlegible, identify, readText]
          cases decodeUtf8 bytes with
          | none => exact ⟨by rintro ⟨_, ⟨⟩, -⟩, by rintro ⟨_, ⟨⟩, -⟩⟩
          | some text =>
              have hiff := @fromRedhatRelease_iff chars machine hlower
                (String.ofList (universalNewlines text.toList))
              rw [String.toList_ofList] at hiff
              refine hiff.trans ⟨fun h => ⟨text, rfl, h⟩, ?_⟩
              rintro ⟨other, hother, h⟩
              exact Option.some.inj hother ▸ h
  | debianVersion =>
      have hid : "debian" ≠ "" := by decide
      exact read_iff fun text => hid
  | suseRelease =>
      have hid : "suse" ≠ "" := by decide
      exact ⟨fun _ => trivial, fun _ => ⟨_, rfl, hid⟩⟩

/-- The file that is taken is taken when it is the only one. -/
theorem firstOffer_onlyFile {file : ReleaseFile} (hfirst : firstOffer files = some file) :
    firstOffer (onlyFile (some file) files) = some file := by
  have hoffers : offers (files file) file = true := by
    rw [firstOffer] at hfirst
    exact List.find?_some (p := fun file => offers (files file) file) hfirst
  have hown : onlyFile (some file) files file = files file := if_pos rfl
  have hothers : ∀ other, file ≠ other →
      offers (onlyFile (some file) files other) other = false := by
    intro other hne
    rw [onlyFile, if_neg (fun h => hne (Option.some.inj h))]
    cases other <;> rfl
  cases file <;>
    simp only [firstOffer, releaseFiles, List.find?, hown, hoffers, hothers, ne_eq, reduceCtorEq,
      not_false_eq_true]

theorem detectOsImpl_of_linux (hlinux : machine.mac = none ∨ machine.offline) :
    detectOsImpl chars machine files = detectReleaseFiles chars machine files := by
  rw [detectOsImpl]
  rcases hlinux with hmac | hoffline
  · rw [hmac]
  · rw [hoffline]
    cases machine.mac <;> rfl

theorem annotate_id (out : OsRelease) : (annotate machine out).id = out.id := by
  rw [annotate]
  split <;> rfl

theorem unknownRelease_id : (unknownRelease machine).id = "unknown" := by
  rw [unknownRelease]
  split <;> rfl

/-- **The identification gets through if and only if the file that it takes is legible.** -/
theorem identified_iff (hlower : ∀ s, words (chars.lower s) = [] ↔ words s = [])
    (hlinux : machine.mac = none ∨ machine.offline) :
    Identified chars machine files ↔
      ∀ file, firstOffer files = some file → Legible (files file) file := by
  have hdetect : ∀ {files : ReleaseFiles}, detectOs chars machine files =
      ((firstOffer files).elim (.ok (unknownRelease machine)) fun file =>
        identify chars machine (files file) file).map (annotate machine) := by
    intro files
    rw [detectOs, detectOsImpl_of_linux hlinux, detectReleaseFiles_eq]
  rw [Identified, hdetect]
  cases hfirst : firstOffer files with
  | none =>
      have hnone : firstOffer (onlyFile none files) = none := rfl
      rw [hdetect, hnone]
      refine ⟨fun _ => by rintro _ ⟨⟩, fun _ => ⟨_, rfl, ?_, rfl⟩⟩
      rw [annotate_id, unknownRelease_id]
      decide
  | some file =>
      have hown : onlyFile (some file) files file = files file := if_pos rfl
      rw [hdetect, firstOffer_onlyFile hfirst, Option.elim, Option.elim, hown]
      have hoffers : offers (files file) file = true := by
        rw [firstOffer] at hfirst
        exact List.find?_some (p := fun file => offers (files file) file) hfirst
      have hiff := @identify_iff chars machine (files file) hlower file hoffers
      constructor
      · rintro ⟨out, hout, hid, -⟩ other hother
        obtain rfl := Option.some.inj hother
        refine hiff.mp ?_
        cases hfound : identify chars machine (files file) file with
        | error failure => rw [hfound] at hout; cases hout
        | ok found =>
            rw [hfound] at hout
            obtain rfl := Except.ok.inj hout
            exact ⟨found, rfl, by rwa [annotate_id] at hid⟩
      · intro hlegible
        obtain ⟨found, hfound, hid⟩ := hiff.mpr (hlegible file rfl)
        rw [hfound]
        exact ⟨_, rfl, by rwa [annotate_id], rfl⟩

/-- The release files of a tree that has one of them. -/
def treeWith (file : ReleaseFile) (bytes : Bytes) : ReleaseFiles := fun other =>
  if other = file then .data bytes else .absent

/-- A scan of a tree, without any tool in it. -/
def treeScan : ScanMachine := ⟨true, none, fun _ => false, "Linux 6.12", none⟩

theorem identified_fedora :
    Identified ⟨id, Char.isAlphanum⟩ treeScan
      (treeWith .redhatRelease (encodeAscii "fedora release 44 (forty four)
")) := by
  refine (identified_iff (fun _ => Iff.rfl) (.inl rfl)).mpr fun file hfile => ?_
  have hfirst : firstOffer (treeWith .redhatRelease
      (encodeAscii "fedora release 44 (forty four)
")) = some .redhatRelease := by
    decide +kernel
  obtain rfl := Option.some.inj (hfirst.symm.trans hfile)
  rintro _ ⟨⟩
  have hfound : ((decodeUtf8 (encodeAscii "fedora release 44 (forty four)
")).filter fun text =>
      (nameAndVersion [] (stripChars (universalNewlines text.toList))).isSome).isSome = true := by
    decide +kernel
  obtain ⟨text, htext⟩ := Option.isSome_iff_exists.mp hfound
  exact ⟨text, Option.filter_eq_some_iff.mp htext⟩

/-- A name in Latin-1, and a `redhat-release` that is empty. -/
theorem not_identified_latin1_empty :
    ¬ Identified ⟨id, Char.isAlphanum⟩ treeScan
        (treeWith .osRelease (encodeAscii "NAME=Guaran" ++ [0xED])) ∧
      ¬ Identified ⟨id, Char.isAlphanum⟩ treeScan (treeWith .redhatRelease []) := by
  have hlatin1 : detectOs ⟨id, Char.isAlphanum⟩ treeScan
      (treeWith .osRelease (encodeAscii "NAME=Guaran" ++ [0xED])) =
        .error .unicodeDecodeError := by
    decide +kernel
  have hempty : detectOs ⟨id, Char.isAlphanum⟩ treeScan (treeWith .redhatRelease []) =
      .error .indexError := by
    decide +kernel
  constructor
  · rintro ⟨out, hout, -⟩
    rw [hlatin1] at hout
    cases hout
  · rintro ⟨out, hout, -⟩
    rw [hempty] at hout
    cases hout

end Identified

end PqcReadiness.Platform
