import PqcReadiness.Config.Endpoint
import PqcReadiness.Config.Sshd

/-!
# The configuration of OpenSSL

`parse_openssl_cnf` with the files that a configuration includes, and the two readers of the
sections: `effective_settings` of `config_openssl.py` and `parse_crypto_config_openssl` of
`config_policy.py`.

The files are those that the arguments `read` and `list_dir` show (`CnfHost`).
-/

namespace PqcReadiness.Config

open PqcReadiness.Lib

/-! ## Lines -/

/-- `s.rstrip()`. -/
def rstripSpace (s : Chars) : Chars := (s.reverse.dropWhile isSpace).reverse

/-- `_strip_comment`. -/
def stripComment : Chars → Chars
  | '\\' :: c :: rest => c :: stripComment rest
  | '#' :: _ => []
  | c :: rest => c :: stripComment rest
  | [] => []

/-- `^\s*\.include\s*=?\s*(\S.*?)\s*$`.  An equals sign with nothing behind it is the target. -/
def includeTarget (line : Chars) : Option Chars :=
  let s := line.dropWhile isSpace
  if ".include".toList.isPrefixOf s then
    match (s.drop ".include".length).dropWhile isSpace with
    | [] => none
    | '=' :: value =>
        let target := value.dropWhile isSpace
        some (if target = [] then ['='] else rstripSpace target)
    | target => some (rstripSpace target)
  else none

/-- `^\s*\[\s*([^\]]+?)\s*\]\s*$`.  A name of spaces is the last of them. -/
def headerName (line : Chars) : Option Chars :=
  match stripChars line with
  | '[' :: rest =>
      let inner := rest.takeWhile (· ≠ ']')
      if inner = [] ∨ rest.dropWhile (· ≠ ']') ≠ [']'] then none
      else if stripChars inner = [] then some (inner.drop (inner.length - 1))
      else some (stripChars inner)
  | _ => none

/-- A value without the quotes around it. -/
def unquote (value : Chars) : Chars :=
  match value.head? with
  | some quote =>
      if 2 ≤ value.length ∧ value.getLast? = some quote ∧ (quote = '"' ∨ quote = '\'') then
        (value.drop 1).dropLast
      else value
  | none => value

/-- `^\s*([^=#\s][^=]*?)\s*=\s*(.*?)\s*$`, with the value unquoted. -/
def settingOf (line : Chars) : Option (Chars × Chars) :=
  let s := line.dropWhile isSpace
  let key := rstripSpace (s.takeWhile (· ≠ '='))
  if key = [] ∨ key.head? = some '#' then none
  else
    match s.dropWhile (· ≠ '=') with
    | '=' :: value => some (key, unquote (stripChars value))
    | _ => none

/-- What a line says. -/
inductive CnfLine where
  | skipped
  | include (target : Chars)
  | header (name : Chars)
  | setting (key value : Chars)
  deriving DecidableEq

/-- One line of a file, in the order in which the patterns are tried. -/
def cnfLine (raw : Chars) : CnfLine :=
  let line := rstripSpace (stripComment raw)
  if line = [] ∨ ".pragma".toList.isPrefixOf (line.dropWhile isSpace) then .skipped
  else
    match includeTarget line with
    | some target => .include target
    | none =>
        match headerName line with
        | some name => .header name
        | none =>
            match settingOf line with
            | some (key, value) => .setting key value
            | none => .skipped

/-! ## Sections -/

/-- Sections by their names, with values by their keys. -/
abbrev CnfSections := Dict Chars (Dict Chars Chars)

/-- The sections so far, and the current one. -/
structure CnfMap where
  sections : CnfSections := .empty
  current : Chars := "default".toList

/-- What a line that includes nothing does. -/
def CnfMap.read (map : CnfMap) : CnfLine → CnfMap
  | .header name =>
      { sections := map.sections.update name fun old => old.getD .empty, current := name }
  | .setting key value =>
      { map with sections := map.sections.update map.current fun old =>
          (old.getD .empty).update key fun _ => value }
  | .skipped | .include _ => map

/-! ## Files -/

/-- `list_dir` and `read`. -/
structure CnfHost where
  listDir : String → Except Unreadable (Option (List String))
  read : String → Except Unreadable (Option Chars)

/-- `os.path.dirname(path)`. -/
def dirname (path : String) : String :=
  let head := (path.toList.reverse.dropWhile (· ≠ '/')).reverse
  if head.all (· == '/') then String.ofList head else rstripChar '/' (String.ofList head)

/-- The path that a file includes: relative to the directory of the file. -/
def resolveInclude (path : String) (target : Chars) : String :=
  if target.head? = some '/' then String.ofList target
  else
    let dir := dirname path
    normpath (if dir = "" ∨ endsWith "/" dir then dir ++ String.ofList target
      else dir ++ "/" ++ String.ofList target)

/-- The files that an included directory stands for. -/
def configEntries (path : String) (entries : List String) : List String :=
  ((sortedBy id entries).filter fun name => endsWith ".cnf" name || endsWith ".conf" name).map
    fun name => rstripChar '/' path ++ "/" ++ name

/-- `_MAX_INCLUDE_DEPTH`. -/
def opensslMaxIncludeDepth : ℕ := 8

/-- What has been read. -/
structure CnfState where
  map : CnfMap := {}
  files : List String := []
  errors : List String := []
  unreadable : List Unreadable := []
  seen : List String := []

/-- `errors.append(p)`. -/
def CnfState.error (state : CnfState) (path : String) : CnfState :=
  { state with errors := state.errors ++ [path] }

/-- The path is there and cannot be read. -/
def CnfState.blocked (state : CnfState) (path : String) (fault : Unreadable) : CnfState :=
  { state.error path with unreadable := state.unreadable ++ [fault] }

/-- `load`, where so many levels are left: none are at a depth over `_MAX_INCLUDE_DEPTH`. -/
def load (host : CnfHost) : ℕ → String → CnfState → CnfState
  | 0, path, state => state.error path
  | left + 1, path, state =>
      if path ∈ state.seen then state.error path
      else
        let state := { state with seen := state.seen ++ [path] }
        match host.listDir path with
        | .error fault => state.blocked path fault
        | .ok (some entries) =>
            (configEntries path entries).foldl (fun state entry => load host left entry state) state
        | .ok none =>
            match host.read path with
            | .error fault => state.blocked path fault
            | .ok none => state.error path
            | .ok (some text) =>
                (splitLinesChars text).foldl
                  (fun state raw =>
                    match cnfLine raw with
                    | .include target => load host left (resolveInclude path target) state
                    | line => { state with map := state.map.read line })
                  { state with files := state.files ++ [path] }

/-- What `parse_openssl_cnf` returns. -/
structure ParsedCnf where
  sections : CnfSections
  files : List String
  includeErrors : List String
  unreadable : List Unreadable

/-- `parse_openssl_cnf`. -/
def parseOpensslCnf (host : CnfHost) (path : String) : ParsedCnf :=
  let state := load host (opensslMaxIncludeDepth + 1) path {}
  ⟨state.map.sections, state.files, state.errors, state.unreadable⟩

/-! ## Settings -/

/-- `_section_value`.  No letter outside ASCII has a lower case that makes a key one of those that
are looked for. -/
def sectionValue (sections : CnfSections) (name : Option Chars) (key : Chars) : Option Chars :=
  match name with
  | none => none
  | some name =>
      if name = [] then none
      else
        (((sections.get? name).getD .empty).entries.find? fun entry =>
          lowerAscii entry.1 = lowerAscii key).map Prod.snd

/-- `BUILTIN_PROVIDERS`. -/
def builtinProviders : List Chars :=
  ["default".toList, "base".toList, "fips".toList, "legacy".toList, "null".toList]

/-- An entry of `providers_configured`. -/
structure ConfiguredProvider where
  name : Chars
  sectionName : Chars
  activate : Option Bool
  module : Option Chars
  thirdParty : Bool
  deriving DecidableEq

/-- What `effective_settings` returns. -/
structure EffectiveSettings where
  initSection : Option Chars
  systemDefaultSection : Option Chars
  providersConfigured : List ConfiguredProvider
  minProtocol : Option Chars
  groupsConfigured : Option (List Chars)
  signatureAlgorithmsConfigured : Option (List Chars)
  deriving DecidableEq

/-- `names or None`. -/
def namesOrNone (names : List Chars) : Option (List Chars) := if names = [] then none else some names

/-- The provider of an entry. -/
def configuredProvider (sections : CnfSections) (entry : Chars × Chars) : ConfiguredProvider where
  name := entry.1
  sectionName := entry.2
  activate := (sectionValue sections (some entry.2) "activate".toList).map fun value =>
    let word := lowerAscii (stripChars value)
    word = "1".toList || word = "yes".toList || word = "true".toList || word = "on".toList
  module := ((sections.get? entry.2).getD .empty).get? "module".toList
  thirdParty := !builtinProviders.contains entry.1

/-- The lines `key = value` of a section. -/
def settingLines (body : Dict Chars Chars) : Chars :=
  List.intercalate ['\n'] (body.entries.map fun entry => entry.1 ++ " = ".toList ++ entry.2)

/-- `effective_settings`. -/
def effectiveSettings (sections : CnfSections) : EffectiveSettings :=
  let init := sectionValue sections (some "default".toList) "openssl_conf".toList
  let providersSect := sectionValue sections init "providers".toList
  let sslSect := sectionValue sections init "ssl_conf".toList
  let sysdef := sectionValue sections sslSect "system_default".toList
  let tls := parseOpensslcnfBackend
    (settingLines ((sections.get? (sysdef.getD [])).getD .empty))
  { initSection := init
    systemDefaultSection := sysdef
    providersConfigured :=
      ((sections.get? (providersSect.getD [])).getD .empty).entries.map
        (configuredProvider sections)
    minProtocol := sectionValue sections sysdef "MinProtocol".toList
    groupsConfigured := namesOrNone tls.groups
    signatureAlgorithmsConfigured := namesOrNone tls.signatureAlgorithms }

/-! ## Settings of a crypto-config profile -/

/-- `_OPENSSL_PROFILE_KEYS`. -/
def opensslProfileKeys : List Chars :=
  ["MinProtocol".toList, "MaxProtocol".toList, "CipherString".toList, "Ciphersuites".toList,
    "Groups".toList, "Curves".toList, "SignatureAlgorithms".toList]

/-- `wanted.get(k.lower())`. -/
def canonKey (key : Chars) : Option Chars :=
  opensslProfileKeys.find? fun name => lowerAscii name = lowerAscii key

/-- The first value of every key, over all sections. -/
def profileSettings (sections : CnfSections) : Dict Chars Chars :=
  Dict.empty.collect (fun entry => canonKey entry.1) (fun old entry => old.getD entry.2)
    (sections.values.flatMap Dict.entries)

/-- `re.search(r"@SECLEVEL=(\d)", text)`, as a number. -/
def secLevel : Chars → Option ℕ
  | [] => none
  | c :: rest =>
      match "@SECLEVEL=".toList.isPrefixOf (c :: rest), (rest.drop 9).head?.bind digitValue with
      | true, some digit => some digit
      | _, _ => secLevel rest

/-- The separators of a list: `[:,\s]`. -/
def isListSep (c : Char) : Bool := c = ':' || c = ',' || isSpace c

/-- What `parse_crypto_config_openssl` returns. -/
structure ProfileOpenssl where
  settings : Dict Chars Chars
  seclevel : Option ℕ
  groupsConfigured : Option (List Chars)
  pqcGroups : Option PqcNames

/-- `settings.get("Groups") or settings.get("Curves")`, where nothing is the empty text. -/
def groupsText (settings : Dict Chars Chars) : Chars :=
  let groups := (settings.get? "Groups".toList).getD []
  if groups ≠ [] then groups else (settings.get? "Curves".toList).getD []

/-- `parse_crypto_config_openssl`. -/
def parseCryptoConfigOpenssl (sections : CnfSections) : ProfileOpenssl :=
  let settings := profileSettings sections
  let groups := (splitWhere isListSep (groupsText settings)).filter (· ≠ [])
  { settings := settings
    seclevel := secLevel ((settings.get? "CipherString".toList).getD [])
    groupsConfigured := namesOrNone groups
    pqcGroups := if groups = [] then none else some (classifyGroups groups) }

end PqcReadiness.Config
