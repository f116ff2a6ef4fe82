import PqcReadiness.Config.NginxServers

/-!
# The virtual hosts of Apache

`parse_apache`: the lines of a file in a row with those of the files that it includes, and one pass
over these, which keeps the settings outside of virtual hosts and those of the host that it is in,
and puts them together where a host ends.

The keys that it compares are ASCII and have no `k`, so that lower case is that of ASCII.
-/

namespace PqcReadiness.Config

open PqcReadiness.Lib
open Nginx (NginxHost expandPattern resolvePattern nginxMaxIncludeDepth)

/-! ## Lines -/

/-- `s.split(None, 1)`: the first word, and what follows it, if anything does. -/
def splitWord (s : Chars) : Chars × Chars :=
  let text := s.dropWhile isSpace
  (text.takeWhile (!isSpace ·), (text.dropWhile (!isSpace ·)).dropWhile isSpace)

/-- `parts[0].lower()`. -/
def apacheKey (line : Chars) : Chars := lowerAscii (splitWord line).1

/-- `arg`. -/
def apacheArg (line : Chars) : Chars := stripChars (splitWord line).2

/-- What `_apache_lines` has read. -/
structure ApacheBuffer where
  out : List (ℕ × Chars) := []
  buf : Chars := []
  start : ℕ := 0

/-- One line of a text, with its number. -/
def apacheBufferLine (state : ApacheBuffer) (raw : ℕ × Chars) : ApacheBuffer :=
  let line := rstripSpace raw.2
  let start := if state.buf = [] then raw.1 else state.start
  if line.getLast? = some '\\' then
    { state with buf := state.buf ++ line.dropLast ++ [' '], start := start }
  else
    let full := stripChars (state.buf ++ line)
    { out := if full ≠ [] ∧ full.head? ≠ some '#' then state.out ++ [(start, full)] else state.out
      buf := []
      start := start }

/-- `_apache_lines`. -/
def apacheLines (text : Chars) : List (ℕ × Chars) :=
  let lines := splitLinesChars text
  (((List.range' 1 lines.length).zip lines).foldl apacheBufferLine {}).out

/-! ## Files -/

/-- An element of `flat`. -/
structure ApacheEntry where
  path : String
  lineNo : ℕ
  line : Chars

/-- What `load` has read. -/
structure ApacheFiles where
  files : List String := []
  unreadable : List Unreadable := []
  serverRoot : String
  flat : List ApacheEntry := []

/-- One line of a file, with how the files it includes are loaded, if that is not too deep. -/
def apacheLoadLine (host : NginxHost)
    (below : Option (Bool → ApacheFiles → String → ApacheFiles)) (path : String)
    (state : ApacheFiles) (line : ℕ × Chars) : ApacheFiles :=
  let key := apacheKey line.2
  let arg := (splitWord line.2).2
  let state :=
    if key = "serverroot".toList then { state with serverRoot := String.ofList (stripQuotes arg) }
    else state
  match below with
  | some load =>
      if key = "include".toList ∨ key = "includeoptional".toList then
        (expandPattern host (resolvePattern state.serverRoot arg)).foldl
          (load (key = "includeoptional".toList)) state
      else { state with flat := state.flat ++ [⟨path, line.1, line.2⟩] }
  | none => { state with flat := state.flat ++ [⟨path, line.1, line.2⟩] }

/-- `load`, where so many levels of includes are left. -/
def loadApache (host : NginxHost) : ℕ → Bool → ApacheFiles → String → ApacheFiles
  | left, optional, state, path =>
      match host.reader path with
      | none =>
          if optional then state
          else
            { state with
              unreadable := state.unreadable ++ [⟨path, "missing or not readable"⟩] }
      | some text =>
          let below :=
            match left with
            | 0 => none
            | left + 1 => some (loadApache host left)
          (apacheLines text).foldl (apacheLoadLine host below path)
            { state with files := state.files ++ [path] }

/-! ## Settings -/

/-- `globals_`, or the settings of a virtual host. -/
structure ApacheSettings where
  engine : Option Chars := none
  protocol : Option Chars := none
  ciphers : Option Chars := none
  cert : Option Chars := none
  confcmd : Dict Chars Chars := .empty

namespace ApacheSettings

/-- `conf_cmd`. -/
def confCmd (st : ApacheSettings) (arg : Chars) : ApacheSettings :=
  let (command, value) := splitWord arg
  if value = [] then st
  else
    { st with
      confcmd := st.confcmd.update (lowerAscii command) fun _ => stripQuotes (stripChars value) }

/-- A line in a virtual host or outside of all: `_APACHE_SSL` and `SSLOpenSSLConfCmd`. -/
def readLine (st : ApacheSettings) (line : Chars) : ApacheSettings :=
  let key := apacheKey line
  let arg := apacheArg line
  if key = "sslopensslconfcmd".toList then st.confCmd arg
  else if key = "sslengine".toList then { st with engine := some (stripQuotes arg) }
  else if key = "sslprotocol".toList then { st with protocol := some (stripQuotes arg) }
  else if key = "sslciphersuite".toList then { st with ciphers := some (stripQuotes arg) }
  else if key = "sslcertificatefile".toList then { st with cert := some (stripQuotes arg) }
  else st

/-- `{**globals_, **vhost}`. -/
def overriding (own globals : ApacheSettings) : ApacheSettings where
  engine := own.engine.or globals.engine
  protocol := own.protocol.or globals.protocol
  ciphers := own.ciphers.or globals.ciphers
  cert := own.cert.or globals.cert
  confcmd := own.confcmd.override globals.confcmd

end ApacheSettings

/-! ## Virtual hosts -/

/-- `vhost`. -/
structure VirtualHost where
  file : String
  line : ℕ
  addrs : List Chars
  settings : ApacheSettings := {}

/-- `gv` and `setting`. -/
def apacheGroups (cmds : Dict Chars Chars) : Option Chars × Option String :=
  match cmds.get? "groups".toList, cmds.get? "curves".toList with
  | some groups, _ => (some groups, some "SSLOpenSSLConfCmd Groups")
  | none, some curves => (some curves, some "SSLOpenSSLConfCmd Curves")
  | none, none =>
      ((cmds.get? "ecdhparameters".toList),
        (cmds.get? "ecdhparameters".toList).map fun _ => "SSLOpenSSLConfCmd ECDHParameters")

/-- `str(st.get("engine", "")).lower() == "on"`. -/
def engineOn (engine : Option Chars) : Bool := lowerAscii (engine.getD []) = "on".toList

/-- The settings of the endpoint of a host. -/
def hostSettings (file : String) (line : Option ℕ) (addrs : List Chars) (st : ApacheSettings) :
    EndpointSettings :=
  let ports := addrs.filterMap portOf
  let groups := splitGroups (apacheGroups st.confcmd).1
  { file := file
    line := line
    ports := if ports = [] then [443] else ports
    context := some ("VirtualHost " ++ join " " (addrs.map String.ofList))
    groups := groups
    groupsSetting := if groups.isSome then (apacheGroups st.confcmd).2 else none
    protocols := (truthy st.protocol).map apacheProtocols
    minProtocol := st.confcmd.get? "minprotocol".toList
    maxProtocol := st.confcmd.get? "maxprotocol".toList
    ciphers := st.ciphers.map String.ofList
    ciphersuites := (st.confcmd.get? "ciphersuites".toList).map String.ofList
    certificates := ((truthy st.cert).map String.ofList).toList }

/-- The endpoint of a host, if its engine is on. -/
def hostEndpoints (globals : ApacheSettings) (host : VirtualHost) : List Endpoint :=
  let st := host.settings.overriding globals
  if engineOn st.engine then [makeEndpoint (hostSettings host.file (some host.line) host.addrs st)]
  else []

/-- What the pass over `flat` has read. -/
structure ApacheState where
  globals : ApacheSettings := {}
  vhost : Option VirtualHost := none
  endpoints : List Endpoint := []

/-- One element of `flat`. -/
def apacheStep (state : ApacheState) (entry : ApacheEntry) : ApacheState :=
  let key := apacheKey entry.line
  if key = "<virtualhost".toList then
    { state with
      vhost := some ⟨entry.path, entry.lineNo,
        wordsOf ((apacheArg entry.line).reverse.dropWhile (· = '>')).reverse, {}⟩ }
  else if key = "</virtualhost>".toList then
    { state with
      vhost := none
      endpoints := state.endpoints ++ (state.vhost.map (hostEndpoints state.globals)).getD [] }
  else
    match state.vhost with
    | some host =>
        { state with vhost := some { host with settings := host.settings.readLine entry.line } }
    | none => { state with globals := state.globals.readLine entry.line }

/-- `endpoints`. -/
def apacheEndpoints (flat : List ApacheEntry) : List Endpoint :=
  (flat.foldl apacheStep {}).endpoints

/-- What `parse_apache` returns. -/
structure ApacheConfig where
  files : List String
  unreadable : List Unreadable
  endpoints : List Endpoint

/-- `parse_apache`. -/
def parseApache (main serverRoot : String) (host : NginxHost) : ApacheConfig :=
  let loaded := loadApache host nginxMaxIncludeDepth false { serverRoot := serverRoot } main
  ⟨loaded.files, loaded.unreadable, apacheEndpoints loaded.flat⟩

end PqcReadiness.Config
