import PqcReadiness.Config.Nginx
import PqcReadiness.Config.Protocols
import PqcReadiness.Config.Openssl

/-!
# The servers of nginx

`parse_nginx`: the statements of a file with those of the files that it includes, the settings
that a block takes over from the blocks around it, and the endpoints of the servers with TLS.

The settings are kept as arguments of their directives.  An `ssl_conf_command` with less than two
arguments is kept as such where the others are kept in a map, and what expects the map raises.  A
file whose blocks are nested too deep raises when it is loaded.
-/

namespace PqcReadiness.Config.Nginx

open PqcReadiness.Lib

/-! ## Files -/

/-- A statement with the file in which it stands. -/
inductive NginxDirective where
  | simple (name : Chars) (args : List Chars) (line : ℕ) (file : String)
  | block (name : Chars) (args : List Chars) (line : ℕ) (file : String)
      (body : List NginxDirective)

namespace NginxDirective

def name : NginxDirective → Chars
  | simple name .. => name
  | block name .. => name

def args : NginxDirective → List Chars
  | simple _ args .. => args
  | block _ args .. => args

end NginxDirective

/-- What goes wrong: a `ValueError`, an `AttributeError` or a `RecursionError`. -/
inductive NginxFault where
  | valueError
  | attributeError
  | recursionError
  deriving DecidableEq

/-- `reader` and `lister`. -/
structure NginxHost where
  reader : String → Option Chars
  lister : String → List String

/-- The files that were read, and those that could not be. -/
structure NginxFiles where
  files : List String := []
  unreadable : List Unreadable := []

/-- `MAX_INCLUDE_DEPTH`. -/
def nginxMaxIncludeDepth : ℕ := 8

/-- `posixpath.join(base, path)`, for a path that is not absolute. -/
def joinRelative (base path : String) : String :=
  if base = "" ∨ endsWith "/" base then base ++ path else base ++ "/" ++ path

/-- `_resolve`. -/
def resolvePattern (base : String) (pattern : Chars) : String :=
  let pattern := String.ofList (stripQuotes (stripChars pattern))
  if startsWith "/" pattern then pattern else joinRelative base pattern

/-- `_expand`. -/
def expandPattern (host : NginxHost) (pattern : String) : List String :=
  if hasMagic pattern then sortedBy id (host.lister pattern) else [pattern]

/-- What a file comes to, or what it raises. -/
abbrev Loaded := Except NginxFault (List NginxDirective × NginxFiles)

/-- How an included file is loaded, if that is not too deep. -/
abbrev LoadBelow := Option (String → NginxFiles → Loaded)

/-- The files of an `include` directive, where it is one that is followed. -/
def includedFiles (host : NginxHost) (base : String) (name : Chars) (args : List Chars) :
    Option (List String) :=
  match args with
  | pattern :: _ =>
      if name = "include".toList then some (expandPattern host (resolvePattern base pattern))
      else none
  | [] => none

/-- Load some files, one behind the other. -/
def loadAll (load : String → NginxFiles → Loaded) (paths : List String) (files : NginxFiles) :
    Loaded :=
  paths.foldlM (fun result path => do
    let (loaded, files) ← load path result.2
    return (result.1 ++ loaded, files)) ([], files)

section Expand

variable (host : NginxHost) (base : String)

mutual

/-- `expand`, for one statement. -/
def expandStatement (below : LoadBelow) (path : String) (files : NginxFiles) :
    NginxStatement → Loaded
  | .simple name args line =>
      match below, includedFiles host base name args with
      | some load, some paths => loadAll load paths files
      | _, _ => return ([.simple name args line path], files)
  | .block name args line body =>
      match below, includedFiles host base name args with
      | some load, some paths => loadAll load paths files
      | _, _ => do
          let (inner, files) ← expandStatements below path files body
          return ([.block name args line path inner], files)

/-- `expand`. -/
def expandStatements (below : LoadBelow) (path : String) (files : NginxFiles) :
    List NginxStatement → Loaded
  | [] => return ([], files)
  | statement :: rest => do
      let (first, files) ← expandStatement below path files statement
      let (more, files) ← expandStatements below path files rest
      return (first ++ more, files)

end

/-- The statements of a file. -/
def fileStatements (frames : ℕ) (text : Chars) : Except NginxFault (List NginxStatement) :=
  match nginxStatements frames (nginxTokens text) with
  | .ok (statements, _) => .ok statements
  | .error _ => .error .recursionError

/-- `load`, where so many levels of includes are left. -/
def loadNginx (frames : ℕ) : ℕ → String → NginxFiles → Loaded
  | left, path, files =>
      match host.reader path with
      | none =>
          return ([], { files with
            unreadable := files.unreadable ++ [⟨path, "missing or not readable"⟩] })
      | some text => do
          let below : LoadBelow :=
            match left with
            | 0 => none
            | left + 1 => some (loadNginx frames left)
          let statements ← fileStatements frames text
          expandStatements host base below path { files with files := files.files ++ [path] }
            statements

end Expand

/-! ## Settings -/

/-- `st["ssl_conf_command"]`: a map of commands, or a directive with less than two arguments. -/
inductive ConfCommands where
  | commands (map : Dict Chars Chars)
  | short

/-- The settings that are inherited. -/
structure NginxSettings where
  protocols : Option (List Chars) := none
  ciphers : Option (List Chars) := none
  ecdhCurve : Option (List Chars) := none
  certificates : List Chars := []
  confCommand : ConfCommands := .commands .empty
  ssl : Option (List Chars) := none

/-- `cmds[args[0].lower()] = args[1]`, or a directive that replaces the map. -/
def ConfCommands.add (old : ConfCommands) (args : List Chars) : Except NginxFault ConfCommands :=
  match args with
  | key :: value :: _ =>
      match old with
      | .commands map => .ok (.commands (map.update (lowerAscii key) fun _ => value))
      | .short => .error .valueError
  | _ => .ok .short

/-- One directive of `settings_of`. -/
def applyDirective (st : NginxSettings) (d : NginxDirective) : Except NginxFault NginxSettings :=
  if d.name = "ssl_certificate".toList then
    .ok { st with certificates := st.certificates ++ d.args.take 1 }
  else if d.name = "ssl_conf_command".toList then
    (st.confCommand.add d.args).map fun commands => { st with confCommand := commands }
  else if d.name = "ssl_protocols".toList then .ok { st with protocols := some d.args }
  else if d.name = "ssl_ciphers".toList then .ok { st with ciphers := some d.args }
  else if d.name = "ssl_ecdh_curve".toList then .ok { st with ecdhCurve := some d.args }
  else if d.name = "ssl".toList then .ok { st with ssl := some d.args }
  else .ok st

/-- `settings_of`. -/
def settingsOf (stmts : List NginxDirective) (inherited : NginxSettings) :
    Except NginxFault NginxSettings :=
  stmts.foldlM applyDirective inherited

/-! ## Servers -/

/-- `legacy_ssl and legacy_ssl[0][:1] == ["on"]`. -/
def legacyOn (ssl : Option (List Chars)) : Bool := (ssl.getD []).take 1 = ["on".toList]

/-- The port of a `listen` directive, with the default one for a name or an address. -/
def listenPort (chars : CharData) (ctx addr : Chars) : Option ℕ :=
  match portOf addr with
  | some port => some port
  | none =>
      if addr ≠ [] ∧ (∀ c ∈ addr, chars.isWord c = true ∨ c ∈ ".-*[]:".toList) ∧
          ¬ (∃ c ∈ addr.getLast?, isDigit c = true) ∧ ctx = "http".toList then some 443
      else none

/-- The port that a directive of a server listens on with TLS. -/
def tlsPort (chars : CharData) (legacy : Bool) (ctx : Chars) (d : NginxDirective) : Option ℕ :=
  match d.args with
  | addr :: params =>
      if d.name = "listen".toList ∧
          ("ssl".toList ∈ params ∨ "quic".toList ∈ params ∨ legacy = true) then
        listenPort chars ctx addr
      else none
  | [] => none

/-- The value of the group setting, and the name of the setting. -/
def groupsValue (st : NginxSettings) (commands : Dict Chars Chars) : Option Chars × Option String :=
  match commands.get? "curves".toList, commands.get? "groups".toList with
  | some value, _ => (some value, some "ssl_conf_command Curves")
  | none, some value => (some value, some "ssl_conf_command Groups")
  | none, none => (st.ecdhCurve.bind List.head?, st.ecdhCurve.map fun _ => "ssl_ecdh_curve")

/-- `server`: the endpoint of a server with TLS ports. -/
def serverEndpoint (chars : CharData) (file : String) (line : ℕ) (body : List NginxDirective)
    (st : NginxSettings) (ctx : Chars) : Except NginxFault (List Endpoint) :=
  let ports := body.filterMap (tlsPort chars (legacyOn st.ssl) ctx)
  -- There is a port only if there is TLS.
  if ports = [] then .ok []
  else
    match st.confCommand with
    | .short => .error .attributeError
    | .commands map =>
        let (value, setting) := groupsValue st map
        .ok [makeEndpoint
          { file := file
            line := some line
            ports := ports
            context := some (String.ofList ctx ++ " server")
            groups := splitGroups value
            groupsSetting := if (splitGroups value).isSome then setting else none
            protocols := st.protocols
            ciphers := st.ciphers.map fun args => join " " (args.map String.ofList)
            ciphersuites := (map.get? "ciphersuites".toList).map String.ofList
            certificates := st.certificates.map String.ofList }]

/-- The contexts of servers. -/
def serverContexts : List Chars := ["http".toList, "stream".toList, "mail".toList]

section Walk

variable (chars : CharData)

mutual

/-- The blocks in a list of statements with these settings. -/
def walkBlocks (st : NginxSettings) (ctx : Chars) :
    List NginxDirective → Except NginxFault (List Endpoint)
  | [] => .ok []
  | d :: rest => do
      let first ← walkBlock st ctx d
      let more ← walkBlocks st ctx rest
      return first ++ more

/-- A statement, if it is a block. -/
def walkBlock (st : NginxSettings) (ctx : Chars) :
    NginxDirective → Except NginxFault (List Endpoint)
  | .simple .. => .ok []
  | .block name _ line file body =>
      if serverContexts.contains name then do
        let inner ← settingsOf body st
        walkBlocks inner name body
      else if name = "server".toList ∧ serverContexts.contains ctx = true then do
        let inner ← settingsOf body st
        serverEndpoint chars file line body inner ctx
      else .ok []

end

/-- `walk`. -/
def walk (stmts : List NginxDirective) (inherited : NginxSettings) (ctx : Chars) :
    Except NginxFault (List Endpoint) := do
  let st ← settingsOf stmts inherited
  walkBlocks chars st ctx stmts

/-- The endpoints of a statement tree. -/
def nginxEndpoints (tree : List NginxDirective) : Except NginxFault (List Endpoint) :=
  walk chars tree {} "main".toList

/-- What `parse_nginx` returns. -/
structure NginxConfig where
  files : List String
  unreadable : List Unreadable
  endpoints : List Endpoint

/-- `parse_nginx`. -/
def parseNginx (frames : ℕ) (host : NginxHost) (main : String) : Except NginxFault NginxConfig := do
  let (tree, files) ← loadNginx host (dirname main) frames nginxMaxIncludeDepth main {}
  let endpoints ← nginxEndpoints chars tree
  return ⟨files.files, files.unreadable, endpoints⟩

end Walk

end PqcReadiness.Config.Nginx
