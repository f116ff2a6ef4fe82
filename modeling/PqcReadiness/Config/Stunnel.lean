import PqcReadiness.Config.NginxServers

/-!
# The services of stunnel

`parse_stunnel`: the sections of the files and of those that they include, in the order in which
their headers are read.  Every file begins a section without a name, and an option goes to the
section of its own file.  The options of all sections without a name are the global ones.

The keys and values that it compares are ASCII and have no `k`, so that lower case is that of ASCII.
-/

namespace PqcReadiness.Config

open PqcReadiness.Lib
open Nginx (NginxHost joinRelative nginxMaxIncludeDepth)

/-! ## Lines -/

/-- What a line is. -/
inductive StunnelKind where
  | skip
  | header (name : Chars)
  | option (key value : Chars)

/-- `re.match(r"^\[([^\]]+)\]$", line)`. -/
def stunnelHeader (line : Chars) : Option Chars :=
  match line with
  | '[' :: rest =>
      let name := rest.dropLast
      if rest.getLast? = some ']' ∧ name ≠ [] ∧ ']' ∉ name then some (stripChars name) else none
  | _ => none

/-- What a line of a file is. -/
def stunnelKind (raw : Chars) : StunnelKind :=
  let line := stripChars raw
  if line = [] ∨ line.head? = some '#' ∨ line.head? = some ';' then .skip
  else
    match stunnelHeader line with
    | some name => .header name
    | none =>
        if '=' ∈ line then
          .option (lowerAscii (stripChars (line.takeWhile (· ≠ '='))))
            (stripChars ((line.dropWhile (· ≠ '=')).drop 1))
        else .skip

/-! ## Files -/

/-- An element of `sections`. -/
structure StunnelSection where
  path : String
  line : ℕ
  name : Chars
  opts : Dict Chars Chars := .empty

/-- `cur[key] = value`. -/
def StunnelSection.set (key value : Chars) (sect : StunnelSection) : StunnelSection :=
  { sect with opts := sect.opts.update key fun _ => value }

/-- What `load` has read. -/
structure StunnelFiles where
  files : List String := []
  unreadable : List Unreadable := []
  sections : List StunnelSection := []

/-- `sorted(lister(posixpath.join(v, "*.conf")))`. -/
def stunnelIncludes (host : NginxHost) (value : Chars) : List String :=
  sortedBy id (host.lister
    (joinRelative (String.ofList value) "*.conf"))

/-- How an included file is loaded, if that is not too deep. -/
abbrev StunnelBelow := Option (StunnelFiles → String → StunnelFiles)

/-- One line of a file; `cur` is where its section stands. -/
def stunnelLine (host : NginxHost) (below : StunnelBelow) (path : String)
    (state : StunnelFiles × ℕ) (line : ℕ × Chars) : StunnelFiles × ℕ :=
  let (loaded, cur) := state
  match stunnelKind line.2 with
  | .skip => state
  | .header name =>
      ({ loaded with sections := loaded.sections ++ [⟨path, line.1, name, .empty⟩] },
        loaded.sections.length)
  | .option key value =>
      match below with
      | some load =>
          if key = "include".toList then ((stunnelIncludes host value).foldl load loaded, cur)
          else ({ loaded with sections := loaded.sections.modify cur (.set key value) }, cur)
      | none => ({ loaded with sections := loaded.sections.modify cur (.set key value) }, cur)

/-- The lines of a text with their numbers. -/
def numbered (text : Chars) : List (ℕ × Chars) :=
  let lines := splitLinesChars text
  (List.range' 1 lines.length).zip lines

/-- `load`, where so many levels of includes are left. -/
def loadStunnel (host : NginxHost) : ℕ → StunnelFiles → String → StunnelFiles
  | left, state, path =>
      match host.reader path with
      | none =>
          { state with unreadable := state.unreadable ++ [⟨path, "missing or not readable"⟩] }
      | some text =>
          let below : StunnelBelow :=
            match left with
            | 0 => none
            | left + 1 => some (loadStunnel host left)
          ((numbered text).foldl (stunnelLine host below path)
            ({ state with
                files := state.files ++ [path]
                sections := state.sections ++ [⟨path, 1, [], .empty⟩] },
              state.sections.length)).1

/-! ## Services -/

/-- `glob`. -/
def stunnelGlobals (sections : List StunnelSection) : Dict Chars Chars :=
  sections.foldl (fun glob sect => if sect.name = [] then sect.opts.override glob else glob)
    .empty

section Service

variable (st : Chars → Option Chars)

/-- `gv`. -/
def stunnelCurves : Option Chars := (truthy (st "curves".toList)).or (st "curve".toList)

/-- `client`. -/
def stunnelClient : Bool :=
  ["yes".toList, "true".toList, "1".toList].contains
    (lowerAscii ((st "client".toList).getD "no".toList))

/-- `[version] if version and version.lower() != "all" else None`. -/
def stunnelProtocols : Option (List Chars) :=
  ((truthy (st "sslversion".toList)).filter (lowerAscii · ≠ "all".toList)).map ([·])

/-- The settings of the endpoint of a service. -/
def stunnelSettings (defaultCurves : Option (List Chars)) (file : String) (line : ℕ)
    (name : Chars) : EndpointSettings where
  file := file
  line := some line
  ports := ((st "accept".toList).bind portOf).toList
  context := some ("[" ++ String.ofList name ++ "]")
  role := if stunnelClient st then "client" else "server"
  groups := splitGroups (stunnelCurves st)
  groupsSetting := if (truthy (stunnelCurves st)).isSome then some "curves" else none
  serviceDefaultGroups := defaultCurves
  protocols := stunnelProtocols st
  minProtocol := st "sslversionmin".toList
  maxProtocol := st "sslversionmax".toList
  ciphers := (st "ciphers".toList).map String.ofList
  ciphersuites := (st "ciphersuites".toList).map String.ofList
  certificates := ((truthy (st "cert".toList)).map String.ofList).toList

end Service

/-- The endpoint of a section, if it is a service. -/
def stunnelEndpoint (defaultCurves : Option (List Chars)) (glob : Dict Chars Chars)
    (sect : StunnelSection) : List Endpoint :=
  if sect.name = [] ∨ sect.opts.get? "accept".toList = none then []
  else
    [makeEndpoint (stunnelSettings (sect.opts.override glob).get? defaultCurves sect.path sect.line
      sect.name)]

/-- What `parse_stunnel` returns. -/
structure StunnelConfig where
  files : List String
  unreadable : List Unreadable
  endpoints : List Endpoint

/-- `parse_stunnel`. -/
def parseStunnel (host : NginxHost) (defaultCurves : Option (List Chars)) (paths : List String) :
    StunnelConfig :=
  let loaded := paths.foldl (loadStunnel host nginxMaxIncludeDepth) {}
  ⟨loaded.files, loaded.unreadable,
    loaded.sections.flatMap (stunnelEndpoint defaultCurves (stunnelGlobals loaded.sections))⟩

end PqcReadiness.Config
