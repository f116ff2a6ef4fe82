import PqcReadiness.Config.Endpoint

/-!
# Protocol settings of Apache, Postfix and HAProxy

`_apache_protocols`, `_postfix_protocols` and `parse_haproxy`, and the endpoints that are made of
their results.  The names of protocols and the keywords of HAProxy are ASCII.
-/

namespace PqcReadiness.Config

open PqcReadiness.Lib

/-- `s.split()`. -/
def wordsOf (s : Chars) : List Chars := (splitWhere isSpace s).filter (· ≠ [])

/-! ## Apache -/

/-- `every`. -/
def everyTls : List Chars :=
  ["TLSv1".toList, "TLSv1.1".toList, "TLSv1.2".toList, "TLSv1.3".toList]

/-- `canon`. -/
def canonProtocol (name : Chars) : Chars :=
  ((everyTls ++ ["SSLv3".toList, "SSLv2".toList]).find? fun e =>
    lowerAscii e = lowerAscii name).getD name

/-- One name of a token. -/
def apacheName (remove : Bool) (allowed : List Chars) (name : Chars) : List Chars :=
  let canon := canonProtocol name
  if remove then allowed.filter fun a => lowerAscii a ≠ lowerAscii canon
  else if allowed.contains canon then allowed
  else allowed ++ [canon]

/-- One token: `+`, `-` or no sign, and a name. -/
def apacheTurn (allowed : List Chars) (tok : Chars) : List Chars :=
  let t := stripChars tok
  let remove := t.head? = some '-'
  let name := if t.head? = some '+' ∨ t.head? = some '-' then t.tail else t
  let names := if lowerAscii name = "all".toList then everyTls else [name]
  names.foldl (apacheName remove) allowed

/-- `_apache_protocols`. -/
def apacheProtocols (value : Chars) : List Chars := (wordsOf value).foldl apacheTurn []

/-- The endpoint of a virtual host with this `SSLProtocol`, and without bounds. -/
def apacheEndpoint (settings : EndpointSettings) (value : Chars) : Endpoint :=
  makeEndpoint { settings with
    protocols := if value = [] then none else some (apacheProtocols value)
    minProtocol := none
    maxProtocol := none }

/-! ## Postfix -/

/-- What `_postfix_protocols` has read. -/
structure PostfixState where
  minimum : Option Chars := none
  maximum : Option Chars := none
  excluded : List Chars := []

/-- One token. -/
def postfixTurn (state : PostfixState) (tok : Chars) : PostfixState :=
  match tok with
  | '>' :: '=' :: bound => { state with minimum := some bound }
  | '<' :: '=' :: bound => { state with maximum := some bound }
  | '!' :: name => { state with excluded := state.excluded ++ [lowerAscii name] }
  | _ => state

/-- The tokens of a value. -/
def postfixTokens (value : Chars) : List Chars :=
  wordsOf (value.map fun c => if c = ',' then ' ' else c)

/-- `allowed`. -/
def postfixAllowed (state : PostfixState) : Option (List Chars) :=
  if state.excluded = [] then none
  else some (everyTls.filter fun p => !state.excluded.contains (lowerAscii p))

/-- `_postfix_protocols`; a value that is empty has no tokens. -/
def postfixProtocols (value : Chars) : Option Chars × Option Chars × Option (List Chars) :=
  let state := (postfixTokens value).foldl postfixTurn {}
  (state.minimum, state.maximum, postfixAllowed state)

/-- The endpoint of an `smtpd` with these protocols. -/
def postfixEndpoint (settings : EndpointSettings) (value : Chars) : Endpoint :=
  let (minimum, maximum, allowed) := postfixProtocols value
  makeEndpoint { settings with
    protocols := allowed
    minProtocol := minimum
    maxProtocol := maximum }

/-! ## HAProxy -/

/-- `s.lower()`, compared with ASCII text: the Kelvin sign becomes a `k`. -/
def lowerKeyword (s : Chars) : Chars :=
  s.map fun c => if c.toNat = 0x212A then 'k' else c.toLower

/-- `_port_of`: the digits at the end, if there are up to five of them and nothing or a colon
before them. -/
def portOf (addr : Chars) : Option ℕ :=
  let a := stripChars addr
  if "unix:".toList.isPrefixOf a ∨ a.head? = some '/' then none
  else
    let digits := (a.reverse.takeWhile isDigit).reverse
    let before := (a.reverse.dropWhile isDigit).head?
    if 1 ≤ digits.length ∧ digits.length ≤ 5 ∧ (before = none ∨ before = some ':') then
      if 0 < decimal digits ∧ decimal digits < 65536 then some (decimal digits) else none
    else none

/-- The options of a `bind` line that take a value. -/
def bindValued : List Chars :=
  ["curves".toList, "ecdhe".toList, "ssl-min-ver".toList, "ssl-max-ver".toList, "ciphers".toList,
    "ciphersuites".toList, "crt".toList]

/-- `opts` and `flags`. -/
structure BindOptions where
  opts : Dict Chars Chars := .empty
  flags : List Chars := []

/-- The loop over the words of a `bind` line: the first value of an option counts, but the last
one of `crt`. -/
def readBindWords (options : BindOptions) : List Chars → BindOptions
  | [] => options
  | [w] => { options with flags := options.flags ++ [w] }
  | w :: value :: rest =>
      if bindValued.contains w then
        readBindWords
          { options with
            opts := options.opts.update w fun old =>
              if w = "crt".toList then value else old.getD value }
          rest
      else readBindWords { options with flags := options.flags ++ [w] } (value :: rest)

/-- The word after the first `key` that has one. -/
def firstAfter (key : Chars) : List Chars → Option Chars
  | w :: value :: rest => if w = key then some value else firstAfter key (value :: rest)
  | _ => none

/-- A `bind` line with `ssl`: where it stands, and its words. -/
structure HaBind where
  path : String
  line : ℕ
  (section' : Chars)
  words : List Chars

/-- `value or None`. -/
def truthy (value : Option Chars) : Option Chars := value.filter (· ≠ [])

/-- `min_v` and `max_v` of a `bind` line. -/
def haBounds (options : BindOptions) (gopts : List Chars) : Option Chars × Option Chars :=
  let minimum := (options.opts.get? "ssl-min-ver".toList).or (firstAfter "ssl-min-ver".toList gopts)
  let maximum := (options.opts.get? "ssl-max-ver".toList).or (firstAfter "ssl-max-ver".toList gopts)
  if options.flags.contains "no-tlsv13".toList || gopts.contains "no-tlsv13".toList ||
      options.flags.contains "force-tlsv12".toList then
    (minimum, some "TLSv1.2".toList)
  else (minimum, maximum)

/-- `ssl-default-bind-options`, in words. -/
def globalOptions (glob : Dict Chars Chars) : List Chars :=
  wordsOf ((glob.get? "ssl-default-bind-options".toList).getD [])

/-- The endpoint of a `bind` line. -/
def haEndpoint (glob : Dict Chars Chars) (bind : HaBind) : Endpoint :=
  let options := readBindWords {} bind.words.tail
  let bounds := haBounds options (globalOptions glob)
  let curves := truthy (options.opts.get? "curves".toList)
  let ecdhe := truthy (options.opts.get? "ecdhe".toList)
  let defaultCurves := truthy (glob.get? "ssl-default-bind-curves".toList)
  makeEndpoint {
    file := bind.path
    line := some bind.line
    ports := (splitWhere (· = ',') (bind.words.headD [])).filterMap portOf
    context := some (String.ofList bind.section')
    groups := splitGroups ((curves.or ecdhe).or defaultCurves)
    groupsSetting :=
      if curves.isSome then some "bind curves"
      else if ecdhe.isSome then some "bind ecdhe"
      else if defaultCurves.isSome then some "ssl-default-bind-curves"
      else none
    minProtocol := bounds.1
    maxProtocol := bounds.2
    ciphers := ((truthy (options.opts.get? "ciphers".toList)).or
      (glob.get? "ssl-default-bind-ciphers".toList)).map String.ofList
    ciphersuites := ((truthy (options.opts.get? "ciphersuites".toList)).or
      (glob.get? "ssl-default-bind-ciphersuites".toList)).map String.ofList
    certificates := ((truthy (options.opts.get? "crt".toList)).map String.ofList).toList }

/-- The keywords that begin a section. -/
def haSections : List Chars :=
  ["global".toList, "defaults".toList, "frontend".toList, "backend".toList, "listen".toList,
    "peers".toList, "resolvers".toList, "userlist".toList, "program".toList, "cache".toList,
    "ring".toList, "http-errors".toList, "mailers".toList]

/-- `" ".join(words)`. -/
def joinSpace : List Chars → Chars
  | [] => []
  | [word] => word
  | word :: rest => word ++ ' ' :: joinSpace rest

/-- What has been read of the files. -/
structure HaState where
  (section' : Chars := [])
  glob : Dict Chars Chars := .empty
  binds : List HaBind := []

/-- One line of a file. -/
def haLine (path : String) (state : HaState) (line : ℕ × Chars) : HaState :=
  match wordsOf (stripChars (line.2.takeWhile (· ≠ '#'))) with
  | [] => state
  | first :: rest =>
      let kw := lowerKeyword first
      if haSections.contains kw then
        { state with section' := joinSpace (kw :: rest.take 1) }
      else if state.section' = "global".toList ∧ "ssl-default-bind-".toList.isPrefixOf kw then
        { state with glob := state.glob.update kw fun _ => joinSpace rest }
      else if kw = "bind".toList ∧ ("frontend".toList.isPrefixOf state.section' ∨
          "listen".toList.isPrefixOf state.section') then
        { state with binds := state.binds ++ [⟨path, line.1, state.section', rest⟩] }
      else state

/-- One file, of which `none` is one that cannot be read; a file begins outside any section. -/
def haFile (reader : String → Option Chars) (state : HaState) (path : String) : HaState :=
  match reader path with
  | none => state
  | some text =>
      let lines := splitLinesChars text
      ((List.range' 1 lines.length).zip lines).foldl (haLine path) { state with section' := [] }

/-- What `parse_haproxy` returns. -/
structure HaproxyConfig where
  files : List String
  unreadable : List String
  endpoints : List Endpoint

/-- `parse_haproxy`. -/
def parseHaproxy (paths : List String) (reader : String → Option Chars) : HaproxyConfig :=
  let state := paths.foldl (haFile reader) {}
  ⟨paths.filter fun path => (reader path).isSome, paths.filter fun path => (reader path).isNone,
    (state.binds.filter fun bind => bind.words.contains "ssl".toList).map (haEndpoint state.glob)⟩

/-- A `bind` line of one of the paths, in a section that listens. -/
structure HaBind.Listens (paths : List String) (bind : HaBind) : Prop where
  path : bind.path ∈ paths
  (section' : "frontend".toList.isPrefixOf bind.section' ∨
    "listen".toList.isPrefixOf bind.section')

/-- A line adds a `bind` line of its file, or none. -/
theorem listens_haLine {paths : List String} {path : String} (hpath : path ∈ paths)
    {state : HaState} (hstate : ∀ bind ∈ state.binds, bind.Listens paths) (line : ℕ × Chars) :
    ∀ bind ∈ (haLine path state line).binds, bind.Listens paths := by
  unfold haLine
  split
  · exact hstate
  · dsimp only
    split
    · exact hstate
    · split
      · exact hstate
      · split
        · next hbind =>
            refine List.forall_mem_append.mpr ⟨hstate, ?_⟩
            rw [List.forall_mem_singleton]
            exact ⟨hpath, hbind.2⟩
        · exact hstate

theorem listens_haFile {paths : List String} {path : String} (hpath : path ∈ paths)
    (reader : String → Option Chars) {state : HaState}
    (hstate : ∀ bind ∈ state.binds, bind.Listens paths) :
    ∀ bind ∈ (haFile reader state path).binds, bind.Listens paths := by
  unfold haFile
  split
  · exact hstate
  · next text hread =>
      have hstart : ∀ bind ∈ ({ state with section' := [] } : HaState).binds,
          bind.Listens paths := hstate
      exact List.foldlRecOn (motive := fun state => ∀ bind ∈ state.binds, bind.Listens paths) _
        (haLine path) hstart fun state hstate line _ => listens_haLine hpath hstate line

/-- Every endpoint is that of a `bind` line with `ssl`, in a section that listens. -/
theorem exists_bind_of_mem_parseHaproxy {paths : List String} {reader : String → Option Chars}
    {endpoint : Endpoint} (hendpoint : endpoint ∈ (parseHaproxy paths reader).endpoints) :
    ∃ bind : HaBind, bind.Listens paths ∧ "ssl".toList ∈ bind.words ∧
      endpoint = haEndpoint (paths.foldl (haFile reader) {}).glob bind := by
  obtain ⟨bind, hbind, rfl⟩ := List.mem_map.mp hendpoint
  obtain ⟨hmem, hssl⟩ := List.mem_filter.mp hbind
  have hlistens : ∀ bind ∈ (paths.foldl (haFile reader) {}).binds, bind.Listens paths :=
    List.foldlRecOn (motive := fun state => ∀ bind ∈ state.binds, bind.Listens paths) paths
      (haFile reader) (List.forall_mem_nil _) fun _ hstate _ hpath =>
        listens_haFile hpath reader hstate
  exact ⟨bind, hlistens bind hmem, List.contains_iff_mem.mp hssl, rfl⟩

end PqcReadiness.Config
