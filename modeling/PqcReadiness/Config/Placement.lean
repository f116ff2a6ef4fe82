import Mathlib.Data.List.Find
import PqcReadiness.Config.Apache
import PqcReadiness.Lib.PrefixFree

/-!
# Settings outside of virtual hosts

Where a setting of Apache that stands outside of all virtual hosts is moved past some of them, and
when the endpoints stay the same: `placement_iff`.

To Apache these settings are the defaults of every virtual host.  `parse_apache` takes them over
where a host ends, so those that follow do not reach it.

## Strategy

Lines outside of hosts and whole hosts leave the pass outside of any host, so it goes through them
one at a time (`run_items`): every host comes with the settings in front of it (`hostsOf`).  A move
past hosts changes these settings in one place, and a host tells whether it reads that one
(`endpointsAt_readLine_iff`).
-/

namespace PqcReadiness.Config

open PqcReadiness.Lib

/-! ## Sequences of lines and hosts -/

/-- A line that neither begins nor ends a host. -/
structure PlainLine where
  text : Chars
  begins : apacheKey text ≠ "<virtualhost".toList
  ends : apacheKey text ≠ "</virtualhost>".toList

/-- A complete host. -/
structure HostBlock where
  first : Chars
  body : List PlainLine
  last : Chars
  begins : apacheKey first = "<virtualhost".toList
  ends : apacheKey last = "</virtualhost>".toList

/-- What stands in a file, outside of hosts. -/
inductive ApacheItem where
  | line (line : PlainLine)
  | host (block : HostBlock)

/-- The lines of an item. -/
def ApacheItem.lines : ApacheItem → List Chars
  | .line plain => [plain.text]
  | .host block => block.first :: block.body.map PlainLine.text ++ [block.last]

/-- The lines of some items. -/
def linesOf (items : List ApacheItem) : List Chars := items.flatMap ApacheItem.lines

/-- The keys that `parse_apache` reads settings from. -/
def sslKeys : List Chars :=
  ["sslengine".toList, "sslprotocol".toList, "sslciphersuite".toList, "sslcertificatefile".toList,
    "sslopensslconfcmd".toList]

/-- A line with a setting. -/
def PlainLine.IsSetting (line : PlainLine) : Prop := apacheKey line.text ∈ sslKeys

/-- The settings outside of hosts, after some items. -/
def globalsAfter (globals : ApacheSettings) (items : List ApacheItem) : ApacheSettings :=
  items.foldl (fun globals item =>
    match item with
    | .line line => globals.readLine line.text
    | .host _ => globals) globals

/-- The settings of a host. -/
def HostBlock.settings (block : HostBlock) : ApacheSettings :=
  block.body.foldl (fun st line => st.readLine line.text) {}

/-- The addresses of a host. -/
def HostBlock.addrs (block : HostBlock) : List Chars :=
  wordsOf ((apacheArg block.first).reverse.dropWhile (· = '>')).reverse

/-- The hosts of some items, each with the settings in front of it. -/
def hostsOf (globals : ApacheSettings) : List ApacheItem → List (ApacheSettings × HostBlock)
  | [] => []
  | .line line :: rest => hostsOf (globals.readLine line.text) rest
  | .host block :: rest => (globals, block) :: hostsOf globals rest

/-- What `parse_apache` is called with. -/
structure ApacheSite where
  main : String
  serverRoot : String
  host : Nginx.NginxHost

namespace ApacheSite

/-- `flat`. -/
def flat (site : ApacheSite) : List ApacheEntry :=
  (loadApache site.host Nginx.nginxMaxIncludeDepth false { serverRoot := site.serverRoot }
    site.main).flat

/-- The endpoints. -/
def endpoints (site : ApacheSite) : List Endpoint :=
  (parseApache site.main site.serverRoot site.host).endpoints

/-- Where the hosts begin. -/
def places (site : ApacheSite) : List (String × ℕ) :=
  (site.flat.filter fun entry => apacheKey entry.line = "<virtualhost".toList).map
    fun entry => (entry.path, entry.lineNo)

end ApacheSite

/-- A setting that is moved past some hosts, in either direction: the sites read these lines, with
the setting in front of them and behind them. -/
structure Move where
  front : List ApacheItem
  setting : PlainLine
  passed : List ApacheItem
  rest : List ApacheItem
  early : ApacheSite
  late : ApacheSite
  isSetting : setting.IsSetting
  /-- No other setting is passed. -/
  order : ∀ line, ApacheItem.line line ∈ passed → ¬ line.IsSetting
  early_lines : early.flat.map ApacheEntry.line =
    linesOf (front ++ .line setting :: (passed ++ rest))
  late_lines : late.flat.map ApacheEntry.line =
    linesOf (front ++ (passed ++ .line setting :: rest))

/-- An endpoint, wherever it stands. -/
def Endpoint.unplaced (endpoint : Endpoint) : Endpoint := { endpoint with file := "", line := none }

/-! ## Where a move changes nothing -/

/-- What a line sets. -/
inductive ApacheSetting where
  | engine
  | protocol
  | ciphers
  | cert
  | command (name : Chars)
  deriving DecidableEq

/-- The value of a setting. -/
def ApacheSettings.get (st : ApacheSettings) : ApacheSetting → Option Chars
  | .engine => st.engine
  | .protocol => st.protocol
  | .ciphers => st.ciphers
  | .cert => st.cert
  | .command name => st.confcmd.get? name

/-- What `SSLOpenSSLConfCmd` sets with these arguments, and to which value. -/
def commandAssignment (arg : Chars) : Option (ApacheSetting × Chars) :=
  let (command, value) := splitWord arg
  if value = [] then none
  else some (.command (lowerAscii command), stripQuotes (stripChars value))

/-- What a line sets, and to which value. -/
def assignment (line : Chars) : Option (ApacheSetting × Chars) :=
  let key := apacheKey line
  let value := stripQuotes (apacheArg line)
  if key = "sslopensslconfcmd".toList then commandAssignment (apacheArg line)
  else if key = "sslengine".toList then some (.engine, value)
  else if key = "sslprotocol".toList then some (.protocol, value)
  else if key = "sslciphersuite".toList then some (.ciphers, value)
  else if key = "sslcertificatefile".toList then some (.cert, value)
  else none

/-- The names of the commands that set groups, the strongest first. -/
def groupCommands : List Chars := ["groups".toList, "curves".toList, "ecdhparameters".toList]

/-- The names of the other commands that are reported. -/
def otherCommands : List Chars :=
  ["minprotocol".toList, "maxprotocol".toList, "ciphersuites".toList]

/-- The groups that a host reports, and the name of the setting, with these values of the
commands. -/
def reportedGroups (value : Chars → Option Chars) : Option (List Chars × Chars) :=
  (groupCommands.find? fun name => (value name).isSome).bind fun name =>
    (splitGroups (value name)).map fun groups => (groups, name)

/-- A default that counts the same for a host as the one that it replaces. -/
def SameDefault (globals own : ApacheSettings) (setting : ApacheSetting) (value : Chars) : Prop :=
  match setting with
  | .engine => engineOn (some value) = engineOn globals.engine
  | .protocol =>
      (truthy (some value)).map apacheProtocols = (truthy globals.protocol).map apacheProtocols
  | .ciphers => globals.ciphers = some value
  | .cert => truthy (some value) = truthy globals.cert
  | .command name =>
      if name ∈ otherCommands then globals.confcmd.get? name = some value
      else if name ∈ groupCommands then
        reportedGroups (fun other => (own.confcmd.get? other).or
          (if other = name then some value else globals.confcmd.get? other)) =
        reportedGroups fun other => (own.confcmd.get? other).or (globals.confcmd.get? other)
      else True

/-- A host with settings of its own does not need this default: it sets the same itself, or it is
not reported at all, or the default counts the same as the one before. -/
def Indifferent (globals own : ApacheSettings) (setting : ApacheSetting) (value : Chars) : Prop :=
  (own.get setting).isSome ∨
    (setting ≠ .engine ∧ engineOn (own.engine.or globals.engine) = false) ∨
    SameDefault globals own setting value

/-- No host that is passed needs the setting. -/
def Move.Harmless (move : Move) : Prop :=
  ∀ setting value, assignment move.setting.text = some (setting, value) →
    ∀ block, ApacheItem.host block ∈ move.passed →
      Indifferent (globalsAfter {} move.front) block.settings setting value

/-- The endpoints stay the same, up to where the hosts stand, and the same altogether if the hosts
stand where they stood. -/
def Move.Unchanged (move : Move) : Prop :=
  move.early.endpoints.map Endpoint.unplaced = move.late.endpoints.map Endpoint.unplaced ∧
    (move.early.places = move.late.places → move.early.endpoints = move.late.endpoints)

/-! ## The pass, an item at a time -/

/-- Where the hosts of some lines begin. -/
def placesOf (flat : List ApacheEntry) : List (String × ℕ) :=
  (flat.filter fun entry => apacheKey entry.line = "<virtualhost".toList).map
    fun entry => (entry.path, entry.lineNo)

/-- The endpoints of a host at a place. -/
def endpointsAt (file : String) (line : Option ℕ) (host : ApacheSettings × HostBlock) :
    List Endpoint :=
  let st := host.2.settings.overriding host.1
  if engineOn st.engine then [makeEndpoint (hostSettings file line host.2.addrs st)] else []

/-- The endpoints of some hosts at their places. -/
def placedEndpoints (places : List (String × ℕ)) (hosts : List (ApacheSettings × HostBlock)) :
    List Endpoint :=
  (places.zip hosts).flatMap fun placed => endpointsAt placed.1.1 (some placed.1.2) placed.2

theorem apacheStep_plain {state : ApacheState} {entry : ApacheEntry} {line : PlainLine}
    (hline : entry.line = line.text) :
    apacheStep state entry = match state.vhost with
      | some host => { state with
          vhost := some { host with settings := host.settings.readLine line.text } }
      | none => { state with globals := state.globals.readLine line.text } := by
  cases hhost : state.vhost with
  | none => rw [apacheStep, hline, if_neg line.begins, if_neg line.ends, hhost]
  | some host => rw [apacheStep, hline, if_neg line.begins, if_neg line.ends, hhost]

/-- The lines in a host go into its settings. -/
theorem run_body {body : List PlainLine} {flat : List ApacheEntry}
    (hflat : flat.map ApacheEntry.line = body.map PlainLine.text) (globals : ApacheSettings)
    (host : VirtualHost) (endpoints : List Endpoint) :
    flat.foldl apacheStep ⟨globals, some host, endpoints⟩ =
      ⟨globals, some { host with
          settings := body.foldl (fun st line => st.readLine line.text) host.settings },
        endpoints⟩ := by
  induction body generalizing flat host with
  | nil =>
      obtain rfl := List.map_eq_nil_iff.mp hflat
      rfl
  | cons line rest ih =>
      obtain ⟨entry, flat, rfl, hline, hrest⟩ := List.map_eq_cons_iff.mp hflat
      rw [List.foldl_cons, apacheStep_plain hline, ih hrest]
      rfl

/-- A whole host. -/
theorem run_host {block : HostBlock} {flat : List ApacheEntry}
    (hflat : flat.map ApacheEntry.line = (ApacheItem.host block).lines)
    (globals : ApacheSettings) (endpoints : List Endpoint) :
    ∃ file line, placesOf flat = [(file, line)] ∧
      flat.foldl apacheStep ⟨globals, none, endpoints⟩ =
        ⟨globals, none, endpoints ++ endpointsAt file (some line) (globals, block)⟩ := by
  obtain ⟨first, inner, rfl, hfirst, hinner⟩ := List.map_eq_cons_iff.mp hflat
  obtain ⟨body, closing, rfl, hbody, hclosing⟩ := List.map_eq_append_iff.mp hinner
  obtain ⟨last, none, rfl, hlast, hnone⟩ := List.map_eq_cons_iff.mp hclosing
  obtain rfl := List.map_eq_nil_iff.mp hnone
  have hbegins : apacheKey first.line = "<virtualhost".toList := hfirst ▸ block.begins
  have hends : apacheKey last.line = "</virtualhost>".toList := hlast ▸ block.ends
  have hdiffer : "</virtualhost>".toList ≠ "<virtualhost".toList := by decide
  refine ⟨first.path, first.lineNo, ?_, ?_⟩
  · have hnone : ∀ entry ∈ body ++ [last], ¬ apacheKey entry.line = "<virtualhost".toList := by
      intro entry hentry
      rcases List.mem_append.mp hentry with hmem | hmem
      · have hline : entry.line ∈ block.body.map PlainLine.text :=
          hbody ▸ List.mem_map_of_mem hmem
        obtain ⟨line, _, hline⟩ := List.mem_map.mp hline
        exact hline ▸ line.begins
      · obtain rfl := List.mem_singleton.mp hmem
        rw [hends]
        exact hdiffer
    have hfilter : (body ++ [last]).filter
        (fun entry => apacheKey entry.line = "<virtualhost".toList) = [] := by
      rw [List.filter_eq_nil_iff]
      intro entry hentry
      rw [decide_eq_true_eq]
      exact hnone entry hentry
    rw [placesOf, List.filter_cons, if_pos (decide_eq_true hbegins), hfilter]
    rfl
  · have hopen : apacheStep ⟨globals, none, endpoints⟩ first =
        ⟨globals, some ⟨first.path, first.lineNo, block.addrs, {}⟩, endpoints⟩ := by
      rw [apacheStep, if_pos hbegins, hfirst]
      rfl
    rw [List.foldl_cons, hopen, List.foldl_append, run_body hbody, List.foldl_cons, List.foldl_nil,
      apacheStep, if_neg (hends ▸ hdiffer), if_pos hends]
    rfl

/-- **The pass over complete hosts.** -/
theorem run_items {items : List ApacheItem} {flat : List ApacheEntry}
    (hflat : flat.map ApacheEntry.line = linesOf items) (globals : ApacheSettings)
    (endpoints : List Endpoint) :
    flat.foldl apacheStep ⟨globals, none, endpoints⟩ =
      ⟨globalsAfter globals items, none,
        endpoints ++ placedEndpoints (placesOf flat) (hostsOf globals items)⟩ := by
  induction items generalizing flat globals endpoints with
  | nil =>
      obtain rfl := List.map_eq_nil_iff.mp hflat
      rw [placedEndpoints, hostsOf, List.zip_nil_right, List.flatMap_nil, List.append_nil]
      rfl
  | cons item rest ih =>
      rw [linesOf, List.flatMap_cons] at hflat
      obtain ⟨first, more, rfl, hfirst, hmore⟩ := List.map_eq_append_iff.mp hflat
      rw [List.foldl_append]
      cases item with
      | line line =>
          obtain ⟨entry, none, rfl, hline, hnone⟩ := List.map_eq_cons_iff.mp hfirst
          obtain rfl := List.map_eq_nil_iff.mp hnone
          have hplaces : placesOf ([entry] ++ more) = placesOf more := by
            rw [placesOf, List.filter_append, List.filter_singleton, hline,
              decide_eq_false line.begins]
            rfl
          rw [List.foldl_cons, List.foldl_nil, apacheStep_plain hline, hplaces]
          exact ih hmore _ _
      | host block =>
          obtain ⟨file, number, hplaces, hrun⟩ := run_host hfirst globals endpoints
          have happend : placesOf (first ++ more) = (file, number) :: placesOf more := by
            rw [placesOf, List.filter_append, List.map_append]
            exact congrArg (· ++ placesOf more) hplaces
          rw [hrun, happend, ih hmore, List.append_assoc]
          rfl

/-- Every host has a place. -/
theorem length_placesOf {items : List ApacheItem} {flat : List ApacheEntry}
    (hflat : flat.map ApacheEntry.line = linesOf items) (globals : ApacheSettings) :
    (placesOf flat).length = (hostsOf globals items).length := by
  induction items generalizing flat globals with
  | nil =>
      obtain rfl := List.map_eq_nil_iff.mp hflat
      rfl
  | cons item rest ih =>
      rw [linesOf, List.flatMap_cons] at hflat
      obtain ⟨first, more, rfl, hfirst, hmore⟩ := List.map_eq_append_iff.mp hflat
      have happend : placesOf (first ++ more) = placesOf first ++ placesOf more := by
        rw [placesOf, List.filter_append, List.map_append]
        rfl
      rw [happend, List.length_append]
      cases item with
      | line line =>
          obtain ⟨entry, none, rfl, hline, hnone⟩ := List.map_eq_cons_iff.mp hfirst
          obtain rfl := List.map_eq_nil_iff.mp hnone
          have hplaces : placesOf [entry] = [] := by
            rw [placesOf, List.filter_singleton, hline, decide_eq_false line.begins]
            rfl
          rw [hplaces, List.length_nil, zero_add]
          exact ih hmore _
      | host block =>
          obtain ⟨file, number, hplaces, _⟩ := run_host hfirst globals []
          rw [hplaces, List.length_singleton, ih hmore globals, hostsOf, List.length_cons,
            add_comm]

/-- The endpoints of a site that reads these items. -/
theorem endpoints_eq {site : ApacheSite} {items : List ApacheItem}
    (hlines : site.flat.map ApacheEntry.line = linesOf items) :
    site.endpoints = placedEndpoints site.places (hostsOf {} items) := by
  change (site.flat.foldl apacheStep ⟨{}, none, []⟩).endpoints = _
  rw [run_items hlines]
  rfl

/-- The endpoints of hosts, wherever they stand. -/
def unplacedEndpoints (hosts : List (ApacheSettings × HostBlock)) : List Endpoint :=
  hosts.flatMap (endpointsAt "" none)

theorem map_unplaced_endpointsAt (file : String) (line : Option ℕ)
    (host : ApacheSettings × HostBlock) :
    (endpointsAt file line host).map Endpoint.unplaced = endpointsAt "" none host := by
  rw [endpointsAt, endpointsAt]
  split <;> rfl

theorem map_unplaced_placedEndpoints {places : List (String × ℕ)}
    {hosts : List (ApacheSettings × HostBlock)} (hlength : places.length = hosts.length) :
    (placedEndpoints places hosts).map Endpoint.unplaced = unplacedEndpoints hosts := by
  induction hosts generalizing places with
  | nil =>
      obtain rfl := List.length_eq_zero_iff.mp hlength
      rfl
  | cons host rest ih =>
      obtain ⟨place, places, rfl⟩ := List.exists_cons_of_length_eq_add_one hlength
      rw [placedEndpoints, List.zip_cons_cons, List.flatMap_cons, List.map_append,
        map_unplaced_endpointsAt, unplacedEndpoints, List.flatMap_cons]
      exact congrArg _ (ih (Nat.succ.inj hlength))

theorem map_unplaced_endpoints {site : ApacheSite} {items : List ApacheItem}
    (hlines : site.flat.map ApacheEntry.line = linesOf items) :
    site.endpoints.map Endpoint.unplaced = unplacedEndpoints (hostsOf {} items) := by
  rw [endpoints_eq hlines]
  exact map_unplaced_placedEndpoints (length_placesOf hlines {})

/-! ## Settings in front of hosts -/

theorem hostsOf_append (globals : ApacheSettings) (first second : List ApacheItem) :
    hostsOf globals (first ++ second) =
      hostsOf globals first ++ hostsOf (globalsAfter globals first) second := by
  induction first generalizing globals with
  | nil => rfl
  | cons item rest ih =>
      cases item with
      | line line => exact ih (globals.readLine line.text)
      | host block => exact congrArg _ (ih globals)

/-- A line without a setting. -/
theorem readLine_of_not_setting {text : Chars} (hkey : apacheKey text ∉ sslKeys)
    (st : ApacheSettings) : st.readLine text = st := by
  simp only [sslKeys, List.mem_cons, List.not_mem_nil, or_false, not_or] at hkey
  obtain ⟨hengine, hprotocol, hciphers, hcert, hcommand⟩ := hkey
  rw [ApacheSettings.readLine, if_neg hcommand, if_neg hengine, if_neg hprotocol, if_neg hciphers,
    if_neg hcert]

/-- The hosts among some items. -/
def blocksOf (items : List ApacheItem) : List HostBlock :=
  items.filterMap fun item =>
    match item with
    | .line _ => none
    | .host block => some block

theorem mem_blocksOf {items : List ApacheItem} {block : HostBlock} :
    block ∈ blocksOf items ↔ ApacheItem.host block ∈ items := by
  rw [blocksOf, List.mem_filterMap]
  constructor
  · rintro ⟨item, hitem, hsome⟩
    cases item with
    | line line => cases hsome
    | host other =>
        cases hsome
        exact hitem
  · intro hitem
    exact ⟨_, hitem, rfl⟩

/-- Where no setting stands between hosts, these have the same in front of them. -/
theorem hostsOf_of_no_setting {items : List ApacheItem}
    (hitems : ∀ line, ApacheItem.line line ∈ items → ¬ line.IsSetting) (globals : ApacheSettings) :
    hostsOf globals items = (blocksOf items).map (globals, ·) ∧
      globalsAfter globals items = globals := by
  induction items with
  | nil => exact ⟨rfl, rfl⟩
  | cons item rest ih =>
      obtain ⟨hhosts, hglobals⟩ := ih fun line hline => hitems line (List.mem_cons_of_mem _ hline)
      cases item with
      | line line =>
          have hsame := readLine_of_not_setting (hitems line List.mem_cons_self) globals
          rw [hostsOf, hsame]
          refine ⟨hhosts, ?_⟩
          change globalsAfter (globals.readLine line.text) rest = globals
          rw [hsame, hglobals]
      | host block => exact ⟨congrArg _ hhosts, hglobals⟩

/-! ## What a line changes -/

/-- The value of a setting after a change. -/
def afterChange (change : Option (ApacheSetting × Chars)) (setting : ApacheSetting)
    (old : Option Chars) : Option Chars :=
  match change with
  | some (changed, value) => if setting = changed then some value else old
  | none => old

theorem get_confCmd (st : ApacheSettings) (arg : Chars) (setting : ApacheSetting) :
    (st.confCmd arg).get setting =
      afterChange (commandAssignment arg) setting (st.get setting) := by
  rw [ApacheSettings.confCmd, commandAssignment]
  obtain ⟨command, value⟩ := splitWord arg
  by_cases hvalue : value = []
  · simp only [if_pos hvalue, afterChange]
  · simp only [if_neg hvalue, afterChange]
    cases setting with
    | command name =>
        rw [ApacheSettings.get, Dict.get?_update]
        simp only [ApacheSetting.command.injEq]
        rfl
    | engine => rfl
    | protocol => rfl
    | ciphers => rfl
    | cert => rfl

/-- **A line changes the setting that it sets, and no other.** -/
theorem get_readLine (st : ApacheSettings) (line : Chars) (setting : ApacheSetting) :
    (st.readLine line).get setting = afterChange (assignment line) setting (st.get setting) := by
  rw [ApacheSettings.readLine, assignment]
  split
  · exact get_confCmd st (apacheArg line) setting
  · split
    · cases setting <;> rfl
    · split
      · cases setting <;> rfl
      · split
        · cases setting <;> rfl
        · split
          · cases setting <;> rfl
          · rfl

/-- A host with its own settings over others. -/
theorem get_overriding (own globals : ApacheSettings) (setting : ApacheSetting) :
    (own.overriding globals).get setting = (own.get setting).or (globals.get setting) := by
  cases setting with
  | command name => exact Dict.get?_override own.confcmd globals.confcmd name
  | engine => rfl
  | protocol => rfl
  | ciphers => rfl
  | cert => rfl

/-! ## What a host reports -/

/-- The name of a setting as it is reported. -/
def commandLabel (name : Chars) : String :=
  if name = "groups".toList then "SSLOpenSSLConfCmd Groups"
  else if name = "curves".toList then "SSLOpenSSLConfCmd Curves"
  else "SSLOpenSSLConfCmd ECDHParameters"

theorem commandLabel_inj {first second : Chars} (hfirst : first ∈ groupCommands)
    (hsecond : second ∈ groupCommands) (hlabel : commandLabel first = commandLabel second) :
    first = second := by
  simp only [groupCommands, List.mem_cons, List.not_mem_nil, or_false] at hfirst hsecond
  rcases hfirst with rfl | rfl | rfl <;> rcases hsecond with rfl | rfl | rfl <;>
    first | rfl | exact absurd hlabel (by decide)

/-- The groups of a host, and the name of their setting. -/
theorem apacheGroups_eq (cmds : Dict Chars Chars) :
    (splitGroups (apacheGroups cmds).1, if (splitGroups (apacheGroups cmds).1).isSome then
      (apacheGroups cmds).2 else none) =
    ((reportedGroups cmds.get?).map Prod.fst,
      (reportedGroups cmds.get?).map (commandLabel ∘ Prod.snd)) := by
  have hsplit : ∀ (value name : Chars) (label : String), commandLabel name = label →
      (splitGroups (some value), if (splitGroups (some value)).isSome then some label else none) =
        (((splitGroups (some value)).map fun groups => (groups, name)).map Prod.fst,
          ((splitGroups (some value)).map fun groups => (groups, name)).map
            (commandLabel ∘ Prod.snd)) := by
    rintro value name _ rfl
    cases splitGroups (some value) <;> rfl
  rw [apacheGroups, reportedGroups, groupCommands]
  cases hgroups : cmds.get? "groups".toList with
  | some groups =>
      rw [List.find?_cons_of_pos (by rw [hgroups]; rfl), Option.bind_some, hgroups]
      exact hsplit groups _ _ (by decide)
  | none =>
      rw [List.find?_cons_of_neg (by rw [hgroups]; exact Bool.false_ne_true)]
      cases hcurves : cmds.get? "curves".toList with
      | some curves =>
          rw [List.find?_cons_of_pos (by rw [hcurves]; rfl), Option.bind_some, hcurves]
          exact hsplit curves _ _ (by decide)
      | none =>
          rw [List.find?_cons_of_neg (by rw [hcurves]; exact Bool.false_ne_true)]
          cases hparameters : cmds.get? "ecdhparameters".toList with
          | some parameters =>
              rw [List.find?_cons_of_pos (by rw [hparameters]; rfl), Option.bind_some, hparameters]
              exact hsplit parameters _ "SSLOpenSSLConfCmd ECDHParameters" (by decide)
          | none =>
              rw [List.find?_cons_of_neg (by rw [hparameters]; exact Bool.false_ne_true)]
              rfl

/-- Only some commands set groups. -/
theorem reportedGroups_congr {first second : Chars → Option Chars}
    (hsame : ∀ name ∈ groupCommands, first name = second name) :
    reportedGroups first = reportedGroups second := by
  have hfind : groupCommands.find? (fun name => (first name).isSome) =
      groupCommands.find? fun name => (second name).isSome :=
    List.find?_congr fun name hname => by rw [hsame name hname]
  rw [reportedGroups, reportedGroups, hfind]
  cases hname : groupCommands.find? fun name => (second name).isSome with
  | none => rfl
  | some name =>
      rw [Option.bind_some, Option.bind_some, hsame name (List.mem_of_find?_eq_some hname)]

theorem mem_groupCommands_of_reportedGroups {value : Chars → Option Chars}
    {found : List Chars × Chars} (hfound : reportedGroups value = some found) :
    found.2 ∈ groupCommands := by
  obtain ⟨name, hname, hgroups⟩ := Option.bind_eq_some_iff.mp hfound
  obtain ⟨groups, _, rfl⟩ := Option.map_eq_some_iff.mp hgroups
  exact List.mem_of_find?_eq_some hname

theorem reportedGroups_inj {first second : Chars → Option Chars}
    (hgroups : (reportedGroups first).map Prod.fst = (reportedGroups second).map Prod.fst)
    (hlabel : (reportedGroups first).map (commandLabel ∘ Prod.snd) =
      (reportedGroups second).map (commandLabel ∘ Prod.snd)) :
    reportedGroups first = reportedGroups second := by
  cases hfirst : reportedGroups first with
  | none =>
      rw [hfirst] at hgroups
      exact (Option.map_eq_none_iff.mp hgroups.symm).symm
  | some one =>
      cases hsecond : reportedGroups second with
      | none =>
          rw [hfirst, hsecond] at hgroups
          cases hgroups
      | some other =>
          rw [hfirst, hsecond] at hgroups hlabel
          have hname := commandLabel_inj (mem_groupCommands_of_reportedGroups hfirst)
            (mem_groupCommands_of_reportedGroups hsecond) (Option.some.inj hlabel)
          exact congrArg some (Prod.ext (Option.some.inj hgroups) hname)

/-- Settings of which a host reports the same. -/
structure SameReport (first second : ApacheSetting → Option Chars) : Prop where
  groups : reportedGroups (fun name => first (.command name)) =
    reportedGroups fun name => second (.command name)
  protocol : (truthy (first .protocol)).map apacheProtocols =
    (truthy (second .protocol)).map apacheProtocols
  ciphers : first .ciphers = second .ciphers
  cert : truthy (first .cert) = truthy (second .cert)
  others : ∀ name ∈ otherCommands, first (.command name) = second (.command name)

/-- **A host reports the same if and only if its settings say the same.** -/
theorem makeEndpoint_hostSettings_iff (file : String) (line : Option ℕ) (addrs : List Chars)
    (first second : ApacheSettings) :
    makeEndpoint (hostSettings file line addrs first) =
        makeEndpoint (hostSettings file line addrs second) ↔
      SameReport first.get second.get := by
  have hgroups : ∀ st : ApacheSettings, (hostSettings file line addrs st).groups =
      (reportedGroups st.confcmd.get?).map Prod.fst :=
    fun st => congrArg Prod.fst (apacheGroups_eq st.confcmd)
  have hsetting : ∀ st : ApacheSettings, (hostSettings file line addrs st).groupsSetting =
      (reportedGroups st.confcmd.get?).map (commandLabel ∘ Prod.snd) :=
    fun st => congrArg Prod.snd (apacheGroups_eq st.confcmd)
  have hof : Function.Injective String.ofList := fun _ _ => String.ofList_injective
  constructor
  · intro hsame
    refine ⟨?_, congrArg Endpoint.protocols hsame, ?_, ?_, ?_⟩
    · have hfirst : (reportedGroups first.confcmd.get?).map Prod.fst =
          (reportedGroups second.confcmd.get?).map Prod.fst := by
        rw [← hgroups, ← hgroups, ← makeEndpoint_groups rfl, hsame, makeEndpoint_groups rfl]
      have hsecond : (reportedGroups first.confcmd.get?).map (commandLabel ∘ Prod.snd) =
          (reportedGroups second.confcmd.get?).map (commandLabel ∘ Prod.snd) := by
        rw [← hsetting, ← hsetting]
        exact congrArg Endpoint.groupsSetting hsame
      exact reportedGroups_inj hfirst hsecond
    · exact Option.map_injective hof (congrArg Endpoint.ciphers hsame)
    · have hcert : ((truthy first.cert).map String.ofList).toList =
          ((truthy second.cert).map String.ofList).toList := congrArg Endpoint.certificates hsame
      have hhead := congrArg List.head? hcert
      rw [Option.head?_toList, Option.head?_toList] at hhead
      exact Option.map_injective hof hhead
    · intro name hname
      simp only [otherCommands, List.mem_cons, List.not_mem_nil, or_false] at hname
      rcases hname with rfl | rfl | rfl
      · exact congrArg Endpoint.minProtocol hsame
      · exact congrArg Endpoint.maxProtocol hsame
      · exact Option.map_injective hof (congrArg Endpoint.ciphersuites hsame)
  · intro hsame
    have hsettings : hostSettings file line addrs first =
        { hostSettings file line addrs second with
          groups := (hostSettings file line addrs first).groups
          groupsSetting := (hostSettings file line addrs first).groupsSetting
          protocols := (truthy (first.get .protocol)).map apacheProtocols
          minProtocol := first.get (.command "minprotocol".toList)
          maxProtocol := first.get (.command "maxprotocol".toList)
          ciphers := (first.get .ciphers).map String.ofList
          ciphersuites := (first.get (.command "ciphersuites".toList)).map String.ofList
          certificates := ((truthy (first.get .cert)).map String.ofList).toList } := rfl
    have hreported : reportedGroups first.confcmd.get? = reportedGroups second.confcmd.get? :=
      hsame.groups
    rw [hsettings, hgroups, hsetting, hreported, ← hgroups, ← hsetting, hsame.protocol,
      hsame.ciphers, hsame.cert, hsame.others _ (by decide), hsame.others _ (by decide),
      hsame.others _ (by decide)]
    rfl

/-! ## A default and a host -/

/-- When two defaults are the same to a host. -/
theorem endpointsAt_eq_iff (file : String) (line : Option ℕ) (block : HostBlock)
    (first second : ApacheSettings) :
    endpointsAt file line (first, block) = endpointsAt file line (second, block) ↔
      engineOn ((block.settings.overriding first).get .engine) =
          engineOn ((block.settings.overriding second).get .engine) ∧
        (engineOn ((block.settings.overriding second).get .engine) = true →
          SameReport (block.settings.overriding first).get (block.settings.overriding second).get) := by
  rw [← makeEndpoint_hostSettings_iff file line block.addrs]
  have hat : ∀ globals, endpointsAt file line (globals, block) =
      if engineOn ((block.settings.overriding globals).get .engine) then
        [makeEndpoint (hostSettings file line block.addrs (block.settings.overriding globals))]
      else [] := fun _ => rfl
  rw [hat, hat]
  cases engineOn ((block.settings.overriding first).get .engine) <;>
    cases engineOn ((block.settings.overriding second).get .engine) <;> simp

section Change

variable (globals own : ApacheSettings)

/-- The settings of a host under a default that is replaced. -/
def changed (setting : ApacheSetting) (value : Chars) (other : ApacheSetting) : Option Chars :=
  (own.get other).or (if other = setting then some value else globals.get other)

variable {globals own} {setting : ApacheSetting} {value : Chars}

theorem changed_of_ne {other : ApacheSetting} (hne : other ≠ setting) :
    changed globals own setting value other = (own.overriding globals).get other := by
  rw [changed, if_neg hne, get_overriding]

theorem changed_self (hown : own.get setting = none) :
    changed globals own setting value setting = some value := by
  rw [changed, if_pos rfl, hown]
  rfl

theorem changed_of_own (hown : (own.get setting).isSome) :
    changed globals own setting value = (own.overriding globals).get := by
  funext other
  by_cases hne : other = setting
  · obtain ⟨own', hown'⟩ := Option.isSome_iff_exists.mp hown
    rw [changed, get_overriding, hne, hown']
    rfl
  · exact changed_of_ne hne

/-- What a host reports under the default, where it has no value of its own. -/
theorem sameReport_changed_iff (hown : own.get setting = none) (hengine : setting ≠ .engine) :
    SameReport (changed globals own setting value) (own.overriding globals).get ↔
      SameDefault globals own setting value := by
  have hself : changed globals own setting value setting = some value := changed_self hown
  have hold : (own.overriding globals).get setting = globals.get setting := by
    rw [get_overriding, hown]
    rfl
  have hothers : ∀ other, other ≠ setting →
      changed globals own setting value other = (own.overriding globals).get other :=
    fun other hne => changed_of_ne hne
  cases setting with
  | engine => exact absurd rfl hengine
  | protocol =>
      constructor
      · intro hsame
        have hprotocol := hsame.protocol
        rwa [hself, hold] at hprotocol
      · intro hsame
        refine ⟨?_, ?_, hothers _ (by rintro ⟨⟩), ?_, fun name _ => hothers _ (by rintro ⟨⟩)⟩
        · exact congrArg reportedGroups (funext fun name => hothers _ (by rintro ⟨⟩))
        · rw [hself, hold]
          exact hsame
        · rw [hothers .cert (by rintro ⟨⟩)]
  | ciphers =>
      constructor
      · intro hsame
        have hciphers := hsame.ciphers
        rw [hself, hold] at hciphers
        exact hciphers.symm
      · intro hsame
        refine ⟨?_, ?_, ?_, ?_, fun name _ => hothers _ (by rintro ⟨⟩)⟩
        · exact congrArg reportedGroups (funext fun name => hothers _ (by rintro ⟨⟩))
        · rw [hothers .protocol (by rintro ⟨⟩)]
        · rw [hself, hold]
          exact hsame.symm
        · rw [hothers .cert (by rintro ⟨⟩)]
  | cert =>
      constructor
      · intro hsame
        have hcert := hsame.cert
        rwa [hself, hold] at hcert
      · intro hsame
        refine ⟨?_, ?_, hothers _ (by rintro ⟨⟩), ?_, fun name _ => hothers _ (by rintro ⟨⟩)⟩
        · exact congrArg reportedGroups (funext fun name => hothers _ (by rintro ⟨⟩))
        · rw [hothers .protocol (by rintro ⟨⟩)]
        · rw [hself, hold]
          exact hsame
  | command name =>
      have hgroups : (fun other => changed globals own (.command name) value (.command other)) =
          fun other => (own.confcmd.get? other).or
            (if other = name then some value else globals.confcmd.get? other) := by
        funext other
        rw [changed]
        simp only [ApacheSetting.command.injEq]
        rfl
      have hcurrent : (fun other => (own.overriding globals).get (.command other)) =
          fun other => (own.confcmd.get? other).or (globals.confcmd.get? other) :=
        funext fun other => get_overriding own globals (.command other)
      have hname : ∀ other, other ≠ name →
          changed globals own (.command name) value (.command other) =
            (own.overriding globals).get (.command other) :=
        fun other hne => hothers _ fun h => hne (ApacheSetting.command.inj h)
      -- What is not a command stays, so this is about the groups and the other commands.
      have hcommands : SameReport (changed globals own (.command name) value)
          (own.overriding globals).get ↔
          reportedGroups (fun other => changed globals own (.command name) value (.command other)) =
              reportedGroups (fun other => (own.overriding globals).get (.command other)) ∧
            ∀ other ∈ otherCommands, changed globals own (.command name) value (.command other) =
              (own.overriding globals).get (.command other) := by
        constructor
        · intro hsame
          exact ⟨hsame.groups, hsame.others⟩
        · rintro ⟨hsame, hrest⟩
          refine ⟨hsame, ?_, hothers _ (by rintro ⟨⟩), ?_, hrest⟩
          · rw [hothers .protocol (by rintro ⟨⟩)]
          · rw [hothers .cert (by rintro ⟨⟩)]
      have hdisjoint : ∀ other ∈ otherCommands, other ∉ groupCommands := by decide
      rw [hcommands, SameDefault]
      by_cases hother : name ∈ otherCommands
      · rw [if_pos hother]
        constructor
        · rintro ⟨_, hrest⟩
          have hsame := hrest name hother
          rw [hself, hold] at hsame
          exact hsame.symm
        · intro hsame
          refine ⟨reportedGroups_congr fun other hmem => ?_, fun other _ => ?_⟩
          · exact hname other fun h => hdisjoint name hother (h ▸ hmem)
          · by_cases hne : other = name
            · rw [hne, hself, hold]
              exact hsame.symm
            · exact hname other hne
      · have hrest : ∀ other ∈ otherCommands,
            changed globals own (.command name) value (.command other) =
              (own.overriding globals).get (.command other) :=
          fun other hmem => hname other fun h => hother (h ▸ hmem)
        rw [if_neg hother, and_iff_left hrest]
        by_cases hgroup : name ∈ groupCommands
        · rw [if_pos hgroup, hgroups, hcurrent]
        · rw [if_neg hgroup]
          refine iff_of_true (reportedGroups_congr fun other hmem => ?_) trivial
          exact hname other fun h => hgroup (h ▸ hmem)

/-- **When a host does not need a default.** -/
theorem endpointsAt_readLine_iff {line : Chars} {block : HostBlock}
    (hline : assignment line = some (setting, value)) (file : String) (number : Option ℕ) :
    endpointsAt file number (globals.readLine line, block) =
        endpointsAt file number (globals, block) ↔
      Indifferent globals block.settings setting value := by
  have hget : (block.settings.overriding (globals.readLine line)).get =
      changed globals block.settings setting value := by
    funext other
    rw [get_overriding, get_readLine, hline]
    rfl
  rw [endpointsAt_eq_iff, hget, Indifferent]
  cases hown : block.settings.get setting with
  | some own =>
      rw [changed_of_own (by rw [hown]; rfl)]
      refine iff_of_true ⟨rfl, fun _ => ⟨rfl, rfl, rfl, rfl, fun _ _ => rfl⟩⟩ (Or.inl rfl)
  | none =>
      rw [Option.isSome_none, or_iff_right Bool.false_ne_true]
      have hengine : (block.settings.overriding globals).get .engine =
          block.settings.engine.or globals.engine := rfl
      by_cases hsetting : setting = .engine
      · subst hsetting
        have hold : (block.settings.overriding globals).get .engine = globals.engine := by
          rw [get_overriding, hown]
          rfl
        have hsame : SameReport (changed globals block.settings .engine value)
            (block.settings.overriding globals).get := by
          have hothers : ∀ other, other ≠ .engine →
              changed globals block.settings .engine value other =
                (block.settings.overriding globals).get other := fun other hne => changed_of_ne hne
          refine ⟨?_, ?_, hothers _ nofun, ?_, fun name _ => hothers _ nofun⟩
          · exact congrArg reportedGroups (funext fun name => hothers _ nofun)
          · rw [hothers .protocol nofun]
          · rw [hothers .cert nofun]
        rw [changed_self hown, hold, and_iff_left fun _ => hsame]
        exact (or_iff_right fun h => h.1 rfl).symm
      · rw [changed_of_ne (Ne.symm hsetting), eq_self, true_and,
          sameReport_changed_iff hown hsetting, hengine, and_iff_right hsetting]
        cases engineOn (block.settings.engine.or globals.engine) <;> simp

/-- A line that sets nothing. -/
theorem endpointsAt_readLine_of_none {line : Chars} (hline : assignment line = none)
    (block : HostBlock) (file : String) (number : Option ℕ) :
    endpointsAt file number (globals.readLine line, block) =
      endpointsAt file number (globals, block) := by
  have hget : (block.settings.overriding (globals.readLine line)).get =
      (block.settings.overriding globals).get := by
    funext other
    rw [get_overriding, get_readLine, hline, get_overriding]
    rfl
  rw [endpointsAt_eq_iff, hget]
  exact ⟨rfl, fun _ => ⟨rfl, rfl, rfl, rfl, fun _ _ => rfl⟩⟩

end Change

/-! ## A move -/

/-- A line lets no host appear if it lets one disappear. -/
theorem length_endpointsAt_readLine {globals : ApacheSettings} {line : Chars}
    {setting : ApacheSetting} {value : Chars} (hline : assignment line = some (setting, value)) :
    (∀ block, (endpointsAt "" none (globals, block)).length ≤
        (endpointsAt "" none (globals.readLine line, block)).length) ∨
      ∀ block, (endpointsAt "" none (globals.readLine line, block)).length ≤
        (endpointsAt "" none (globals, block)).length := by
  have hlength : ∀ globals block, (endpointsAt "" none (globals, block)).length =
      if engineOn ((block.settings.overriding globals).get .engine) then 1 else 0 := by
    intro globals block
    rw [endpointsAt]
    split
    · next hon => exact (if_pos hon).symm
    · next hoff => exact (if_neg hoff).symm
  have hengine : ∀ block : HostBlock, (block.settings.overriding (globals.readLine line)).get .engine =
      changed globals block.settings setting value .engine := by
    intro block
    rw [get_overriding, get_readLine, hline]
    rfl
  by_cases hsetting : setting = .engine
  · subst hsetting
    cases hon : engineOn (some value) with
    | true =>
        refine Or.inl fun block => ?_
        rw [hlength, hlength, hengine]
        cases hown : block.settings.get .engine with
        | some own => rw [changed_of_own (by rw [hown]; rfl)]
        | none =>
            rw [changed_self hown, if_pos hon]
            split <;> decide
    | false =>
        refine Or.inr fun block => ?_
        rw [hlength, hlength, hengine]
        cases hown : block.settings.get .engine with
        | some own => rw [changed_of_own (by rw [hown]; rfl)]
        | none =>
            rw [changed_self hown, if_neg (by rw [hon]; exact Bool.false_ne_true)]
            exact Nat.zero_le _
  · refine Or.inl fun block => ?_
    rw [hlength, hlength, hengine, changed_of_ne (Ne.symm hsetting)]

/-- Hosts that are passed report the same if and only if none of them needs the setting. -/
theorem unplacedEndpoints_readLine_iff {globals : ApacheSettings} {line : Chars}
    {blocks : List HostBlock} :
    unplacedEndpoints (blocks.map (globals.readLine line, ·)) =
        unplacedEndpoints (blocks.map (globals, ·)) ↔
      ∀ setting value, assignment line = some (setting, value) → ∀ block ∈ blocks,
        Indifferent globals block.settings setting value := by
  rw [unplacedEndpoints, unplacedEndpoints, List.flatMap_map, List.flatMap_map]
  cases hline : assignment line with
  | none =>
      have hsame : ∀ block, endpointsAt "" none (globals.readLine line, block) =
          endpointsAt "" none (globals, block) :=
        fun block => endpointsAt_readLine_of_none hline block "" none
      exact iff_of_true (congrArg (blocks.flatMap ·) (funext hsame)) nofun
  | some change =>
      obtain ⟨setting, value⟩ := change
      have hindifferent : (∀ block ∈ blocks, endpointsAt "" none (globals.readLine line, block) =
          endpointsAt "" none (globals, block)) ↔
            ∀ block ∈ blocks, Indifferent globals block.settings setting value :=
        forall₂_congr fun block _ => endpointsAt_readLine_iff hline "" none
      have hsame :
          blocks.flatMap (fun block => endpointsAt "" none (globals.readLine line, block)) =
          blocks.flatMap (fun block => endpointsAt "" none (globals, block)) ↔
            ∀ block ∈ blocks, endpointsAt "" none (globals.readLine line, block) =
              endpointsAt "" none (globals, block) := by
        rcases @length_endpointsAt_readLine globals _ _ _ hline with hle | hle
        · rw [eq_comm, flatMap_eq_iff_of_length_le fun block _ => hle block]
          exact forall₂_congr fun _ _ => eq_comm
        · exact flatMap_eq_iff_of_length_le fun block _ => hle block
      rw [hsame, hindifferent]
      constructor
      · rintro hall _ _ hchange
        cases hchange
        exact hall
      · intro hall
        exact hall setting value rfl

/-- Hosts that report the same at every place. -/
theorem placedEndpoints_congr {first second : List (ApacheSettings × HostBlock)}
    (hsame : List.Forall₂ (fun one other => ∀ file line,
      endpointsAt file line one = endpointsAt file line other) first second)
    (places : List (String × ℕ)) :
    placedEndpoints places first = placedEndpoints places second := by
  induction hsame generalizing places with
  | nil => rfl
  | cons hfirst _ ih =>
      cases places with
      | nil => rfl
      | cons place places =>
          rw [placedEndpoints, placedEndpoints, List.zip_cons_cons, List.zip_cons_cons,
            List.flatMap_cons, List.flatMap_cons, hfirst]
          exact congrArg _ (ih places)

/-- **Moving a setting past hosts changes no endpoint if and only if none of these hosts needs
it.** -/
theorem placement_iff (move : Move) : move.Unchanged ↔ move.Harmless := by
  obtain ⟨front, setting, passed, rest, early, late, _, order, early_lines, late_lines⟩ := move
  have hearly : hostsOf {} (front ++ .line setting :: (passed ++ rest)) =
      hostsOf {} front ++
        ((blocksOf passed).map ((globalsAfter {} front).readLine setting.text, ·) ++
          hostsOf ((globalsAfter {} front).readLine setting.text) rest) := by
    obtain ⟨hhosts, hglobals⟩ := hostsOf_of_no_setting order
      ((globalsAfter {} front).readLine setting.text)
    rw [hostsOf_append, hostsOf, hostsOf_append, hhosts, hglobals]
  have hlate : hostsOf {} (front ++ (passed ++ .line setting :: rest)) =
      hostsOf {} front ++ ((blocksOf passed).map (globalsAfter {} front, ·) ++
        hostsOf ((globalsAfter {} front).readLine setting.text) rest) := by
    obtain ⟨hhosts, hglobals⟩ := hostsOf_of_no_setting order (globalsAfter {} front)
    rw [hostsOf_append, hostsOf_append, hhosts, hglobals, hostsOf]
  have hharmless : (∀ name value, assignment setting.text = some (name, value) →
      ∀ block ∈ blocksOf passed,
        Indifferent (globalsAfter {} front) block.settings name value) ↔
      Move.Harmless ⟨front, setting, passed, rest, early, late, ‹_›, order, early_lines,
        late_lines⟩ :=
    forall₃_congr fun _ _ _ => forall_congr' fun _ => by rw [mem_blocksOf]
  have hunplaced : early.endpoints.map Endpoint.unplaced = late.endpoints.map Endpoint.unplaced ↔
      ∀ name value, assignment setting.text = some (name, value) → ∀ block ∈ blocksOf passed,
        Indifferent (globalsAfter {} front) block.settings name value := by
    rw [← unplacedEndpoints_readLine_iff, map_unplaced_endpoints early_lines,
      map_unplaced_endpoints late_lines, hearly, hlate]
    simp only [unplacedEndpoints, List.flatMap_append, List.append_cancel_left_eq,
      List.append_cancel_right_eq]
  rw [Move.Unchanged, ← hharmless, hunplaced]
  refine and_iff_left_of_imp fun hindifferent hplaces => ?_
  rw [endpoints_eq early_lines, endpoints_eq late_lines, hplaces, hearly, hlate]
  have hrefl : ∀ hosts : List (ApacheSettings × HostBlock), List.Forall₂ (fun one other =>
      ∀ file line, endpointsAt file line one = endpointsAt file line other) hosts hosts :=
    fun hosts => List.forall₂_same.mpr fun _ _ _ _ => rfl
  refine placedEndpoints_congr (List.rel_append (hrefl _) (List.rel_append ?_ (hrefl _))) _
  rw [List.forall₂_map_left_iff, List.forall₂_map_right_iff, List.forall₂_same]
  intro block hblock file line
  cases hline : assignment setting.text with
  | none => exact endpointsAt_readLine_of_none hline block file line
  | some change =>
      exact (endpointsAt_readLine_iff hline file line).mpr
        (hindifferent change.1 change.2 hline block hblock)

/-- A site of one file. -/
def fileSite (text : String) : ApacheSite :=
  ⟨"/etc/httpd/conf/httpd.conf", "/etc/httpd", ⟨fun _ => some text.toList, fun _ => []⟩⟩

/-- Groups in front of a host or behind it. -/
def groupsMove : Move where
  front := []
  setting := ⟨"SSLOpenSSLConfCmd Groups X25519MLKEM768".toList, by decide, by decide⟩
  passed := [.host ⟨"<VirtualHost *:443>".toList, [⟨"SSLEngine on".toList, by decide, by decide⟩],
    "</VirtualHost>".toList, by decide, by decide⟩]
  rest := []
  early := fileSite ("SSLOpenSSLConfCmd Groups X25519MLKEM768\n" ++
    "<VirtualHost *:443>\nSSLEngine on\n</VirtualHost>\n")
  late := fileSite ("<VirtualHost *:443>\nSSLEngine on\n</VirtualHost>\n" ++
    "SSLOpenSSLConfCmd Groups X25519MLKEM768\n")
  isSetting := by
    rw [PlainLine.IsSetting]
    decide
  order := by
    intro line hline
    cases List.mem_singleton.mp hline
  early_lines := by decide +kernel
  late_lines := by decide +kernel

/-- The host does not get the groups that stand behind it. -/
theorem not_unchanged_groupsMove : ¬ groupsMove.Unchanged := by
  rintro ⟨hunplaced, _⟩
  have hgroups := congrArg (List.map Endpoint.groups) hunplaced
  rw [List.map_map, List.map_map] at hgroups
  exact absurd hgroups (by decide +kernel)

end PqcReadiness.Config
