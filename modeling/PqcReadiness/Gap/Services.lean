import PqcReadiness.Gap.Protocols

/-!
# The verdict of each listening service

`_services` walks the listening sockets of a report, skips those without a
process or without a crypto library, judges the others and collapses those that
agree on process, protocol, port and state into one item.  The loop is
`serviceStep`, folded over the listeners with their positions.

A listener's judgement is `judge`.  Its state and whether the service decides
its own configuration do not depend on where in the list the listener stands;
only the evidence paths do.
-/

namespace PqcReadiness.Gap

open Lib

/-! ## What a listening process can do -/

/-- The result of `listener_capability`. -/
structure Capability where
  cryptoFamilies : List String
  libraryPqcCapable : Option Bool
  goDefaultHybrid : Bool

/-- Duplicate-free and sorted, as `sorted({...})`. -/
def sortedSet (texts : List String) : List String := sortedBy id texts.dedup

/-- The library families a process maps. -/
def libraryFamilies (libs : List CryptoLibrary) : List String :=
  sortedSet (libs.filterMap fun lib => lib.family.filter (· ≠ ""))

/-- Whether a Go binary's crypto/tls default is a hybrid that GODEBUG does not
revert. -/
def goCapable (go : GoBuild) : Bool :=
  orEmpty go.defaultHybridKex ≠ "" && !("tlsmlkem" ∈ go.godebugReverts)

/-- PQC capability of the crypto a listening process maps. -/
def listenerCapability (listener : Listener) : Capability :=
  let flags := listener.cryptoLibraries.map CryptoLibrary.libraryPqcCapable
  let go := listener.go.map goCapable
  { cryptoFamilies :=
      libraryFamilies listener.cryptoLibraries ++ if listener.go.isSome then ["go"] else []
    libraryPqcCapable :=
      if some true ∈ flags ∨ go = some true then some true
      else if (flags ≠ [] ∧ flags.all (· == some false)) ∨ go = some false then some false
      else none
    goDefaultHybrid := go.getD false }

/-! ## A service's own TLS configuration -/

/-- `SERVICE_PROCESSES`. -/
def serviceProcesses : List (String × List String) :=
  [("nginx", ["nginx"]),
    ("apache", ["httpd", "apache2", "httpd-prefork", "httpd-worker", "httpd-event"]),
    ("haproxy", ["haproxy"]),
    ("stunnel", ["stunnel", "stunnel4"]),
    ("squid", ["squid"]),
    ("postfix", ["master", "smtpd"]),
    ("dovecot", ["dovecot", "imap-login", "pop3-login", "submission-login"]),
    ("postgresql", ["postgres", "postmaster"]),
    ("mysql", ["mariadbd", "mysqld"]),
    ("redis", ["redis-server", "valkey-server"]),
    ("openldap", ["slapd"]),
    ("389-ds", ["ns-slapd"]),
    ("tomcat", ["java"])]

/-- `SERVICE_EXE_HINTS`. -/
def serviceExeHints : List (String × List String) :=
  [("postfix", ["/postfix/"]), ("tomcat", ["java", "jre", "jdk"])]

/-- The service a listening process belongs to. -/
def serviceForListener (listener : Listener) : Option String :=
  let exe := orEmpty listener.exe
  let unit := orEmpty listener.systemdUnit
  serviceProcesses.findSome? fun (name, processes) =>
    if orEmpty listener.process ∉ processes then none
    -- Process names such as `master` or `java` are not enough.
    else if ((find name serviceExeHints).getD []) ≠ [] ∧
        !((find name serviceExeHints).getD []).any (containsSub · exe) then none
    else if name = "tomcat" ∧ !containsSub "tomcat" unit then none
    else some name

/-- The report path of a configured endpoint. -/
def endpointPath (i j : ℕ) : String :=
  "service_tls_config.services[" ++ toString i ++ "].endpoints[" ++ toString j ++ "]"

/-- The configured endpoint serving a listener: same service and a matching
port. -/
def endpointForListener (stc : ServiceTlsConfig) (listener : Listener) :
    Option (String × TlsEndpoint) :=
  match serviceForListener listener with
  | none => none
  | some name =>
      if !stc.available then none
      else stc.services.zipIdx.findSome? fun (svc, i) =>
        if svc.service ≠ name then none
        else svc.endpoints.zipIdx.findSome? fun (ep, j) =>
          if ep.role = .server ∧ ∃ port ∈ ep.ports, listener.port = some port then
            some (endpointPath i j, ep)
          else none

/-! ## The judgement of one listener -/

/-- Does a listener speak SSH or TLS? -/
inductive ServiceKind where
  | tls
  | ssh
  deriving DecidableEq

/-- `_SSH_DAEMONS`. -/
def sshDaemons : List String := ["sshd", "sshd-session", "sshd-auth"]

/-- `_service_kind`. -/
def serviceKind (listener : Listener) : ServiceKind :=
  if orEmpty listener.process ∈ sshDaemons ∨
      afterLastChar '/' (orEmpty listener.exe) ∈ sshDaemons then .ssh
  else .tls

/-- The host's verdict for the protocol a service speaks. -/
def Protocols.ofKind (protocols : Protocols) : ServiceKind → Verdict
  | .tls => protocols.tls
  | .ssh => protocols.ssh

/-- The report path of a listener. -/
def listenerPath (i : ℕ) : String :=
  "service_crypto_linkage.listeners[" ++ toString i ++ "]"

/-- What `_services` finds out about one listener. -/
structure Judgement where
  kind : ServiceKind
  verdict : Verdict
  ownDefault : Bool
  serviceConfig : Option String

/-- The body of the loop of `_services`, up to the verdict. -/
def judge (report : Report) (protocols : Protocols) (i : ℕ) (listener : Listener) : Judgement :=
  match serviceKind listener with
  | .ssh => ⟨.ssh, protocols.ssh, false, none⟩
  | .tls =>
      let cap := listenerCapability listener
      let ownConfig := endpointForListener report.serviceTlsConfig listener
      let capFrom := [listenerPath i ++ ".crypto_libraries"] ++
        (if listener.go.isSome then [listenerPath i ++ ".go"] else []) ++
        (if listener.cryptoLibrariesFrom then [listenerPath i ++ ".crypto_libraries_from"] else [])
      let hostDefault : Judgement :=
        ⟨.tls, verdict cap.libraryPqcCapable (tlsConfigured report).1 capFrom
          ((tlsConfigured report).2 ++ (ownConfig.map Prod.fst).toList) none true,
          false, ownConfig.map Prod.fst⟩
      if cap.goDefaultHybrid then
        -- Go's crypto/tls ignores the system policy: its default is the configuration.
        ⟨.tls, verdict cap.libraryPqcCapable (some true) capFrom [listenerPath i ++ ".go"] none true,
          true, ownConfig.map Prod.fst⟩
      else
        match ownConfig with
        | none => hostDefault
        | some (path, ep) =>
            match ep.pqcKeyExchange with
            | none => hostDefault
            | some configured =>
                -- The service's own settings win over the system policy.
                if ep.serviceSupportsPqcGroups = some false then
                  ⟨.tls, verdict (some false) (some configured) (capFrom ++ [path]) [path] none true,
                    true, some path⟩
                else
                  ⟨.tls, verdict cap.libraryPqcCapable (some configured) capFrom [path] none true,
                    true, some path⟩

/-! ## Collapsing the listeners -/

/-- What the listeners of one item agree on. -/
structure ServiceKey where
  process : Option String
  protocol : Option Transport
  port : Option ℤ
  state : State
  deriving DecidableEq

/-- One entry of `services.items`. -/
structure ServiceItem where
  process : Option String
  systemdUnits : List String
  protocol : Option Transport
  port : Option ℤ
  kind : ServiceKind
  cryptoFamilies : List String
  verdict : Verdict
  followsHostDefault : Bool
  listeners : List String
  serviceConfig : Option String

/-- The state of an item. -/
abbrev ServiceItem.state (item : ServiceItem) : State := item.verdict.state

/-- The accumulators of the loop. -/
structure ServicesState where
  items : Dict ServiceKey ServiceItem := Dict.empty
  noCrypto : ℕ := 0
  unattributed : ℕ := 0

/-- The key a judged listener is filed under. -/
def serviceKey (listener : Listener) (judged : Judgement) : ServiceKey :=
  ⟨listener.process, listener.protocol, listener.port, judged.verdict.state⟩

/-- The item the first listener of a key opens. -/
def newItem (protocols : Protocols) (i : ℕ) (listener : Listener) (judged : Judgement) :
    ServiceItem where
  process := listener.process
  systemdUnits := (listener.systemdUnit.filter (· ≠ "")).toList
  protocol := listener.protocol
  port := listener.port
  kind := judged.kind
  cryptoFamilies := (listenerCapability listener).cryptoFamilies
  verdict := judged.verdict
  -- Many daemons map a TLS library without speaking TLS on the port, so only a
  -- service that differs from its host says something of its own.
  followsHostDefault :=
    !judged.ownDefault && judged.verdict.state = (protocols.ofKind judged.kind).state
  listeners := [listenerPath i]
  serviceConfig := judged.serviceConfig

/-- What a further listener of the key adds to its item. -/
def ServiceItem.addListener (item : ServiceItem) (i : ℕ) (listener : Listener) : ServiceItem :=
  { item with
    listeners := item.listeners ++ [listenerPath i]
    systemdUnits :=
      match listener.systemdUnit.filter (· ≠ "") with
      | none => item.systemdUnits
      | some unit =>
          if unit ∈ item.systemdUnits then item.systemdUnits else item.systemdUnits ++ [unit] }

/-- One turn of the loop of `_services`. -/
def serviceStep (report : Report) (protocols : Protocols) (state : ServicesState)
    (entry : Listener × ℕ) : ServicesState :=
  let (listener, i) := entry
  if orEmpty listener.process = "" then { state with unattributed := state.unattributed + 1 }
  else if (listenerCapability listener).cryptoFamilies = [] then
    { state with noCrypto := state.noCrypto + 1 }
  else
    let judged := judge report protocols i listener
    { state with
      items := state.items.update (serviceKey listener judged) fun
        | some item => item.addListener i listener
        | none => newItem protocols i listener judged }

/-- The loop of `_services` over the listeners with their positions. -/
def serviceLoop (report : Report) (protocols : Protocols) (state : ServicesState)
    (entries : List (Listener × ℕ)) : ServicesState :=
  entries.foldl (serviceStep report protocols) state

/-- The `services` member of the verdict. -/
structure Services where
  items : List ServiceItem
  byState : List (String × ℕ)
  differingFromHost : ℕ
  listenersWithoutCryptoLibrary : ℕ
  listenersUnattributed : ℕ

/-- The sort key of an item. -/
def ServiceItem.sortKey (item : ServiceItem) : String ×ₗ ℤ ×ₗ String :=
  toLex (optionText item.process,
    toLex (item.port.getD 0, optionText (item.protocol.map Transport.name)))

/-- What `_services` returns for the accumulators of its loop. -/
def summarise (state : ServicesState) : Services :=
  let items := sortedBy ServiceItem.sortKey state.items.values
  { items := items
    byState := (Dict.tally (items.map fun item => (item.state.name, 1))).sortedItems
    differingFromHost := items.countP fun item => !item.followsHostDefault
    listenersWithoutCryptoLibrary := state.noCrypto
    listenersUnattributed := state.unattributed }

/-- `_services`: nothing when no service scan ran. -/
def services (report : Report) (protocols : Protocols) : Option Services :=
  if report.serviceCryptoLinkage.available then
    some (summarise
      (serviceLoop report protocols {} report.serviceCryptoLinkage.listeners.zipIdx))
  else none

end PqcReadiness.Gap
