import PqcReadiness.Gap.Clients

/-!
# Findings about listening services

`_service_findings` turns the service scan of a report into findings for code scanning: a service
that maps a library without ML-KEM (`pqc-011`), a Go service whose default is not the standard
hybrid (`pqc-012`), and a service whose libraries say nothing either way (`pqc-018`).

A scanned listener has members that the verdict does not read (`ScannedListener`); the report that
the verdict is about keeps the others.
-/

namespace PqcReadiness.Gap

open Lib

/-! ## Scanned listeners -/

/-- `container_identity`. -/
structure ContainerIdentity where
  runtime : Option String := none
  id : Option String := none
  podUid : Option String := none
  podNamespace : Option String := none
  podName : Option String := none
  containerName : Option String := none

/-- A listener with all that the findings read of it. -/
structure ScannedListener extends Listener where
  family : Option String := none
  container : Option ContainerIdentity := none
  /-- `go.main_module`. -/
  goMainModule : Option String := none

/-- A report with its service scan. -/
structure ScannedReport where
  /-- The other sections. -/
  rest : Report := {}
  available : Bool := false
  listeners : List ScannedListener := []

/-- The report that the verdict is about. -/
def ScannedReport.toReport (scanned : ScannedReport) : Report :=
  { scanned.rest with
    serviceCryptoLinkage :=
      ⟨scanned.available, scanned.listeners.map ScannedListener.toListener⟩ }

/-! ## Findings -/

/-- The level of a finding. -/
inductive Level where
  | error
  | warning
  | note
  deriving DecidableEq

/-- A finding. -/
structure Finding where
  ruleId : String
  level : Level
  message : String
  properties : List (String × Json)
  subject : String

/-- `pqc-011`. -/
def libraryRule : String := "pqc-011-service-crypto-library-without-pqc"

/-- `pqc-012`. -/
def goRule : String := "pqc-012-go-service-without-hybrid-mlkem"

/-- `_UNDETERMINED`. -/
def undeterminedRule : String := "pqc-018-pqc-capability-undetermined"

/-- `_undetermined`. -/
def undetermined (subject what : String) (props : List (String × Json)) : Finding where
  ruleId := undeterminedRule
  level := .note
  message := "Cannot tell whether " ++ what ++ " can do post-quantum cryptography."
  properties := props
  subject := subject

/-! ## Who listens -/

/-- A text, or nothing for an empty one. -/
def nonempty (text : Option String) : Option String := text.filter (· ≠ "")

/-- `_listener_subject`. -/
def listenerSubject (listener : ScannedListener) : String :=
  let exe := ((nonempty listener.exe).or (nonempty listener.process)).getD "unattributed"
  "service:" ++ optionText (listener.protocol.map Transport.name) ++ "/" ++
    optionText listener.family ++ "/" ++ optionText (listener.port.map toString) ++ ":" ++ exe

/-- `_process_name`; the kernel cuts names at 15 characters. -/
def processName (listener : ScannedListener) : Option String :=
  let comm := orEmpty listener.process
  let exe := afterLastChar '/' (orEmpty listener.exe)
  if comm.toList.length = 15 ∧ startsWith comm exe then some exe
  else (nonempty listener.process).or (nonempty (some exe))

/-- `container_label`. -/
def containerLabel (container : ContainerIdentity) (name : String) : String :=
  match nonempty container.podName with
  | some pod => name ++ " (pod " ++ optionText container.podNamespace ++ "/" ++ pod ++ ")"
  | none =>
      name ++ " (container " ++ String.ofList ((optionText container.id).toList.take 12) ++ ")"

/-- `_listener_who`. -/
def listenerWho (listener : ScannedListener) : String :=
  match listener.container with
  | some container =>
      containerLabel container
        (((nonempty container.containerName).or (processName listener)).getD "process")
  | none =>
      ((nonempty listener.systemdUnit).or (processName listener)).getD "unattributed process"

/-- `_listener_label`. -/
def listenerLabel (listener : ScannedListener) : String :=
  let addr := (nonempty listener.address).getD "?"
  let addr := if containsSub ":" addr then "[" ++ addr ++ "]" else addr
  listenerWho listener ++ " on " ++ optionText (listener.protocol.map Transport.name) ++ " " ++
    addr ++ ":" ++ optionText (listener.port.map toString)

/-- An optional text as a member. -/
def textMember (text : Option String) : Json := (text.map Json.str).getD .null

/-- The name of a network namespace. -/
def namespaceName : NetworkNamespace → String
  | .host => "host"
  | .other => "other"

/-- What `_listener_props` adds for a container. -/
def containerProps (container : ContainerIdentity) : List (String × Json) :=
  [("service:container_runtime", textMember container.runtime),
    ("service:container_id", textMember container.id),
    ("service:pod_uid", textMember container.podUid),
    ("service:pod_namespace", textMember container.podNamespace),
    ("service:pod_name", textMember container.podName),
    ("service:container_name", textMember container.containerName)]

/-- `_listener_props`. -/
def listenerProps (listener : ScannedListener) : List (String × Json) :=
  [("service:protocol", textMember (listener.protocol.map Transport.name)),
    ("service:address", textMember listener.address),
    ("service:port", (listener.port.map Json.int).getD .null),
    ("service:process", textMember listener.process),
    ("service:exe", textMember listener.exe),
    ("service:systemd_unit", textMember listener.systemdUnit),
    ("service:network_namespace", textMember (listener.networkNamespace.map namespaceName))] ++
    (listener.container.map containerProps).getD []

/-! ## The findings of one listener -/

/-- The libraries with this verdict, each with its evidence. -/
def withVerdict (probes : List (String × LibraryProbe)) (libs : List CryptoLibrary)
    (capable : Option Bool) : List (CryptoLibrary × String) :=
  (libs.filter fun lib => (libraryCapable lib probes).1 = capable).map fun lib =>
    (lib, (libraryCapable lib probes).2)

/-- A library in the message of `pqc-011`. -/
def failingName (lib : CryptoLibrary × String) : String :=
  optionText lib.1.family ++ " " ++
    (nonempty lib.1.version).getD
      (if lib.2 = "soname" then "1.x (from soname)" else "(unknown version)")

/-- A library in its properties. -/
def failingMember (lib : CryptoLibrary × String) : Json :=
  .obj [("family", textMember lib.1.family), ("version", textMember lib.1.version),
    ("path", textMember lib.1.path), ("evidence", .str lib.2)]

/-- The finding about the libraries, if there is one. -/
def libraryFinding (probes : List (String × LibraryProbe)) (listener : ScannedListener) :
    Option Finding :=
  let failing := withVerdict probes listener.cryptoLibraries (some false)
  let unknown := withVerdict probes listener.cryptoLibraries none
  if failing ≠ [] then
    some {
      ruleId := libraryRule
      level := .warning
      message := listenerLabel listener ++ " uses " ++ join ", " (failing.map failingName) ++
        ", which has no ML-KEM hybrid key exchange; its connections stay classical."
      properties := listenerProps listener ++
        [("service:crypto_libraries", .arr (failing.map failingMember))]
      subject := listenerSubject listener }
  else if unknown ≠ [] then
    some (undetermined (listenerSubject listener)
      (listenerLabel listener ++ " (crypto library " ++
        join ", " (unknown.map fun lib =>
          optionText lib.1.family ++ " " ++ (nonempty lib.1.version).getD "?") ++
        ": no verified PQC threshold for this library/version)")
      (listenerProps listener))
  else none

/-- The default that `pqc-012` does not report. -/
def standardHybrid : String := "X25519MLKEM768"

/-- `why`. -/
def goReason (go : GoBuild) : String :=
  let needed := join "." (goMlkemDefaultVersion.map toString)
  if "tlsmlkem" ∈ go.godebugReverts then
    "tlsmlkem=0 turns hybrid ML-KEM off (GODEBUG in the environment, or DefaultGODEBUG from an " ++
      "old `go` line in go.mod); built with " ++ optionText go.goVersion
  else
    match nonempty go.defaultHybridKex with
    | some default =>
        optionText go.goVersion ++ " offers only the pre-standard " ++ default ++ "; standard " ++
          standardHybrid ++ " needs Go " ++ needed ++ "+"
    | none =>
        (nonempty go.goVersion).getD "a pre-1.18 Go" ++
          " offers no hybrid key exchange by default (Go " ++ needed ++ "+ does)"

/-- The finding about a Go service, if there is one. -/
def goFinding (listener : ScannedListener) : Option Finding :=
  match listener.go with
  | none => none
  | some go =>
      if go.defaultHybridKex = some standardHybrid then none
      else some {
        ruleId := goRule
        level := .warning
        message := "Go service " ++ listenerLabel listener ++ ": " ++ goReason go ++ "."
        properties := listenerProps listener ++
          [("go:version", textMember go.goVersion),
            ("go:main_module", textMember listener.goMainModule),
            ("go:default_hybrid_kex", textMember go.defaultHybridKex),
            ("go:godebug_reverts", .arr (go.godebugReverts.map Json.str))]
        subject := listenerSubject listener }

/-- The findings of one turn of the loop. -/
def listenerFindings (probes : List (String × LibraryProbe)) (listener : ScannedListener) :
    List Finding :=
  (libraryFinding probes listener).toList ++ (goFinding listener).toList

/-- `_service_findings`. -/
def serviceFindings (scanned : ScannedReport) : List Finding :=
  if scanned.available then
    scanned.listeners.flatMap (listenerFindings scanned.rest.cryptoLibraries)
  else []

end PqcReadiness.Gap
