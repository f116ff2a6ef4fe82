import PqcReadiness.Gap.Services
import PqcReadiness.Lib.Convert

/-!
# Outbound clients and the whole verdict

`_clients` judges every process group with at least one client process: a Go
binary by its own crypto/tls default, any other by the libraries it maps under
the host's TLS configuration.  `compute_gap` puts protocols, services and
clients together and lists the gaps as text.

The Go rules live in three places, which this file keeps apart as the source
does: `goTlsKexDefault` (the scanner, which reads the version and the GODEBUG
texts), `goTlsCapability` (clients) and `goCapable` (listeners).
-/

namespace PqcReadiness.Gap

open Lib

/-! ## Go binaries -/

/-- `GO_MLKEM_DEFAULT_VERSION`. -/
def goMlkemDefaultVersion : List ℕ := [1, 24]

/-- `GO_KYBER_DRAFT_DEFAULT_VERSION`. -/
def goKyberDraftDefaultVersion : List ℕ := [1, 23]

/-- The numbers of which a version tuple is made. -/
def versionRuns (v : String) : List (List Char) := (digitRuns v.toList).take 3

/-- `_version_tuple`: the first three numbers of a version text. -/
def versionTuple (v : String) : Except ValueError (Option (List ℕ)) :=
  if v = "" then .ok none
  else
    match digitRuns v.toList with
    | [] => .ok none
    | runs => ((runs.take 3).mapM intOfDigits).map some

/-- No number of the tuple is too long for `int`. -/
def ReadableVersion (v : String) : Prop := ∀ run ∈ versionRuns v, run.length ≤ intMaxStrDigits

instance (v : String) : Decidable (ReadableVersion v) :=
  inferInstanceAs (Decidable (∀ run ∈ versionRuns v, run.length ≤ intMaxStrDigits))

/-- A version text is read exactly if none of its numbers is too long. -/
theorem versionTuple_isOk_iff (v : String) :
    (∃ vt, versionTuple v = .ok vt) ↔ ReadableVersion v := by
  rw [versionTuple, ReadableVersion, versionRuns]
  by_cases hempty : v = ""
  · rw [if_pos hempty, hempty]
    exact iff_of_true ⟨none, rfl⟩ (List.forall_mem_nil _)
  · rw [if_neg hempty]
    cases hruns : digitRuns v.toList with
    | nil => exact iff_of_true ⟨none, rfl⟩ (List.forall_mem_nil _)
    | cons run runs =>
        by_cases hread : ∀ other ∈ (run :: runs).take 3, other.length ≤ intMaxStrDigits
        · refine iff_of_true ⟨some (((run :: runs).take 3).map decimal), ?_⟩ hread
          show Except.map some (((run :: runs).take 3).mapM intOfDigits) = _
          rw [mapM_intOfDigits hread]
          rfl
        · refine iff_of_false ?_ hread
          rintro ⟨vt, hvt⟩
          change Except.map some (((run :: runs).take 3).mapM intOfDigits) = _ at hvt
          rw [mapM_intOfDigits_error hread] at hvt
          cases hvt

/-- The version text of a `go_version` member. -/
def goVersionText (goVersion : Option String) : String := dropFirst "go" (orEmpty goVersion)

/-- The version tuple of a `go_version` member in a report.  The scan read the version when it made
the record, so it is not one that raises. -/
def goVersionTuple (goVersion : Option String) : Option (List ℕ) :=
  match versionTuple (goVersionText goVersion) with
  | .ok vt => vt
  | .error _ => none

/-- The build's and the environment's GODEBUG texts, one after the other. -/
def godebugText (defaultGodebug runtimeGodebug : Option String) : String :=
  join "," ((defaultGodebug.filter (· ≠ "")).toList ++ (runtimeGodebug.filter (· ≠ "")).toList)

/-- The keys that a GODEBUG text sets to 0. -/
def godebugReverted (godebug : String) : List String :=
  ((split ',' godebug).filter fun kv => endsWith "=0" (strip kv)).map (beforeChar '=')

/-- The members that are added to the Go entry of a binary with this version tuple. -/
def goKexMembers (vt : Option (List ℕ)) (goVersion defaultGodebug runtimeGodebug : Option String) :
    GoBuild :=
  let reverted := godebugReverted (godebugText defaultGodebug runtimeGodebug)
  { goVersion := goVersion
    defaultHybridKex :=
      match vt with
      | none => none
      | some vt =>
          if goMlkemDefaultVersion ≤ vt.take 2 then
            -- Go 1.24 also removed the draft hybrid: reverting ML-KEM leaves none.
            if "tlsmlkem" ∈ reverted then none else some "X25519MLKEM768"
          else if goKyberDraftDefaultVersion ≤ vt.take 2 then
            if "tlskyber" ∈ reverted then none else some "X25519Kyber768Draft00"
          else none
    godebugReverts :=
      ["tlskyber", "tlsmlkem", "tlssecpmlkem"].filter fun key => key ∈ reverted }

/-- `go_tls_kex_default`, with the version that it is given. -/
def goTlsKexDefault (goVersion defaultGodebug runtimeGodebug : Option String) :
    Except ValueError GoBuild := do
  let vt ← versionTuple (goVersionText goVersion)
  return goKexMembers vt goVersion defaultGodebug runtimeGodebug

/-- The record of a version that does not raise. -/
def goRecord (goVersion defaultGodebug runtimeGodebug : Option String) : GoBuild :=
  goKexMembers (goVersionTuple goVersion) goVersion defaultGodebug runtimeGodebug

/-- `go_tls_kex_default` returns this record, unless `int` refuses a number of the version. -/
theorem goTlsKexDefault_ok_iff {goVersion defaultGodebug runtimeGodebug : Option String}
    {go : GoBuild} :
    goTlsKexDefault goVersion defaultGodebug runtimeGodebug = .ok go ↔
      ReadableVersion (goVersionText goVersion) ∧
        goRecord goVersion defaultGodebug runtimeGodebug = go := by
  rw [← versionTuple_isOk_iff, goTlsKexDefault, goRecord, goVersionTuple]
  cases versionTuple (goVersionText goVersion) with
  | error => exact iff_of_false nofun fun ⟨⟨_, hok⟩, _⟩ => nomatch hok
  | ok vt =>
      constructor
      · intro hgo
        exact ⟨⟨vt, rfl⟩, Except.ok.inj hgo⟩
      · rintro ⟨-, rfl⟩
        rfl

/-- (capable, configured) for a Go binary's own crypto/tls default. -/
def goTlsCapability (go : GoBuild) : Option Bool × Option Bool :=
  match goVersionTuple go.goVersion with
  | none => (none, none)
  | some vt =>
      if vt.take 2 < goMlkemDefaultVersion then (some false, none)
      else (some true, some (!("tlsmlkem" ∈ go.godebugReverts)))

/-! ## Mapped libraries -/

/-- `OPENSSL_PRE3_SONAME`, anchored at the end. -/
def opensslPre3Soname : Regex :=
  .seqs [.star (.one fun _ => true), .text "/lib", .alt (.text "ssl") (.text "crypto"),
    .text ".so.",
    .alt
      (.seq (.text "1") (.opt (.seqs [.text ".", .one fun c => '0' ≤ c && c ≤ '9',
        .star (.one fun c => ('0' ≤ c && c ≤ '9') || ('a' ≤ c && c ≤ 'z') || c == '.')])))
      (.text "10")]

/-- `LIBRARY_PROBE_NAME`. -/
def libraryProbeName : List (String × String) :=
  [("gnutls", "gnutls"), ("wolfssl", "wolfssl"), ("aws-lc", "aws-lc")]

/-- PQC capability of one mapped library, with the evidence used. -/
def libraryCapable (lib : CryptoLibrary) (probes : List (String × LibraryProbe)) :
    Option Bool × String :=
  match lib.libraryPqcCapable with
  | some capable => (some capable, "version")
  | none =>
      let soname : Option Bool × String :=
        if lib.family = some "openssl" ∧ opensslPre3Soname.matchLine (orEmpty lib.path) then
          (some false, "soname")
        else (none, "")
      match (find (optionText lib.family) libraryProbeName).bind (find · probes) with
      | none => soname
      | some probe =>
          match probe.installed, probe.pqcCapable with
          | true, some capable =>
              let sameFile := lib.path.any (· ∈ probe.files)
              let sameVersion := orEmpty lib.version ≠ "" ∧ lib.version = probe.version
              if sameFile ∨ sameVersion then
                (some capable, "crypto_libraries")
              else soname
          | _, _ => soname

/-! ## Client groups -/

/-- One entry of `clients.items`. -/
structure ClientItem where
  exe : Option String
  process : Option String
  systemdUnits : List String
  containers : List Json
  containersOmitted : ℕ
  clientProcesses : ℕ
  cryptoFamilies : List String
  verdict : Verdict
  followsHostDefault : Bool
  group : String

/-- The state of an item. -/
abbrev ClientItem.state (item : ClientItem) : State := item.verdict.state

/-- The report path of a process group. -/
def groupPath (i : ℕ) : String := "process_crypto_linkage.groups[" ++ toString i ++ "]"

/-- Everything a process could negotiate with: not capable when one library is
known not to be. -/
def librariesCapable (libs : List CryptoLibrary) (probes : List (String × LibraryProbe)) :
    Option Bool :=
  -- Any of the libraries may be the one in use.
  let verdicts := libs.map fun lib => (libraryCapable lib probes).1
  if verdicts.contains (some false) then some false
  else if verdicts ≠ [] ∧ verdicts.all (· == some true) then some true
  else none

/-- The verdict `_clients` gives a process group, and whether it is the group's
own default. -/
def judgeGroup (report : Report) (i : ℕ) (grp : ProcessGroup) : Verdict × Bool :=
  match grp.go with
  | some go =>
      (verdict (goTlsCapability go).1 (goTlsCapability go).2 [groupPath i ++ ".go"]
        [groupPath i ++ ".go"] none true, true)
  | none =>
      (verdict (librariesCapable grp.cryptoLibraries report.cryptoLibraries)
        (tlsConfigured report).1 [groupPath i ++ ".crypto_libraries"] (tlsConfigured report).2
        none true, false)

/-- The item of a process group. -/
def clientItem (report : Report) (protocols : Protocols) (entry : ProcessGroup × ℕ) :
    ClientItem :=
  let (grp, i) := entry
  let judged := judgeGroup report i grp
  { exe := grp.exe
    process := grp.process
    systemdUnits := grp.systemdUnits
    containers := grp.containers
    containersOmitted := grp.containersOmitted
    clientProcesses := grp.clients
    cryptoFamilies :=
      libraryFamilies grp.cryptoLibraries ++ if grp.go.isSome then ["go"] else []
    verdict := judged.1
    followsHostDefault := !judged.2 && judged.1.state = protocols.tls.state
    group := groupPath i }

/-- The `clients` member of the verdict. -/
structure Clients where
  items : List ClientItem
  byState : List (String × ℕ)
  clientProcessesByState : List (String × ℕ)
  differingFromHost : ℕ
  groupsOmittedByScan : Option ℕ

/-- `_clients`: nothing when no process scan ran. -/
def clients (report : Report) (protocols : Protocols) : Option Clients :=
  let pcl := report.processCryptoLinkage
  if pcl.available then
    let items := sortedBy
      (fun item : ClientItem => (toLex (item.state.index, -(item.clientProcesses : ℤ)) : ℕ ×ₗ ℤ))
      ((pcl.groups.zipIdx.filter fun entry => entry.1.clients ≠ 0).map
        (clientItem report protocols))
    some
      { items := items
        byState := (Dict.tally (items.map fun item => (item.state.name, 1))).sortedItems
        clientProcessesByState :=
          (Dict.tally (items.map fun item => (item.state.name, item.clientProcesses))).sortedItems
        differingFromHost := items.countP fun item => !item.followsHostDefault
        groupsOmittedByScan := if pcl.omittedGroups ≠ 0 then some pcl.omittedGroups else none }
  else none

/-! ## The whole verdict -/

/-- The text of a protocol gap. -/
def protocolGap (name : String) (v : Verdict) : List String :=
  if v.state.isGap then [name ++ ":" ++ v.state.name] else []

/-- The text of a service gap. -/
def serviceGap (item : ServiceItem) : String :=
  "service:" ++ optionText item.process ++ "/" ++ optionText (item.protocol.map Transport.name) ++
    "/" ++ optionText (item.port.map toString) ++ ":" ++ item.state.name

/-- The text of a client gap. -/
def clientGap (item : ClientItem) : String :=
  "client:" ++ (if orEmpty item.exe ≠ "" then orEmpty item.exe else optionText item.process) ++
    ":" ++ item.state.name

/-- Is a service a gap in its own right? -/
def ServiceItem.isGap (item : ServiceItem) : Bool :=
  !item.followsHostDefault && item.state.isGap

/-- Is a client group a gap in its own right? -/
def ClientItem.isGap (item : ClientItem) : Bool :=
  !item.followsHostDefault && item.state.isGap

/-- The `pqc_deployment_gap` object of a report. -/
structure DeploymentGap where
  protocols : Protocols
  services : Option Services
  clients : Option Clients
  gaps : List String

/-- `(services.get("items") or [])`. -/
def serviceItems (services : Option Services) : List ServiceItem :=
  (services.map Services.items).getD []

/-- `(clients.get("items") or [])`. -/
def clientItems (clients : Option Clients) : List ClientItem :=
  (clients.map Clients.items).getD []

/-- `compute_gap`. -/
def computeGap (report : Report) : DeploymentGap :=
  let protocols := protocols report
  let services := services report protocols
  let clients := clients report protocols
  { protocols := protocols
    services := services
    clients := clients
    gaps :=
      protocolGap "tls" protocols.tls ++ protocolGap "ssh" protocols.ssh ++
        protocolGap "ipsec" protocols.ipsec ++
        ((serviceItems services).filter ServiceItem.isGap).map serviceGap ++
        ((clientItems clients).filter ClientItem.isGap).map clientGap }

end PqcReadiness.Gap
