import PqcReadiness.Runtime.Services

/-!
# All processes

`scan_processes` inspects every process and groups those with crypto by executable, libraries
and Go default.  Its loop reads and counts at once; here `observeTurn` is the part that reads,
which ends with one `Observation` of each process, and `ProcessTally.add` the part that counts.

The verdict of a group is that of its first process (`Group.first`), and the key of a group
(`groupKey`) has neither the binary evidence on the libraries nor the GODEBUG settings.
-/

namespace PqcReadiness.Runtime

open PqcReadiness.Lib PqcReadiness.Lib.Bytes

/-! ## Reading -/

/-- What the sockets of a process make it. -/
inductive Role where
  | server
  | client
  | idle
  deriving DecidableEq

/-- The listening and the established inodes of a namespace. -/
structure NetnsTables where
  listening : List ℤ
  established : List ℤ

/-- `_netns_tables`. -/
def netnsTables (mode : Mode) (order : ByteOrder) (proc : Proc) : Scanner NetnsTables := do
  let sockets ← listeningSockets mode order proc
  let established ← [NetTable.tcp, .tcp6].foldlM (fun out table => do
    let text ← readText mode (proc.net table)
    match text with
    | .error _ => return out
    | .ok text => return out ++ parseEstablishedInodes text) []
  return ⟨sockets.map Socket.inode, established⟩

/-- `_role`. -/
def role (inodes : List ℤ) (tables : NetnsTables) : Role :=
  if inodes.any (· ∈ tables.listening) then .server
  else if inodes.any (· ∈ tables.established) then .client
  else .idle

/-- A process with crypto. -/
structure CryptoProcess where
  details : Details
  role : Role
  networkNamespace : NetworkNamespace
  /-- The number of established connections; none when the fd table may not be read. -/
  connections : Option ℕ
  hasCrypto : details.hasCrypto

/-- What the scan makes of a process. -/
inductive Observation where
  | unreadable
  | exited
  | kernelThread
  | withoutCrypto
  | crypto (process : CryptoProcess)

/-- What the loop remembers. -/
structure Inspection where
  cache : Cache
  tables : Dict (Option String) NetnsTables
  observed : List (ℕ × Observation)

/-- Nothing inspected yet. -/
def Inspection.start : Inspection := ⟨.empty, .empty, []⟩

/-- Note what a process is. -/
def Inspection.note (state : Inspection) (pid : ℕ) (observation : Observation) : Inspection :=
  { state with observed := state.observed ++ [(pid, observation)] }

/-- The tables of the namespace of a process, read once. -/
def tablesOf (mode : Mode) (host : Host) (state : Inspection) (proc : Proc) :
    Scanner (NetnsTables × Inspection) :=
  match state.tables.get? proc.netns with
  | some tables => return (tables, state)
  | none => do
      let tables ← netnsTables mode host.order proc
      return (tables, { state with tables := state.tables.update proc.netns fun _ => tables })

/-- The observation of a process with these details. -/
def observation (host : Host) (proc : Proc) (tables : NetnsTables) (details : Details) :
    Observation :=
  if hcrypto : details.hasCrypto then
    let inodes := socketInodes proc
    .crypto {
      details := details
      role := role (inodes.getD []) tables
      networkNamespace := namespaceOf host proc.netns
      connections := inodes.map fun inodes => inodes.countP (· ∈ tables.established)
      hasCrypto := hcrypto }
  else .withoutCrypto

/-- One turn of the loop, up to the counting. -/
def observeTurn (mode : Mode) (host : Host) (state : Inspection) (pid : ℕ) :
    Scanner Inspection := do
  let proc := host.proc pid
  let maps ← readText mode proc.maps
  match maps with
  | .error .permission => return state.note pid .unreadable
  | .error .other => return state.note pid .exited
  | .ok maps => do
      let read ← tablesOf mode host state proc
      let state := read.2
      if maps = "" ∧ proc.exe = none then return state.note pid .kernelThread
      else
        let details ← processDetails mode host.chars state.cache proc (some maps)
        return { state with cache := details.2 }.note pid
          (observation host proc read.1 details.1)

/-! ## Counting -/

/-- `group_pqc_capable`. -/
def groupPqcCapable (details : Details) : Option Bool :=
  let verdicts := details.cryptoLibraries.map Library.pqcCapable ++
    (details.go.map fun go => some go.build.defaultHybridKex.isSome).toList
  if verdicts.any (· = some false) then some false
  else if verdicts ≠ [] ∧ verdicts.all (· = some true) then some true
  else none

/-- What the key of a group has of a library. -/
structure LibraryKey where
  family : String
  version : String
  path : String
  deleted : Bool
  deriving DecidableEq

/-- The key of a library. -/
def Library.key (lib : Library) : LibraryKey :=
  ⟨lib.family.name, orEmpty lib.version, lib.path, lib.deleted⟩

/-- The order of the keys, as tuples. -/
def LibraryKey.order (key : LibraryKey) : String ×ₗ String ×ₗ String ×ₗ Bool :=
  toLex (key.family, toLex (key.version, toLex (key.path, key.deleted)))

/-- The key of a group. -/
structure GroupKey where
  name : String
  libraries : List LibraryKey
  go : Option (Option String × Option String)
  deriving DecidableEq

/-- `_group_key`. -/
def groupKey (details : Details) : GroupKey where
  name :=
    if orEmpty details.exe ≠ "" then orEmpty details.exe
    else if orEmpty details.process ≠ "" then orEmpty details.process
    else "?"
  libraries := sortedBy LibraryKey.order (details.cryptoLibraries.map Library.key)
  go := details.go.map fun go => (go.goVersion, go.build.defaultHybridKex)

/-- How many processes of a group have each role. -/
structure Roles where
  server : ℕ
  client : ℕ
  idle : ℕ

/-- One process more. -/
def Roles.add (roles : Roles) : Role → Roles
  | .server => { roles with server := roles.server + 1 }
  | .client => { roles with client := roles.client + 1 }
  | .idle => { roles with idle := roles.idle + 1 }

/-- `set.add`. -/
def insertNew {α : Type} [DecidableEq α] (xs : List α) (x : α) : List α :=
  if x ∈ xs then xs else xs ++ [x]

/-- A group of processes. -/
structure Group where
  /-- The details of the first process, which are those of the group. -/
  first : Details
  processCount : ℕ
  samplePids : List ℕ
  systemdUnits : List String
  systemdUnitsOmitted : ℕ
  networkNamespaces : List NetworkNamespace
  roles : Roles
  establishedTcpConnections : ℕ
  fdUnreadableProcesses : ℕ

/-- `_SAMPLE_PIDS`. -/
def samplePidsMax : ℕ := 5

/-- A group that has no process yet. -/
def Group.new (details : Details) : Group := ⟨details, 0, [], [], 0, [], ⟨0, 0, 0⟩, 0, 0⟩

/-- `pqc_capable` of a group. -/
def Group.pqcCapable (group : Group) : Option Bool := groupPqcCapable group.first

/-- One process more. -/
def Group.add (group : Group) (pid : ℕ) (process : CryptoProcess) : Group :=
  { group with
    processCount := group.processCount + 1
    samplePids :=
      if group.samplePids.length < samplePidsMax then group.samplePids ++ [pid]
      else group.samplePids
    systemdUnits :=
      match process.details.systemdUnit with
      | none => group.systemdUnits
      | some unit => insertNew group.systemdUnits unit
    networkNamespaces := insertNew group.networkNamespaces process.networkNamespace
    roles := group.roles.add process.role
    establishedTcpConnections := group.establishedTcpConnections + process.connections.getD 0
    fdUnreadableProcesses :=
      group.fdUnreadableProcesses + if process.connections.isNone then 1 else 0 }

/-- The counters of the loop. -/
structure ProcessTally where
  scanned : ℕ
  unreadable : ℕ
  kernelThreads : ℕ
  withoutCrypto : ℕ
  groups : Dict GroupKey Group

/-- Nothing counted yet. -/
def ProcessTally.start : ProcessTally := ⟨0, 0, 0, 0, .empty⟩

/-- The part of a turn that counts. -/
def ProcessTally.add (tally : ProcessTally) (entry : ℕ × Observation) : ProcessTally :=
  match entry.2 with
  | .unreadable => { tally with unreadable := tally.unreadable + 1 }
  | .exited => tally
  | .kernelThread =>
      { tally with scanned := tally.scanned + 1, kernelThreads := tally.kernelThreads + 1 }
  | .withoutCrypto =>
      { tally with scanned := tally.scanned + 1, withoutCrypto := tally.withoutCrypto + 1 }
  | .crypto process =>
      { tally with
        scanned := tally.scanned + 1
        groups := tally.groups.update (groupKey process.details) fun old =>
          (old.getD (Group.new process.details)).add entry.1 process }

/-- The counters after all observations. -/
def tallyProcesses (observed : List (ℕ × Observation)) : ProcessTally :=
  observed.foldl ProcessTally.add .start

/-! ## The result -/

/-- The counts of a process scan. -/
structure ProcessSummary where
  groups : ℕ
  processesWithCrypto : ℕ
  processesWithoutCrypto : ℕ
  processesByCryptoFamily : List (String × ℕ)
  processesNotPqcCapable : ℕ
  clientProcessesNotPqcCapable : ℕ
  processesWithDeletedCryptoLibrary : ℕ
  deriving DecidableEq

/-- `{False: 0, None: 1, True: 2}`. -/
def capableRank : Option Bool → ℕ
  | some false => 0
  | none => 1
  | some true => 2

/-- The order of the groups. -/
def groupOrder (group : Group) : ℕ ×ₗ ℤ ×ₗ String :=
  toLex (capableRank group.pqcCapable,
    toLex (-(group.processCount : ℤ), orEmpty group.first.exe))

/-- `_MAX_UNITS`. -/
def maxUnits : ℕ := 10

/-- A group as it is listed: its sets are sorted, and cut. -/
def Group.listed (group : Group) : Group :=
  { group with
    systemdUnits := (sortedBy id group.systemdUnits).take maxUnits
    systemdUnitsOmitted := group.systemdUnits.length - maxUnits
    networkNamespaces :=
      [NetworkNamespace.host, .other].filter fun ns => ns ∈ group.networkNamespaces }

/-- The groups whose verdict is that they are not capable. -/
def notCapable (groups : List Group) : List Group :=
  groups.filter fun group => group.pqcCapable = some false

/-- The summary of the groups. -/
def processSummary (withoutCrypto : ℕ) (groups : List Group) : ProcessSummary where
  groups := groups.length
  processesWithCrypto := (groups.map Group.processCount).sum
  processesWithoutCrypto := withoutCrypto
  processesByCryptoFamily := (Dict.tally (groups.flatMap fun group =>
    (cryptoFamilies group.first.cryptoLibraries group.first.go).map fun family =>
      (family, group.processCount))).sortedItems
  processesNotPqcCapable := ((notCapable groups).map Group.processCount).sum
  clientProcessesNotPqcCapable := ((notCapable groups).map fun group => group.roles.client).sum
  processesWithDeletedCryptoLibrary :=
    ((groups.filter fun group => group.first.cryptoLibraries.any Library.deleted).map
      Group.processCount).sum

/-- The groups in the order of the report, the omitted ones included. -/
def orderedGroups (tally : ProcessTally) : List Group := sortedBy groupOrder tally.groups.values

/-- The processes that the scan inspects, up to the limit. -/
def inspectedPids (host : Host) (maxPids : ℕ) : List ℕ :=
  (host.pids.filter fun pid => some pid ≠ host.ownPid).take maxPids

/-- The observations of `scan_processes`. -/
def observeProcesses (mode : Mode) (host : Host) (maxPids : ℕ) :
    Scanner (List (ℕ × Observation)) := do
  let state ← (inTime host.late (inspectedPids host maxPids)).foldlM (observeTurn mode host) .start
  return state.observed

end PqcReadiness.Runtime
