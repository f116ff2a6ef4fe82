import PqcReadiness.Lib.Loop
import PqcReadiness.Lib.Pathname
import PqcReadiness.Runtime.Details

/-!
# Listening services

`scan_services` goes through the processes twice.  The first loop reads the socket tables of
each network namespace, once, through the first process seen there, and notes which process
holds which socket.  The second loop attributes each socket to a process and that process to a
crypto library; for a process that maps none it looks at its workers (`workerCrypto`).

`Host` is what the scan sees.  The two loops are some time apart, so that a process directory
has two views: `proc` in the first loop, `later` in the second.
-/

namespace PqcReadiness.Runtime

open PqcReadiness.Lib PqcReadiness.Lib.Bytes

/-- What a scan sees of a host. -/
structure Host where
  /-- The process directories of `/proc`, in the order of the listing. -/
  entries : List ℕ
  proc : ℕ → Proc
  later : ℕ → Proc
  /-- The namespace link of process 1, read before the loop. -/
  initNetns : Option String
  /-- The process of the scanner itself, where it can be told. -/
  ownPid : Option ℕ
  /-- Whether the time is up before the turn with this number. -/
  late : ℕ → Bool
  order : ByteOrder
  chars : CharData

/-- `_pids`. -/
def Host.pids (host : Host) : List ℕ := sortedBy id host.entries

/-- The processes that a loop gets to before the time is up. -/
def inTime (late : ℕ → Bool) (pids : List ℕ) : List ℕ :=
  (pids.zipIdx.takeWhile fun entry => !late entry.2).map Prod.fst

/-! ## Workers -/

/-- `_ppid`; every failure is handled. -/
def ppid (proc : Proc) : Option ℤ := do
  let data ← proc.stat.toOption
  let text ← decodeUtf8 data
  let chars := universalNewlines text.toList
  -- `text[text.rindex(")") + 2 :]`: the parenthesis and whatever stands behind it.
  let behind := (afterLastChar ')' (String.ofList chars)).toList.drop 1
  let parts := words (String.ofList behind)
  if ')' ∈ chars then intOfChars (← parts[1]?).toList else none

/-- `_WORKER_MAX_DESCENDANTS`. -/
def workerMaxDescendants : ℕ := 64

/-- The children of a process among the scanned ones, in order. -/
def childrenOf (procs : ℕ → Proc) (pids : List ℕ) (parent : ℕ) : List ℕ :=
  sortedBy id (pids.filter fun pid => ppid (procs pid) = some (parent : ℤ))

/-- The loop of `_descendants`, on the last generation and all of them. -/
def descendantsLoop (procs : ℕ → Proc) (pids : List ℕ) : Loop (List ℕ × List ℕ) (List ℕ) where
  turn state :=
    if state.1 ≠ [] ∧ state.2.length < workerMaxDescendants then
      let next := state.1.flatMap (childrenOf procs pids)
      .inl (next, state.2 ++ next)
    else .inr state.2
  below next state :=
    (if next.1 = [] then 0 else workerMaxDescendants + 1 - next.2.length) <
      if state.1 = [] then 0 else workerMaxDescendants + 1 - state.2.length
  wellFounded := InvImage.wf (fun state : List ℕ × List ℕ =>
    if state.1 = [] then 0 else workerMaxDescendants + 1 - state.2.length) Nat.lt_wfRel.wf
  decreases := by
    intro state next hturn
    split at hturn
    · next hcontinues =>
        obtain rfl := Sum.inl.inj hturn
        obtain ⟨hfrontier, hlength⟩ := hcontinues
        rw [if_neg hfrontier]
        split
        · omega
        · next hnext =>
            have hgrows := List.length_pos_iff.mpr hnext
            rw [List.length_append]
            dsimp only at hgrows ⊢
            omega
    · cases hturn

/-- `_descendants`: the nearest first. -/
def descendants (procs : ℕ → Proc) (pids : List ℕ) (owner : ℕ) : List ℕ :=
  ((descendantsLoop procs pids).result ([owner], [])).take workerMaxDescendants

/-- `_DEFAULT_LIB_DIRS`. -/
def defaultLibDirs : List String :=
  ["/lib64", "/usr/lib64", "/lib/x86_64-linux-gnu", "/usr/lib/x86_64-linux-gnu",
    "/lib/aarch64-linux-gnu", "/usr/lib/aarch64-linux-gnu", "/lib/s390x-linux-gnu",
    "/usr/lib/s390x-linux-gnu", "/lib", "/usr/lib"]

/-- Does a path end with the name of the C library? -/
def isLibc (path : String) : Bool :=
  (Regex.seqs [.star (.one fun _ => true), .text "/libc.so.", .digits]).matchLine path

/-- The directory of the C library, from the lines of `maps`. -/
def libcDir (mode : Mode) : List (List Char) → Scanner (Option String)
  | [] => return none
  | line :: rest => do
      check mode (.mapsLine line)
      let path := strip (String.ofList ((fields 5 line).getLastD []))
      if isLibc path then return some (dirname path) else libcDir mode rest

/-- The directory that a process has its C library from. -/
def mappedLibcDir (mode : Mode) (proc : Proc) : Scanner (Option String) := do
  let text ← readText mode proc.maps
  match text with
  | .error _ => return none
  | .ok text => libcDir mode (splitLinesChars text.toList)

/-- `_lib_dirs`. -/
def libDirs (mode : Mode) (proc : Proc) : Scanner (List String) := do
  let dir ← mappedLibcDir mode proc
  return dir.toList ++ defaultLibDirs.filter fun d => d ∉ dir.toList

/-- `_NOT_FOLLOWED`, at the start of a name. -/
def notFollowed (chars : CharData) (name : String) : Bool :=
  let word : Regex := .one chars.isWord
  let wordDotDash : Regex := .star (.one fun c => chars.isWord c || c == '.' || c == '-')
  let libs := ["libc", "libm", "libdl", "libpthread", "librt", "libresolv", "libutil", "libnsl",
    "libcrypt", "libgcc_s", "libstdc++", "libz", "libzstd", "liblzma", "libbz2", "liblz4",
    "libselinux", "libcap", "libsystemd", "libudev", "libsasl2", "libgssapi_krb5", "libkrb5",
    "libk5crypto", "libcom_err", "libkeyutils", "libtirpc"].map Regex.text
  (Regex.seqs [.alts (libs ++ [
      .seqs [.text "ld-linux", wordDotDash],
      .seqs [.text "libpcre", .opt (.text "2"), .opt (.text "-"), .star (.one isDigit)],
      .seqs [.text "libdb-", .plus (.one fun c => isDigit c || c == '.')],
      .seqs [.text "libicu", .plus word],
      .seqs [.text "libldap", wordDotDash],
      .seqs [.text "liblber", wordDotDash]]),
    .text ".so", .star (.one fun _ => true)]).fullMatch name

/-- `_WORKER_ELF_BUDGET`. -/
def workerElfBudget : ℕ := 256

/-- `_WORKER_NEEDED_DEPTH`. -/
def workerNeededDepth : ℕ := 2

/-- `_WORKER_MAX_BINARIES`. -/
def workerMaxBinaries : ℕ := 96

/-- The state of the walk along `DT_NEEDED`. -/
structure Walk where
  found : List String
  seen : List String
  dynamic : List (ℕ × String)
  budget : ℕ

/-- `os.path.join(dir, name)` for a name without slash. -/
def osJoin (dir name : String) : String :=
  if dir = "" ∨ endsWith "/" dir then dir ++ name else dir ++ "/" ++ name

/-- The directories in which a file's libraries are looked for. -/
def searchDirs (libDirs : List String) (path : String) (runpath : List String) : List String :=
  let origin := dirname path
  (runpath.map fun d =>
    normpath (replaceText "$ORIGIN" origin (replaceText "\x24\x7bORIGIN\x7d" origin d))) ++ libDirs

/-- One needed name: the walk after it, and the file that it leads to. -/
def needName (chars : CharData) (proc : Proc) (dirs : List String)
    (state : Walk × List String) (name : String) : Walk × List String :=
  let (walk, next) := state
  if '/' ∈ name.toList ∨ name = "" ∨ name = "." ∨ name = ".." then (walk, next)
  else if name ∈ walk.seen ∨ notFollowed chars name then (walk, next)
  else
    let walk := { walk with seen := walk.seen ++ [name] }
    match dirs.find? fun d => startsWith "/" d && proc.isFile (osJoin d name) with
    | none => (walk, next)
    | some dir =>
        let resolved := osJoin dir name
        if (libraryFamily chars name).isSome then
          ({ walk with found := walk.found ++ [resolved] }, next ++ [resolved])
        else (walk, next ++ [resolved])

/-- `_dynamic_through`, and what it costs: the walk that has the file in its cache. -/
def openFile (mode : Mode) (owner : ℕ) (proc : Proc) (walk : Walk) (path : String) :
    Scanner Walk :=
  if (owner, path) ∈ walk.dynamic then return walk
  else do
    checkElf mode (proc.elf path)
    return { walk with dynamic := walk.dynamic ++ [(owner, path)], budget := walk.budget - 1 }

/-- The names that a file needs: the walk after them, and the files that they add to the queue. -/
def needFile (chars : CharData) (proc : Proc) (libDirs : List String) (path : String)
    (state : Walk × List String) : Walk × List String :=
  match openDynamic (proc.elf path) with
  | .ok (some dyn) =>
      dyn.needed.foldl (needName chars proc (searchDirs libDirs path dyn.runpath)) state
  | _ => state

/-- One file of the queue. -/
def visitFile (mode : Mode) (chars : CharData) (owner : ℕ) (proc : Proc) (libDirs : List String)
    (state : Walk × List String) (path : String) : Scanner (Walk × List String) :=
  if state.1.budget = 0 then return state
  else do
    let walk ← openFile mode owner proc state.1 path
    return needFile chars proc libDirs path (walk, state.2)

/-- The queue is first in, first out, so that it is gone through level by level. -/
def visitLevels (mode : Mode) (chars : CharData) (owner : ℕ) (proc : Proc)
    (libDirs : List String) : ℕ → Walk → List String → Scanner Walk
  | 0, walk, queue => do
      let visited ← queue.foldlM (visitFile mode chars owner proc libDirs) (walk, [])
      return visited.1
  | depth + 1, walk, queue => do
      let visited ← queue.foldlM (visitFile mode chars owner proc libDirs) (walk, [])
      visitLevels mode chars owner proc libDirs depth visited.1 visited.2

/-- `_linked_crypto_libraries`: the libraries, and the walk with the files and the budget that
it used. -/
def linkedCryptoLibraries (mode : Mode) (chars : CharData) (owner : ℕ) (proc : Proc)
    (libDirs : List String) (dynamic : List (ℕ × String)) (budget : ℕ) (binary : String) :
    Scanner Walk :=
  visitLevels mode chars owner proc libDirs workerNeededDepth ⟨[], [], dynamic, budget⟩ [binary]

/-- `_has_tls_library`. -/
def hasTlsLibrary (paths : List String) : Bool :=
  paths.any fun path => !startsWith "libcrypto." (basename path)

/-- The search of `_worker_binary_libraries`: the libraries and the executable that links them,
with what has been read. -/
def searchBinaries (mode : Mode) (chars : CharData) (owner : ℕ) (proc : Proc)
    (libDirs : List String) :
    List (ℕ × String) → ℕ → Option (List String × String) → List String →
      Scanner (Option (List String × String) × List (ℕ × String))
  | dynamic, _, fallback, [] => return (fallback, dynamic)
  | dynamic, budget, fallback, path :: rest =>
      if proc.isFile path then do
        let walk ← linkedCryptoLibraries mode chars owner proc libDirs dynamic budget path
        if walk.found ≠ [] ∧ hasTlsLibrary walk.found then
          return (some (walk.found, path), walk.dynamic)
        else
          let fallback :=
            if walk.found ≠ [] ∧ fallback.isNone then some (walk.found, path) else fallback
          if walk.budget = 0 then return (fallback, walk.dynamic)
          else
            searchBinaries mode chars owner proc libDirs walk.dynamic walk.budget fallback rest
      else searchBinaries mode chars owner proc libDirs dynamic budget fallback rest

/-- The executables in the directories of the workers. -/
def workerBinaries (proc : Proc) (workerDirs : List String) : List String :=
  workerDirs.flatMap fun d =>
    match proc.listing d with
    | .error _ => []
    | .ok names => ((sortedBy id names).take workerMaxBinaries).map (osJoin d)

/-- A library that is linked, not mapped. -/
def linkedLibrary (chars : CharData) (path : String) : Option MapsLibrary :=
  (libraryFamily chars (basename path)).map fun family =>
    { family := family
      path := path
      sonameVersion := sonameVersion (basename path).toList
      deleted := false
      mapRange := ""
      mapsKey := none }

/-- `_worker_binary_libraries`. -/
def workerBinaryLibraries (mode : Mode) (chars : CharData) (owner : ℕ) (proc : Proc)
    (workerDirs : List String) (cache : Cache) :
    Scanner ((List Library × Option String) × Cache) := do
  let dirs ← libDirs mode proc
  let searched ← searchBinaries mode chars owner proc dirs cache.dynamic workerElfBudget none
    (workerBinaries proc workerDirs)
  let cache := { cache with dynamic := searched.2 }
  match searched.1 with
  | none => return (([], none), cache)
  | some (paths, binary) => do
      let libs ← librariesDetails mode cache proc (paths.filterMap (linkedLibrary chars))
      return ((libs.1, some binary), libs.2)

/-- Where the libraries of a listener were found, if not in its own process. -/
inductive LibrariesFrom where
  | socketHolder (pid : ℕ) (process exe : Option String)
  | descendant (pid : ℕ) (process exe : Option String)
  | workerBinary (binary : Option String)
  deriving DecidableEq

/-- What the second loop remembers. -/
structure Attribution where
  cache : Cache
  details : Dict ℕ Details

/-- The details of a process, read once. -/
def detailsOf (mode : Mode) (chars : CharData) (procs : ℕ → Proc) (memo : Attribution) (pid : ℕ) :
    Scanner (Details × Attribution) :=
  match memo.details.get? pid with
  | some details => return (details, memo)
  | none => do
      let read ← processDetails mode chars memo.cache (procs pid) none
      return (read.1, ⟨read.2, memo.details.update pid fun _ => read.1⟩)

/-- Libraries of another process. -/
def fromProcess (holders : List ℕ) (pid : ℕ) (details : Details) : List Library × LibrariesFrom :=
  (details.cryptoLibraries,
    if pid ∈ holders then .socketHolder pid details.process details.exe
    else .descendant pid details.process details.exe)

/-- The first candidate that maps a TLS library, or else the first that maps a crypto library;
the flag tells which. -/
def searchCandidates (mode : Mode) (chars : CharData) (procs : ℕ → Proc) :
    Attribution → Option (ℕ × Details) → List ℕ →
      Scanner ((Bool × Option (ℕ × Details)) × Attribution)
  | memo, cryptoOnly, [] => return ((false, cryptoOnly), memo)
  | memo, cryptoOnly, pid :: rest => do
      let read ← detailsOf mode chars procs memo pid
      let paths := read.1.cryptoLibraries.map Library.path
      if paths ≠ [] ∧ hasTlsLibrary paths then return ((true, some (pid, read.1)), read.2)
      else
        let cryptoOnly :=
          if paths ≠ [] ∧ cryptoOnly.isNone then some (pid, read.1) else cryptoOnly
        searchCandidates mode chars procs read.2 cryptoOnly rest

/-- `_SHARED_BIN_DIRS`. -/
def sharedBinDirs : List String :=
  ["/bin", "/sbin", "/usr/bin", "/usr/sbin", "/usr/local/bin", "/usr/local/sbin"]

/-- The directories that the workers run from. -/
def workerDirs (procs : ℕ → Proc) (pids : List ℕ) : List String :=
  pids.foldl (fun dirs pid =>
    let d := dirname (orEmpty (procs pid).exe)
    if d ≠ "" ∧ d ∉ sharedBinDirs ∧ d ∉ dirs then dirs ++ [d] else dirs) []

/-- The processes whose libraries may be those of the owner. -/
def workerCandidates (owner : ℕ) (holders descendants : List ℕ) : List ℕ :=
  let holding := holders.filter fun pid => pid ≠ owner ∧ pid ≠ 1
  holding ++ descendants.filter fun pid => pid ∉ holding

/-- `_worker_crypto`. -/
def workerCrypto (mode : Mode) (chars : CharData) (procs : ℕ → Proc) (pids : List ℕ)
    (owner : ℕ) (holders : List ℕ) (memo : Attribution) :
    Scanner (Option (List Library × LibrariesFrom) × Attribution) := do
  let workers := descendants procs pids owner
  let found ← searchCandidates mode chars procs memo none (workerCandidates owner holders workers)
  let memo := found.2
  let lastResort := found.1.2.map fun entry => fromProcess holders entry.1 entry.2
  let dirs := workerDirs procs workers
  if found.1.1 then return (lastResort, memo)
  else if dirs = [] then return (lastResort, memo)
  else
    let libs ← workerBinaryLibraries mode chars owner (procs owner) dirs memo.cache
    let memo := { memo with cache := libs.2 }
    if libs.1.1 = [] then return (lastResort, memo)
    else return (some (libs.1.1, .workerBinary libs.1.2), memo)

/-! ## Sockets and their owners -/

/-- What the first loop collects. -/
structure Sockets where
  sockets : Dict ℤ (Socket × NetworkNamespace)
  owners : Dict ℤ (List ℕ)
  seenNs : List (Option String)
  unreadable : ℕ

/-- Nothing seen yet. -/
def Sockets.start : Sockets := ⟨.empty, .empty, [], 0⟩

/-- The namespace that a link leads to, seen from the scanner. -/
def namespaceOf (host : Host) (ns : Option String) : NetworkNamespace :=
  if ns.isSome ∧ ns = host.initNetns then .host else .other

/-- `sockets.setdefault(s["inode"], s)` for each socket. -/
def Sockets.addSockets (state : Sockets) (ns : NetworkNamespace) (sockets : List Socket) :
    Sockets :=
  { state with
    sockets := sockets.foldl (fun known socket =>
      known.update socket.inode fun old => old.getD (socket, ns)) state.sockets }

/-- `owners.setdefault(inode, []).append(pid)` for each socket of a process. -/
def Sockets.addOwner (state : Sockets) (pid : ℕ) (inodes : List ℤ) : Sockets :=
  { state with
    owners := inodes.foldl (fun owners inode =>
      owners.update inode fun pids => pids.getD [] ++ [pid]) state.owners }

/-- The sockets of a namespace, read through the first process seen there. -/
def readNamespace (mode : Mode) (host : Host) (state : Sockets) (proc : Proc) : Scanner Sockets :=
  if proc.netns ∈ state.seenNs then return state
  else do
    let sockets ← listeningSockets mode host.order proc
    return { state with seenNs := state.seenNs ++ [proc.netns] }.addSockets
      (namespaceOf host proc.netns) sockets

/-- The sockets that a process holds. -/
def Sockets.addProcess (state : Sockets) (pid : ℕ) (proc : Proc) : Sockets :=
  match socketInodes proc with
  | none => { state with unreadable := state.unreadable + 1 }
  | some inodes => state.addOwner pid inodes

/-- One turn of the first loop. -/
def socketsTurn (mode : Mode) (host : Host) (state : Sockets) (pid : ℕ) : Scanner Sockets := do
  let state ← readNamespace mode host state (host.proc pid)
  return state.addProcess pid (host.proc pid)

/-! ## Listeners -/

/-- `bind_scope`, of the numbers of an address. -/
def bindScope (address : String) : BindScope :=
  let quad := fun octets : List ℕ =>
    match octets with
    | [0, 0, 0, 0] => BindScope.any
    | 127 :: _ => .loopback
    | 169 :: 254 :: _ => .linkLocal
    | first :: _ => if 224 ≤ first ∧ first < 240 then .multicast else .specific
    | [] => .specific
  match IpAddress.parse address.toList with
  | some (.v4 octets) => quad octets
  | some (.v6 groups scope) =>
      match IpAddress.mapped (.v6 groups scope) with
      | some octets => quad octets
      | none =>
          if groups.all (· = 0) then .any
          else if groups = [0, 0, 0, 0, 0, 0, 0, 1] then .loopback
          else
            let first := groups.headD 0
            if 0xFF00 ≤ first then .multicast
            else if 0xFE80 ≤ first ∧ first < 0xFEC0 then .linkLocal
            else .specific
  | none => .specific

/-- An entry of `listeners`. -/
structure ServiceListener where
  protocol : Transport
  family : InetFamily
  address : String
  port : ℤ
  bindScope : BindScope
  networkNamespace : NetworkNamespace
  pid : Option ℕ
  pids : List ℕ
  details : Option Details
  cryptoLibraries : List Library
  cryptoLibrariesFrom : Option LibrariesFrom
  deriving DecidableEq

/-- The Go record of a listener. -/
def ServiceListener.go (listener : ServiceListener) : Option GoDetails :=
  listener.details.bind Details.go

/-- `_service_pid`. -/
def servicePid (pids : List ℕ) : Option ℕ :=
  match pids.filter (· ≠ 1) with
  | [] => pids.head?
  | pid :: _ => some pid

/-- The libraries of a listener: those of its process, or else of its workers. -/
def listenerLibraries (mode : Mode) (host : Host) (pids holders : List ℕ) (owner : ℕ)
    (details : Details) (memo : Attribution) :
    Scanner ((List Library × Option LibrariesFrom) × Attribution) :=
  if details.hasCrypto then return ((details.cryptoLibraries, none), memo)
  else do
    let worker ← workerCrypto mode host.chars host.later pids owner holders memo
    match worker.1 with
    | none => return ((details.cryptoLibraries, none), worker.2)
    | some (libs, source) => return ((libs, some source), worker.2)

/-- One turn of the second loop. -/
def listenerTurn (mode : Mode) (host : Host) (pids : List ℕ) (owners : Dict ℤ (List ℕ))
    (state : List ServiceListener × Attribution) (entry : ℤ × (Socket × NetworkNamespace)) :
    Scanner (List ServiceListener × Attribution) := do
  let socket := entry.2.1
  let holders := sortedBy id ((owners.get? entry.1).getD []).dedup
  let listener : ServiceListener :=
    { protocol := socket.protocol
      family := socket.family
      address := socket.address
      port := socket.port
      bindScope := bindScope socket.address
      networkNamespace := entry.2.2
      pid := servicePid holders
      pids := holders
      details := none
      cryptoLibraries := []
      cryptoLibrariesFrom := none }
  match servicePid holders with
  | none => return (state.1 ++ [listener], state.2)
  | some owner => do
      let read ← detailsOf mode host.chars host.later state.2 owner
      let libs ← listenerLibraries mode host pids holders owner read.1 read.2
      return (state.1 ++ [{ listener with
        details := some read.1
        cryptoLibraries := libs.1.1
        cryptoLibrariesFrom := libs.1.2 }], libs.2)

/-- The counts of a service scan. -/
structure ServiceSummary where
  listeners : ℕ
  unattributedListeners : ℕ
  listenersByCryptoFamily : List (String × ℕ)
  listenersWithDeletedCryptoLibrary : ℕ
  deriving DecidableEq

/-- The result of `scan_services`. -/
structure ServiceScan where
  listeners : List ServiceListener
  summary : ServiceSummary
  scannedPids : ℕ
  unreadablePids : ℕ
  truncated : Bool

/-- The families that a set of libraries and a Go record count for. -/
def cryptoFamilies (libs : List Library) (go : Option GoDetails) : List String :=
  ((libs.map fun lib => lib.family.name) ++ if go.isSome then ["go"] else []).dedup

/-- The summary of the listeners. -/
def serviceSummary (listeners : List ServiceListener) : ServiceSummary where
  listeners := listeners.length
  unattributedListeners := listeners.countP fun listener => listener.pid.isNone
  listenersByCryptoFamily := (Dict.tally (listeners.flatMap fun listener =>
    let families := cryptoFamilies listener.cryptoLibraries listener.go
    (if families = [] then ["none"] else families).map fun family => (family, 1))).sortedItems
  listenersWithDeletedCryptoLibrary := listeners.countP fun listener =>
    listener.cryptoLibraries.any Library.deleted

/-- The order of the listeners. -/
def listenerOrder (listener : ServiceListener) : String ×ₗ ℤ ×ₗ String ×ₗ String :=
  toLex (listener.protocol.name, toLex (listener.port,
    toLex (match listener.family with | .ipv4 => "ipv4" | .ipv6 => "ipv6", listener.address)))

/-- `scan_services`; an error is `available: False` with its reason. -/
def scanServices (mode : Mode) (host : Host) (maxPids : ℕ) :
    Scanner (Except String ServiceScan) :=
  if host.pids = [] then return .error "cannot list /proc"
  else do
    let pids := host.pids.take maxPids
    let visited := inTime host.late pids
    let collected ← visited.foldlM (socketsTurn mode host) .start
    let read ← collected.sockets.entries.foldlM (listenerTurn mode host pids collected.owners)
      ([], ⟨.empty, .empty⟩)
    let listeners := sortedBy listenerOrder read.1
    return .ok {
      listeners := listeners
      summary := serviceSummary listeners
      scannedPids := visited.length
      unreadablePids := collected.unreadable
      truncated := maxPids < host.pids.length ∨ visited.length < pids.length }

end PqcReadiness.Runtime
