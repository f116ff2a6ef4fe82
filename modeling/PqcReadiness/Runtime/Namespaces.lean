import PqcReadiness.Runtime.Processes

/-!
# Sockets of a namespace

Both scans read the socket tables of a network namespace once, through the first process that
they see there.  If that process exits before its tables are read, or denies them, the sockets
of every other process in the namespace are lost.

`Holds` are the sockets that a scan could report: a process that can be read holds them and
lists them.  `sockets_shown_iff` says for which hosts they are reported.

## Strategy

What the first loop of `scan_services` knows of a socket is the first listing in the tables that it
has read, and the owners of a socket are the processes that hold it (`socketsLoop_spec`).  The loop
of `scan_processes` keeps `Inspected`.
-/

namespace PqcReadiness.Runtime

open PqcReadiness.Lib PqcReadiness.Lib.Bytes

/-! ## What could be reported -/

/-- The listening sockets in the tables of a process. -/
def listed (host : Host) (pid : ℕ) : List Socket :=
  match (listeningSockets .strict host.order (host.proc pid)).ended with
  | .ok sockets => sockets
  | .error _ => []

/-- The inodes of the sockets that a process is known to hold. -/
def held (host : Host) (pid : ℕ) : List ℤ := (socketInodes (host.proc pid)).getD []

/-- A process whose namespace link, tables and fd table can be read holds a socket that its
tables list. -/
structure Holds (host : Host) (pid : ℕ) (socket : Socket) : Prop where
  netns : (host.proc pid).netns.isSome
  tables : ∀ table, ∃ data, (host.proc pid).net table = .ok data
  fd : ∃ targets, (host.proc pid).fd = .ok targets ∧ FdTarget.socket socket.inode ∈ targets
  lists : socket ∈ listed host pid

/-- A listener shows a socket. -/
structure ServiceListener.Shows (listener : ServiceListener) (socket : Socket) : Prop where
  protocol : listener.protocol = socket.protocol
  family : listener.family = socket.family
  address : listener.address = socket.address
  port : listener.port = socket.port

/-- Every socket that could be reported is, with the process that holds it. -/
def SocketsReported (host : Host) (listeners : List ServiceListener) : Prop :=
  ∀ pid ∈ host.pids, ∀ socket, Holds host pid socket →
    ∃ listener ∈ listeners, listener.Shows socket ∧ pid ∈ listener.pids

/-! ## What is read -/

/-- The processes through which the tables are read: those whose link has not been seen. -/
def readers (host : Host) : List (Option String) → List ℕ → List ℕ
  | _, [] => []
  | seen, pid :: rest =>
      let link := (host.proc pid).netns
      if seen.contains link then readers host seen rest
      else pid :: readers host (seen ++ [link]) rest

/-- The first listing of an inode in the tables that are read. -/
def firstListing (host : Host) (seen : List (Option String)) (pids : List ℕ) (inode : ℤ) :
    Option Socket :=
  ((readers host seen pids).flatMap (listed host)).find? fun socket => socket.inode = inode

/-- The same protocol, address and port. -/
structure Socket.SameEndpoint (socket other : Socket) : Prop where
  protocol : socket.protocol = other.protocol
  family : socket.family = other.family
  address : socket.address = other.address
  port : socket.port = other.port

/-- For every socket that could be reported, the process holds a socket on its endpoint that is
the first listing of its inode in the tables that are read. -/
def SocketsRead (host : Host) : Prop :=
  ∀ pid ∈ host.pids, ∀ socket, Holds host pid socket →
    ∃ shown : Socket, shown.SameEndpoint socket ∧ shown.inode ∈ held host pid ∧
      firstListing host [] host.pids shown.inode = some shown

/-! ## The first loop of `scan_services` -/

section Services

variable {host : Host} {state next : Sockets} {pid : ℕ}

theorem get?_addSockets (state : Sockets) (ns : NetworkNamespace) (sockets : List Socket)
    (inode : ℤ) :
    ((state.addSockets ns sockets).sockets.get? inode).map Prod.fst =
      ((state.sockets.get? inode).map Prod.fst <|>
        sockets.find? fun socket => socket.inode = inode) := by
  unfold Sockets.addSockets
  dsimp only
  generalize state.sockets = known
  induction sockets generalizing known with
  | nil => simp
  | cons socket rest ih =>
      rw [List.foldl_cons, ih, Dict.get?_update, List.find?_cons]
      by_cases hinode : socket.inode = inode
      · subst hinode
        cases hknown : known.get? socket.inode <;> simp
      · have hother : ¬ inode = socket.inode := fun h => hinode h.symm
        simp [hinode, hother]

theorem owners_addOwner (state : Sockets) (pid : ℕ) {inodes : List ℤ} (hnodup : inodes.Nodup)
    (inode : ℤ) :
    ((state.addOwner pid inodes).owners.get? inode).getD [] =
      (state.owners.get? inode).getD [] ++ if inode ∈ inodes then [pid] else [] := by
  unfold Sockets.addOwner
  dsimp only
  generalize state.owners = owners
  induction inodes generalizing owners with
  | nil => simp
  | cons first rest ih =>
      obtain ⟨hfirst, hrest⟩ := List.nodup_cons.mp hnodup
      rw [List.foldl_cons, ih hrest, Dict.get?_update]
      by_cases hinode : inode = first
      · subst hinode
        simp [hfirst]
      · simp [hinode]

theorem nodup_socketInodes {proc : Proc} {inodes : List ℤ}
    (hinodes : socketInodes proc = some inodes) : inodes.Nodup := by
  unfold socketInodes at hinodes
  split at hinodes
  · cases hinodes
  · obtain rfl := Option.some.inj hinodes
    exact List.nodup_nil
  · obtain rfl := Option.some.inj hinodes
    exact List.nodup_dedup _

theorem sockets_addProcess (state : Sockets) (pid : ℕ) (proc : Proc) :
    (state.addProcess pid proc).sockets = state.sockets ∧
      (state.addProcess pid proc).seenNs = state.seenNs := by
  unfold Sockets.addProcess
  split <;> exact ⟨rfl, rfl⟩

theorem owners_addProcess (state : Sockets) (pid : ℕ) (inode : ℤ) :
    ((state.addProcess pid (host.proc pid)).owners.get? inode).getD [] =
      (state.owners.get? inode).getD [] ++ if inode ∈ held host pid then [pid] else [] := by
  unfold Sockets.addProcess held
  cases hinodes : socketInodes (host.proc pid) with
  | none => simp
  | some inodes => exact owners_addOwner state pid (nodup_socketInodes hinodes) inode

/-- What the tables that one turn reads add. -/
theorem readNamespace_spec
    (hread : (readNamespace .strict host state (host.proc pid)).ended = .ok next) :
    next.owners = state.owners ∧
      (next.seenNs = if (host.proc pid).netns ∈ state.seenNs then state.seenNs
        else state.seenNs ++ [(host.proc pid).netns]) ∧
      ∀ inode, (next.sockets.get? inode).map Prod.fst =
        ((state.sockets.get? inode).map Prod.fst <|>
          if (host.proc pid).netns ∈ state.seenNs then none
          else (listed host pid).find? fun socket => socket.inode = inode) := by
  unfold readNamespace at hread
  split at hread
  · next hseen =>
      obtain rfl := Except.ok.inj hread
      refine ⟨rfl, (if_pos hseen).symm, fun inode => ?_⟩
      rw [if_pos hseen, Option.orElse_eq_orElse, Option.orElse_eq_or, Option.or_none]
  · next hseen =>
      obtain ⟨sockets, hsockets, hread⟩ := Gen.bind_ended_ok.mp hread
      obtain rfl := Except.ok.inj hread
      have hlisted : listed host pid = sockets := by rw [listed, hsockets]
      refine ⟨rfl, (if_neg hseen).symm, fun inode => ?_⟩
      rw [if_neg hseen, hlisted]
      exact get?_addSockets _ _ _ _

theorem socketsTurn_spec (hturn : (socketsTurn .strict host state pid).ended = .ok next) :
    (next.seenNs = if (host.proc pid).netns ∈ state.seenNs then state.seenNs
        else state.seenNs ++ [(host.proc pid).netns]) ∧
      (∀ inode, (next.sockets.get? inode).map Prod.fst =
        ((state.sockets.get? inode).map Prod.fst <|>
          if (host.proc pid).netns ∈ state.seenNs then none
          else (listed host pid).find? fun socket => socket.inode = inode)) ∧
      ∀ inode, (next.owners.get? inode).getD [] =
        (state.owners.get? inode).getD [] ++ if inode ∈ held host pid then [pid] else [] := by
  obtain ⟨read, hread, hturn⟩ := Gen.bind_ended_ok.mp hturn
  obtain rfl := Except.ok.inj hturn
  obtain ⟨howners, hseen, hsockets⟩ := readNamespace_spec hread
  obtain ⟨hsame, hsameSeen⟩ := sockets_addProcess read pid (host.proc pid)
  refine ⟨hsameSeen.trans hseen, fun inode => ?_, fun inode => ?_⟩
  · rw [hsame, hsockets]
  · rw [owners_addProcess, howners]

/-- The first loop: a socket is known by its first listing in the tables that are read, and
owned by the processes that hold it. -/
theorem socketsLoop_spec {pids : List ℕ} {final : Sockets}
    (hrun : (pids.foldlM (socketsTurn .strict host) state).ended = .ok final) :
    (∀ inode, (final.sockets.get? inode).map Prod.fst =
      ((state.sockets.get? inode).map Prod.fst <|> firstListing host state.seenNs pids inode)) ∧
      ∀ inode, (final.owners.get? inode).getD [] =
        (state.owners.get? inode).getD [] ++ pids.filter fun pid => inode ∈ held host pid := by
  induction pids generalizing state with
  | nil =>
      obtain rfl := Except.ok.inj hrun
      refine ⟨fun inode => ?_, fun inode => by simp⟩
      rw [firstListing, readers, List.flatMap_nil, List.find?_nil]
      simp
  | cons pid rest ih =>
      rw [List.foldlM_cons] at hrun
      obtain ⟨next, hturn, hrun⟩ := Gen.bind_ended_ok.mp hrun
      obtain ⟨hseen, hsockets, howners⟩ := socketsTurn_spec hturn
      obtain ⟨hrestSockets, hrestOwners⟩ := ih hrun
      refine ⟨fun inode => ?_, fun inode => ?_⟩
      · rw [hrestSockets, hsockets, hseen, firstListing, firstListing, readers]
        simp only [List.contains_iff_mem]
        by_cases hlink : (host.proc pid).netns ∈ state.seenNs
        · rw [if_pos hlink, if_pos hlink, if_pos hlink]
          simp
        · rw [if_neg hlink, if_neg hlink, if_neg hlink, List.flatMap_cons, List.find?_append]
          simp [Option.or_assoc]
      · rw [hrestOwners, howners, List.filter_cons]
        by_cases hheld : inode ∈ held host pid
        · simp [hheld]
        · simp [hheld]

/-! ## The listeners of `scan_services` -/

/-- The listener of an entry. -/
structure ListenerOf (owners : Dict ℤ (List ℕ)) (entry : ℤ × (Socket × NetworkNamespace))
    (listener : ServiceListener) : Prop where
  shows : listener.Shows entry.2.1
  pids : listener.pids = sortedBy id ((owners.get? entry.1).getD []).dedup

variable {pids : List ℕ} {owners : Dict ℤ (List ℕ)}

theorem listenerTurn_spec {before after : List ServiceListener × Attribution}
    {entry : ℤ × (Socket × NetworkNamespace)}
    (hturn : (listenerTurn .strict host pids owners before entry).ended = .ok after) :
    ∃ listener, after.1 = before.1 ++ [listener] ∧ ListenerOf owners entry listener := by
  unfold listenerTurn at hturn
  dsimp only at hturn
  split at hturn
  · obtain rfl := Except.ok.inj hturn
    exact ⟨_, rfl, ⟨rfl, rfl, rfl, rfl⟩, rfl⟩
  · obtain ⟨read, _, hturn⟩ := Gen.bind_ended_ok.mp hturn
    obtain ⟨libs, _, hturn⟩ := Gen.bind_ended_ok.mp hturn
    obtain rfl := Except.ok.inj hturn
    exact ⟨_, rfl, ⟨rfl, rfl, rfl, rfl⟩, rfl⟩

/-- The second loop: one listener for each socket. -/
theorem listenersLoop_spec {entries : List (ℤ × (Socket × NetworkNamespace))}
    {before after : List ServiceListener × Attribution}
    (hrun : (entries.foldlM (listenerTurn .strict host pids owners) before).ended = .ok after) :
    ∃ added, after.1 = before.1 ++ added ∧
      (∀ entry ∈ entries, ∃ listener ∈ added, ListenerOf owners entry listener) ∧
      ∀ listener ∈ added, ∃ entry ∈ entries, ListenerOf owners entry listener := by
  induction entries generalizing before with
  | nil =>
      obtain rfl := Except.ok.inj hrun
      exact ⟨[], (List.append_nil _).symm, by simp, by simp⟩
  | cons entry rest ih =>
      rw [List.foldlM_cons] at hrun
      obtain ⟨next, hturn, hrun⟩ := Gen.bind_ended_ok.mp hrun
      obtain ⟨listener, hnext, hlistener⟩ := listenerTurn_spec hturn
      obtain ⟨added, hafter, hshown, hof⟩ := ih hrun
      refine ⟨listener :: added, by rw [hafter, hnext, List.append_assoc]; rfl, ?_, ?_⟩
      · rw [List.forall_mem_cons]
        refine ⟨⟨listener, List.mem_cons_self, hlistener⟩, fun other hother => ?_⟩
        obtain ⟨found, hfound, hfoundOf⟩ := hshown other hother
        exact ⟨found, List.mem_cons_of_mem _ hfound, hfoundOf⟩
      · rw [List.forall_mem_cons]
        refine ⟨⟨entry, List.mem_cons_self, hlistener⟩, fun other hother => ?_⟩
        obtain ⟨found, hfound, hfoundOf⟩ := hof other hother
        exact ⟨found, List.mem_cons_of_mem _ hfound, hfoundOf⟩

/-- A loop that is not cut off gets to every process. -/
theorem inTime_eq {late : ℕ → Bool} {pids : List ℕ}
    (hlength : ¬ (inTime late pids).length < pids.length) : inTime late pids = pids := by
  have hsublist : (inTime late pids).Sublist pids := by
    have htake : (pids.zipIdx.takeWhile fun entry => !late entry.2).Sublist pids.zipIdx :=
      List.takeWhile_sublist _
    have hmap := htake.map Prod.fst
    rwa [List.zipIdx_map_fst] at hmap
  exact hsublist.eq_of_length_le (Nat.le_of_not_lt hlength)

/-- What the scan reports: one listener for each first listing, with the processes that hold
it. -/
theorem scanServices_spec {maxPids : ℕ} {scan : ServiceScan}
    (hrun : (scanServices .strict host maxPids).ended = .ok (.ok scan))
    (hcomplete : scan.truncated = false) :
    ∃ entries : List (ℤ × (Socket × NetworkNamespace)), ∃ owners : Dict ℤ (List ℕ),
      (∀ inode socket, (∃ ns, (inode, (socket, ns)) ∈ entries) ↔
        firstListing host [] host.pids inode = some socket) ∧
      (∀ inode pid, pid ∈ (owners.get? inode).getD [] ↔
        pid ∈ host.pids ∧ inode ∈ held host pid) ∧
      (∀ entry ∈ entries, ∃ listener ∈ scan.listeners, ListenerOf owners entry listener) ∧
      ∀ listener ∈ scan.listeners, ∃ entry ∈ entries, ListenerOf owners entry listener := by
  unfold scanServices at hrun
  split at hrun
  · cases Except.ok.inj hrun
  · obtain ⟨collected, hcollected, hrun⟩ := Gen.bind_ended_ok.mp hrun
    obtain ⟨read, hread, hrun⟩ := Gen.bind_ended_ok.mp hrun
    obtain rfl := Except.ok.inj (Except.ok.inj hrun)
    simp only [decide_eq_false_iff_not, not_or] at hcomplete
    have htake : host.pids.take maxPids = host.pids :=
      List.take_of_length_le (Nat.le_of_not_lt hcomplete.1)
    have hvisited : inTime host.late (host.pids.take maxPids) = host.pids := by
      rw [inTime_eq hcomplete.2, htake]
    rw [hvisited] at hcollected
    obtain ⟨hsockets, howners⟩ := socketsLoop_spec hcollected
    obtain ⟨added, hadded, hshown, hof⟩ := listenersLoop_spec hread
    rw [List.nil_append] at hadded
    refine ⟨collected.sockets.entries, collected.owners, ?_, ?_, ?_, ?_⟩
    · intro inode socket
      have hfirst := hsockets inode
      simp only [Sockets.start, Dict.get?_empty, Option.map_none] at hfirst
      rw [show firstListing host [] host.pids inode = (none <|> firstListing host [] host.pids inode)
        by simp, ← hfirst, Option.map_eq_some_iff]
      constructor
      · rintro ⟨ns, hmem⟩
        exact ⟨(socket, ns), collected.sockets.mem_entries_iff.mp hmem, rfl⟩
      · rintro ⟨entry, hentry, hsocket⟩
        refine ⟨entry.2, collected.sockets.mem_entries_iff.mpr ?_⟩
        rw [hentry, ← hsocket]
    · intro inode pid
      rw [howners]
      simp [Sockets.start]
    · intro entry hentry
      obtain ⟨listener, hlistener, hlistenerOf⟩ := hshown entry hentry
      exact ⟨listener, by rw [mem_sortedBy, hadded]; exact hlistener, hlistenerOf⟩
    · intro listener hlistener
      rw [mem_sortedBy, hadded] at hlistener
      exact hof listener hlistener

theorem firstListing_inode {seen : List (Option String)} {inode : ℤ} {socket : Socket}
    (hfirst : firstListing host seen pids inode = some socket) : socket.inode = inode := by
  simpa using List.find?_some hfirst

theorem socketsReported_iff {maxPids : ℕ} {scan : ServiceScan}
    (hrun : (scanServices .strict host maxPids).ended = .ok (.ok scan))
    (hcomplete : scan.truncated = false) :
    SocketsReported host scan.listeners ↔ SocketsRead host := by
  obtain ⟨entries, owners, hentries, howners, hshown, hof⟩ := scanServices_spec hrun hcomplete
  constructor
  · intro hreported pid hpid socket hholds
    obtain ⟨listener, hlistener, hshows, hpids⟩ := hreported pid hpid socket hholds
    obtain ⟨entry, hentry, hentryShows, hentryPids⟩ := hof listener hlistener
    rw [hentryPids, mem_sortedBy, List.mem_dedup] at hpids
    have hfirst := (hentries entry.1 entry.2.1).mp ⟨entry.2.2, hentry⟩
    have hinode := firstListing_inode hfirst
    refine ⟨entry.2.1, ?_, ?_, ?_⟩
    · exact ⟨hentryShows.protocol.symm.trans hshows.protocol,
        hentryShows.family.symm.trans hshows.family,
        hentryShows.address.symm.trans hshows.address, hentryShows.port.symm.trans hshows.port⟩
    · rw [hinode]
      exact ((howners _ _).mp hpids).2
    · rw [hinode]
      exact hfirst
  · intro hread pid hpid socket hholds
    obtain ⟨shown, hsame, hheld, hfirst⟩ := hread pid hpid socket hholds
    obtain ⟨ns, hmem⟩ := (hentries shown.inode shown).mpr hfirst
    obtain ⟨listener, hlistener, hlistenerShows, hpids⟩ := hshown _ hmem
    refine ⟨listener, hlistener, ?_, ?_⟩
    · exact ⟨hlistenerShows.protocol.trans hsame.protocol,
        hlistenerShows.family.trans hsame.family,
        hlistenerShows.address.trans hsame.address, hlistenerShows.port.trans hsame.port⟩
    · rw [hpids, mem_sortedBy, List.mem_dedup]
      exact (howners _ _).mpr ⟨hpid, hheld⟩

end Services

/-! ## The roles of `scan_processes` -/

/-- Whether the mappings of a process can be read, without which it is not inspected. -/
def mapsReadable (host : Host) (pid : ℕ) : Bool :=
  match (host.proc pid).maps with
  | .ok _ => true
  | .error _ => false

/-- The process through which the tables of a namespace are read. -/
def tablesReader (host : Host) (pids : List ℕ) (link : Option String) : Option ℕ :=
  (pids.filter (mapsReadable host)).find? fun pid => (host.proc pid).netns = link

/-- Every process with crypto that holds a listening socket is counted as a server. -/
def ServersCounted (host : Host) (observed : List (ℕ × Observation)) : Prop :=
  ∀ pid process socket, (pid, Observation.crypto process) ∈ observed → Holds host pid socket →
    process.role = .server

/-- Of every such process, a socket is listed in the tables that are read for its namespace. -/
def ServersRead (host : Host) (pids : List ℕ) (observed : List (ℕ × Observation)) : Prop :=
  ∀ pid process socket, (pid, Observation.crypto process) ∈ observed → Holds host pid socket →
    ∃ reader, tablesReader host pids (host.proc pid).netns = some reader ∧
      ∃ inode ∈ held host pid, inode ∈ (listed host reader).map Socket.inode

/-- What the loop keeps: its tables are those of the first process of each namespace, and the
roles follow from them. -/
structure Inspected (host : Host) (state : Inspection) (seen : List ℕ) : Prop where
  tables : ∀ link, (state.tables.get? link).map NetnsTables.listening =
    (tablesReader host seen link).map fun reader => (listed host reader).map Socket.inode
  roles : ∀ pid process, (pid, Observation.crypto process) ∈ state.observed →
    ∃ tables, state.tables.get? (host.proc pid).netns = some tables ∧
      process.role = role (held host pid) tables

section Processes

variable {host : Host} {state next : Inspection} {seen : List ℕ} {pid : ℕ}

theorem tablesReader_append_unreadable (hmaps : mapsReadable host pid = false)
    (link : Option String) :
    tablesReader host (seen ++ [pid]) link = tablesReader host seen link := by
  rw [tablesReader, tablesReader, List.filter_append, List.filter_cons_of_neg (by simp [hmaps]),
    List.filter_nil, List.append_nil]

theorem tablesReader_append_readable (hmaps : mapsReadable host pid = true)
    (link : Option String) :
    tablesReader host (seen ++ [pid]) link =
      (tablesReader host seen link <|> if (host.proc pid).netns = link then some pid else none) := by
  rw [tablesReader, tablesReader, List.filter_append, List.filter_cons_of_pos hmaps,
    List.filter_nil, List.find?_append, List.find?_singleton]
  simp

/-- An observation without crypto changes nothing. -/
theorem Inspected.note (hstate : Inspected host state seen) {observation : Observation}
    (hobservation : ∀ process, observation = .crypto process →
      ∃ tables, state.tables.get? (host.proc pid).netns = some tables ∧
        process.role = role (held host pid) tables) :
    Inspected host (state.note pid observation) seen := by
  refine ⟨hstate.tables, ?_⟩
  intro other process hmem
  rw [Inspection.note] at hmem
  rcases List.mem_append.mp hmem with hmem | hmem
  · exact hstate.roles other process hmem
  · obtain ⟨rfl, rfl⟩ := Prod.mk.inj (List.mem_singleton.mp hmem)
    exact hobservation process rfl

/-- The tables of the namespace of a process, and what the loop knows after it has them. -/
theorem tablesOf_spec {read : NetnsTables × Inspection} (hstate : Inspected host state seen)
    (hmaps : mapsReadable host pid = true)
    (hread : (tablesOf .strict host state (host.proc pid)).ended = .ok read) :
    Inspected host read.2 (seen ++ [pid]) ∧
      read.2.tables.get? (host.proc pid).netns = some read.1 := by
  unfold tablesOf at hread
  cases hknown : state.tables.get? (host.proc pid).netns with
  | some tables =>
      rw [hknown] at hread
      obtain rfl := Except.ok.inj hread
      refine ⟨⟨?_, hstate.roles⟩, hknown⟩
      intro link
      rw [tablesReader_append_readable hmaps, hstate.tables]
      by_cases hlink : (host.proc pid).netns = link
      · -- The namespace has a reader already.
        have hreader := hstate.tables link
        rw [← hlink, hknown, Option.map_some] at hreader
        obtain ⟨reader, hreader, _⟩ := Option.map_eq_some_iff.mp hreader.symm
        rw [← hlink, hreader]
        simp
      · simp [hlink]
  | none =>
      rw [hknown] at hread
      obtain ⟨tables, htables, hread⟩ := Gen.bind_ended_ok.mp hread
      obtain rfl := Except.ok.inj hread
      have hlistening : tables.listening = (listed host pid).map Socket.inode := by
        obtain ⟨sockets, hsockets, htables⟩ := Gen.bind_ended_ok.mp htables
        obtain ⟨established, _, htables⟩ := Gen.bind_ended_ok.mp htables
        obtain rfl := Except.ok.inj htables
        rw [listed, hsockets]
      refine ⟨⟨?_, ?_⟩, ?_⟩
      · intro link
        rw [tablesReader_append_readable hmaps, Dict.get?_update]
        by_cases hlink : (host.proc pid).netns = link
        · have hreader := hstate.tables link
          rw [← hlink, hknown, Option.map_none] at hreader
          have hreader := Option.map_eq_none_iff.mp hreader.symm
          rw [← hlink, hreader]
          simp [hlistening]
        · have hother : ¬ link = (host.proc pid).netns := fun h => hlink h.symm
          rw [if_neg hother, hstate.tables]
          simp [hlink]
      · intro other process hmem
        obtain ⟨tables', htables', hrole⟩ := hstate.roles other process hmem
        refine ⟨tables', ?_, hrole⟩
        rw [Dict.get?_update, if_neg, htables']
        intro hsame
        rw [hsame, hknown] at htables'
        cases htables'
      · rw [Dict.get?_update, if_pos rfl]

theorem role_of_observation {proc : Proc} {tables : NetnsTables} {details : Details}
    {process : CryptoProcess} (hprocess : observation host proc tables details = .crypto process) :
    process.role = role ((socketInodes proc).getD []) tables := by
  unfold observation at hprocess
  split at hprocess
  · obtain rfl := Observation.crypto.inj hprocess
    rfl
  · cases hprocess

/-- A text that is read was there. -/
theorem readText_strict {file : File} {answer : Except OsError String}
    (hread : (readText .strict file).ended = .ok answer) :
    (∃ e, file = .error e ∧ answer = .error e) ∨ ∃ data text, file = .ok data ∧ answer = .ok text := by
  cases file with
  | error e => exact Or.inl ⟨e, rfl, (Except.ok.inj hread).symm⟩
  | ok data =>
      obtain ⟨_, hcheck, hread⟩ := Gen.bind_ended_ok.mp hread
      obtain ⟨_, _, hcheck⟩ := Gen.bind_ended_ok.mp hcheck
      have hconverts : ¬ (Mode.strict = .strict ∧ ¬ (Conversion.text data).converts) :=
        raiseIf_ok.mp hcheck
      cases hdecode : decodeUtf8 data with
      | none => simp [Conversion.converts, hdecode] at hconverts
      | some text =>
          rw [hdecode] at hread
          exact Or.inr ⟨data, _, rfl, (Except.ok.inj hread).symm⟩

theorem observeTurn_inspected (hstate : Inspected host state seen)
    (hturn : (observeTurn .strict host state pid).ended = .ok next) :
    Inspected host next (seen ++ [pid]) := by
  obtain ⟨maps, hmaps, hturn⟩ := Gen.bind_ended_ok.mp hturn
  have hskip : ∀ {e : OsError} {observation : Observation}, (host.proc pid).maps = .error e →
      (∀ process, observation ≠ .crypto process) →
      Inspected host (state.note pid observation) (seen ++ [pid]) := by
    intro e observation herror hnot
    have hunreadable : mapsReadable host pid = false := by rw [mapsReadable, herror]
    refine Inspected.note ⟨fun link => ?_, hstate.roles⟩ fun process hprocess =>
      absurd hprocess (hnot process)
    rw [hstate.tables, tablesReader_append_unreadable hunreadable]
  rcases readText_strict hmaps with ⟨e, herror, rfl⟩ | ⟨data, text, hdata, rfl⟩
  · cases e with
    | permission =>
        obtain rfl := Except.ok.inj hturn
        exact hskip herror (by simp)
    | other =>
        obtain rfl := Except.ok.inj hturn
        exact hskip herror (by simp)
  · have hreadable : mapsReadable host pid = true := by rw [mapsReadable, hdata]
    obtain ⟨read, hread, hturn⟩ := Gen.bind_ended_ok.mp hturn
    obtain ⟨hinspected, htables⟩ := tablesOf_spec hstate hreadable hread
    dsimp only at hturn
    split at hturn
    · obtain rfl := Except.ok.inj hturn
      exact hinspected.note (by simp)
    · obtain ⟨details, _, hturn⟩ := Gen.bind_ended_ok.mp hturn
      obtain rfl := Except.ok.inj hturn
      have hcached : Inspected host { read.2 with cache := details.2 } (seen ++ [pid]) :=
        ⟨hinspected.tables, hinspected.roles⟩
      exact hcached.note fun process hprocess => ⟨read.1, htables, role_of_observation hprocess⟩

theorem role_eq_server_iff {inodes : List ℤ} {tables : NetnsTables} :
    role inodes tables = .server ↔ ∃ inode ∈ inodes, inode ∈ tables.listening := by
  unfold role
  split
  · next hserver => simpa using hserver
  · next hserver =>
      have hnone : ¬ ∃ inode ∈ inodes, inode ∈ tables.listening := by simpa using hserver
      split
      · simpa using hnone
      · simpa using hnone

theorem serversCounted_iff {maxPids : ℕ} {observed : List (ℕ × Observation)}
    (hrun : (observeProcesses .strict host maxPids).ended = .ok observed) :
    ServersCounted host observed ↔
      ServersRead host (inTime host.late (inspectedPids host maxPids)) observed := by
  obtain ⟨final, hfinal, hrun⟩ := Gen.bind_ended_ok.mp hrun
  obtain rfl := Except.ok.inj hrun
  have hstart : Inspected host .start [] := ⟨fun _ => rfl, by simp [Inspection.start]⟩
  have hinspected : Inspected host final (inTime host.late (inspectedPids host maxPids)) :=
    Gen.foldlM_keeps (fun _ _ _ _ hstate hturn => observeTurn_inspected hstate hturn) hstart hfinal
  have hrole : ∀ pid process, (pid, Observation.crypto process) ∈ final.observed →
      (process.role = .server ↔
        ∃ reader, tablesReader host (inTime host.late (inspectedPids host maxPids))
            (host.proc pid).netns = some reader ∧
          ∃ inode ∈ held host pid, inode ∈ (listed host reader).map Socket.inode) := by
    intro pid process hmem
    obtain ⟨tables, htables, hrole⟩ := hinspected.roles pid process hmem
    have hreader := hinspected.tables (host.proc pid).netns
    rw [htables, Option.map_some] at hreader
    obtain ⟨reader, hreader, hlistening⟩ := Option.map_eq_some_iff.mp hreader.symm
    rw [hrole, role_eq_server_iff, hreader, ← hlistening]
    simp
  constructor
  · intro hcounted pid process socket hmem hholds
    exact (hrole pid process hmem).mp (hcounted pid process socket hmem hholds)
  · intro hread pid process socket hmem hholds
    exact (hrole pid process hmem).mpr (hread pid process socket hmem hholds)

end Processes

/-- **A scan reports the sockets of every process that it can read, exactly if they are listed
in the tables that it reads through the first process of each namespace.** -/
theorem sockets_shown_iff (host : Host) (maxPids : ℕ) :
    (∀ scan, (scanServices .strict host maxPids).ended = .ok (.ok scan) →
      scan.truncated = false → (SocketsReported host scan.listeners ↔ SocketsRead host)) ∧
    ∀ observed, (observeProcesses .strict host maxPids).ended = .ok observed →
      (ServersCounted host observed ↔
        ServersRead host (inTime host.late (inspectedPids host maxPids)) observed) :=
  ⟨fun _ hrun hcomplete => socketsReported_iff hrun hcomplete,
    fun _ hrun => serversCounted_iff hrun⟩

/-- A server that maps GnuTLS and listens on port 443. -/
def httpd : Proc :=
  { Proc.exited with
    maps := .ok (encodeAscii "1-2 r-xp 0 fd:00 5 /usr/lib64/libgnutls.so.30\n")
    net := fun table =>
      match table with
      | .tcp => .ok (encodeAscii "sl\n0: 00000000:01BB 00000000:0000 0A 0 0 0 0 0 77\n")
      | _ => .ok []
    exe := some "/usr/sbin/httpd"
    netns := some "net:[1]"
    fd := .ok [.socket 77] }

/-- A process of the same namespace that exits after its link and its mappings have been read. -/
def exiting : Proc :=
  { Proc.exited with
    maps := .ok []
    exe := some "/usr/bin/true"
    netns := some "net:[1]" }

/-- A host with these processes. -/
def smallHost (entries : List ℕ) (proc : ℕ → Proc) : Host where
  entries := entries
  proc := proc
  later := proc
  initNetns := none
  ownPid := none
  late _ := false
  order := .little
  chars := ⟨id, fun c => c.isAlphanum || c == '_'⟩

theorem httpd_shown :
    let host := smallHost [8] fun _ => httpd
    (∃ scan, (scanServices .strict host 10).ended = .ok (.ok scan) ∧ scan.truncated = false ∧
      (SocketsReported host scan.listeners ↔ SocketsRead host)) ∧
    ∃ observed, (observeProcesses .strict host 10).ended = .ok observed ∧
      (ServersCounted host observed ↔
        ServersRead host (inTime host.late (inspectedPids host 10)) observed) := by
  refine ⟨⟨_, rfl, rfl, ?_⟩, _, rfl, ?_⟩
  · exact (sockets_shown_iff _ 10).1 _ rfl rfl
  · exact (sockets_shown_iff _ 10).2 _ rfl

/-- A server on a host where a process with a lower pid exits. -/
def exitingHost : Host := smallHost [7, 8] fun pid => if pid = 7 then exiting else httpd

theorem exitingHost_holds : Holds exitingHost 8 ⟨.tcp, .ipv4, "0.0.0.0", 443, 77⟩ := by
  refine ⟨rfl, ?_, ⟨_, rfl, List.mem_singleton.mpr rfl⟩, List.mem_singleton.mpr rfl⟩
  intro table
  cases table <;> exact ⟨_, rfl⟩

/-- The role that a process is counted with. -/
def Observation.role? : Observation → Option Role
  | .crypto process => some process.role
  | _ => none

/-- The server is counted as idle. -/
theorem exitingHost_roles :
    ((observeProcesses .strict exitingHost 10).ended.toOption.map fun observed =>
      observed.map fun entry => (entry.1, entry.2.role?)) = some [(7, none), (8, some .idle)] := by
  decide +kernel

/-- **A process that exits hides the socket of another one: no listener is reported, and the
server is not counted as one.** -/
theorem exiting_hides_httpd :
    (∃ scan, (scanServices .strict exitingHost 10).ended = .ok (.ok scan) ∧
      scan.truncated = false ∧ ¬ SocketsReported exitingHost scan.listeners) ∧
    ∃ observed, (observeProcesses .strict exitingHost 10).ended = .ok observed ∧
      ¬ ServersCounted exitingHost observed := by
  constructor
  · refine ⟨_, rfl, rfl, ?_⟩
    intro hreported
    obtain ⟨listener, hlistener, _⟩ := hreported 8 (by decide) _ exitingHost_holds
    cases hlistener
  · have hroles := exitingHost_roles
    cases hrun : (observeProcesses .strict exitingHost 10).ended with
    | error fault =>
        rw [hrun] at hroles
        cases hroles
    | ok observed =>
        rw [hrun] at hroles
        refine ⟨observed, rfl, ?_⟩
        intro hcounted
        have hmem : (8, some Role.idle) ∈ observed.map fun entry => (entry.1, entry.2.role?) := by
          have hlist : observed.map (fun entry => (entry.1, entry.2.role?)) =
              [(7, none), (8, some .idle)] := Option.some.inj hroles
          rw [hlist]
          decide
        obtain ⟨⟨pid, observation⟩, hobserved, hentry⟩ := List.mem_map.mp hmem
        obtain ⟨rfl, hidle⟩ := Prod.mk.inj hentry
        cases observation with
        | crypto process =>
            have hserver := hcounted 8 process _ hobserved exitingHost_holds
            rw [Observation.role?, hserver] at hidle
            cases hidle
        | unreadable => cases hidle
        | exited => cases hidle
        | kernelThread => cases hidle
        | withoutCrypto => cases hidle

end PqcReadiness.Runtime
