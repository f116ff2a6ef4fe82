import PqcReadiness.Gap.Services
import PqcReadiness.Lib.Postings
import PqcReadiness.Observations.Record

/-!
# The host index

What the aggregator keeps of each report to join observations with: a name, a
compact list of sockets, certificate fingerprints and the host-wide judgements
of `gap.py`.  `HostIndex` files the hosts under their name, their short name, the
addresses of their specific binds and their fingerprints.

The four tables are inverted indexes of the host list (`Postings`), so a
`HostIndex` cannot name a host that it does not hold, and what a lookup returns
is fixed by the hosts alone.
-/

namespace PqcReadiness.Observations

open Lib Gap

/-! ## One host -/

/-- The result of `_compact_listener`. -/
structure CompactListener where
  protocol : Option Transport
  address : Option String
  port : Option ℤ
  bindScope : Option BindScope
  networkNamespace : Option NetworkNamespace
  process : Option String
  systemdUnit : Option String
  cryptoFamilies : List String
  libraryPqcCapable : Option Bool
  goDefaultHybrid : Bool

/-- `_compact_listener`. -/
def compactListener (listener : Listener) : CompactListener :=
  let capability := listenerCapability listener
  { protocol := listener.protocol
    address := listener.address.bind normaliseIp
    port := listener.port
    bindScope := listener.bindScope
    networkNamespace := listener.networkNamespace
    process := listener.process
    systemdUnit := listener.systemdUnit
    cryptoFamilies := capability.cryptoFamilies
    libraryPqcCapable := capability.libraryPqcCapable
    goDefaultHybrid := capability.goDefaultHybrid }

/-- `HostEntry`. -/
structure HostEntry where
  hostname : String
  generatedAt : Option DateTime
  serviceScan : Bool
  listeners : List CompactListener
  certSha256 : List String
  tlsConfigured : Option Bool
  sshConfigured : Option Bool
  ikeConfigured : Option Bool
  sshCapable : Option Bool
  ikeCapable : Option Bool

section Host

variable (chars : CharData) (fromIsoFormat : String → Option DateTime)

/-- The fingerprints among the `sha256` members of a report's certificates. -/
def fingerprints (shas : List Json) : List String :=
  (shas.filterMap fun sha => (sha.asStr.filter (beforeNewline hex64Text)).map chars.lower).dedup

/-- `_host_entry`. -/
def hostEntry (report : Report) : HostEntry :=
  let linkage := report.serviceCryptoLinkage
  { hostname := report.hostname
    generatedAt := parseTime fromIsoFormat report.generatedAt
    serviceScan := linkage.available
    listeners := if linkage.available then linkage.listeners.map compactListener else []
    certSha256 := fingerprints chars (report.cryptoMaterial ++ report.trustStore)
    -- The judgements of the per-host verdict; a service's own settings are not kept.
    tlsConfigured := (tlsConfigured report).1
    sshConfigured := (sshConfigured report).1
    ikeConfigured := (ikeConfigured report).1
    sshCapable := (sshCapable report).1
    ikeCapable := (ikeCapable report).1 }

/-- `text.lower().rstrip(".")`. -/
def normaliseName (text : String) : String := rstripChar '.' (chars.lower text)

/-- The key of a host in `by_name`. -/
def nameKeys (entry : HostEntry) : List String :=
  let name := normaliseName chars entry.hostname
  if name ≠ "" then [name] else []

/-- The key of a host in `by_short`. -/
def shortKeys (entry : HostEntry) : List String :=
  let name := normaliseName chars entry.hostname
  if name ≠ "" then [beforeChar '.' name] else []

/-- The keys of a host in `by_ip`: the addresses of its specific binds. -/
def ipKeys (entry : HostEntry) : List String :=
  (entry.listeners.filter fun ln => ln.bindScope = some .specific).filterMap fun ln =>
    ln.address.filter (· ≠ "")

end Host

/-! ## The index -/

/-- `HostIndex`. -/
structure HostIndex (chars : CharData) where
  hosts : List HostEntry
  byName : Postings (nameKeys chars) hosts
  byShort : Postings (shortKeys chars) hosts
  byIp : Postings ipKeys hosts
  byCert : Postings HostEntry.certSha256 hosts

namespace HostIndex

variable {chars : CharData}

/-- The index of no host. -/
def empty : HostIndex chars := ⟨[], .empty, .empty, .empty, .empty⟩

/-- Index one more host. -/
def addEntry (index : HostIndex chars) (entry : HostEntry) : HostIndex chars where
  hosts := index.hosts ++ [entry]
  byName := index.byName.add entry
  byShort := index.byShort.add entry
  byIp := index.byIp.add entry
  byCert := index.byCert.add entry

/-- `HostIndex.add`. -/
def add (fromIsoFormat : String → Option DateTime) (index : HostIndex chars) (report : Report) :
    HostIndex chars :=
  index.addEntry (hostEntry chars fromIsoFormat report)

/-- The index after `index_reports` has passed all reports through. -/
def ofReports (chars : CharData) (fromIsoFormat : String → Option DateTime) (reports : List Report) :
    HostIndex chars :=
  reports.foldl (add fromIsoFormat) empty

variable (fromIsoFormat : String → Option DateTime)

theorem hosts_foldl_add (reports : List Report) (index : HostIndex chars) :
    (reports.foldl (add fromIsoFormat) index).hosts =
      index.hosts ++ reports.map (hostEntry chars fromIsoFormat) := by
  induction reports generalizing index with
  | nil => simp
  | cons report rest ih =>
      rw [List.foldl_cons, ih]
      simp [add, addEntry]

/-- The hosts of an index are the reports, in the order they were added. -/
@[simp] theorem hosts_ofReports (reports : List Report) :
    (ofReports chars fromIsoFormat reports).hosts =
      reports.map (hostEntry chars fromIsoFormat) := by
  rw [ofReports, hosts_foldl_add]
  rfl

end HostIndex

end PqcReadiness.Observations
