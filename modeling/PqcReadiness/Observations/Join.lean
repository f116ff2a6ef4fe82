import PqcReadiness.Gap.Clients
import PqcReadiness.Observations.Classify
import PqcReadiness.Observations.Index

/-!
# The join of observations and hosts

`join_observations` matches every valid record to a host of the index and to a
socket of that host, and counts.  An `Observation` carries the proof that the
validator had no problem with it, so that the join reads its members without a
test of its own (`port_eq`, `transport_eq`).

The attribution of a record is `candidates`, which tries the tiers of evidence
in order, and `pickListener`.  `matchRecord` is what one pass of the loop makes of
a record, and `joinStep` counts it.

The age limit is the parameter `tooOld`, a test on a difference in microseconds.
-/

namespace PqcReadiness.Observations

open Lib Gap

/-! ## Loaded records -/

/-- A record that the validator accepted, as `load_observations` keeps it. -/
structure Observation (fromIsoFormat : String → Option DateTime) where
  /-- What `rec["_position"]` reads. -/
  position : Json
  members : List (String × Json)
  inherited : Option String
  valid : validateRecord fromIsoFormat (.obj members) inherited = .ok []

/-- A rejected record: its position in the file and the problems with it. -/
structure Invalid where
  record : ℕ
  reason : String
  deriving DecidableEq

/-- The two forms of an observations file. -/
inductive FileFormat where
  | envelope
  | jsonl
  deriving DecidableEq

/-- `LoadedObservations`. -/
structure LoadedObservations (fromIsoFormat : String → Option DateTime) where
  records : List (Observation fromIsoFormat) := []
  invalid : List Invalid := []
  fileFormat : FileFormat := .envelope

variable {fromIsoFormat : String → Option DateTime}

namespace Observation

/-- Every check of the validator passed. -/
theorem checks (rec : Observation fromIsoFormat) :
    ∃ vt protocol, Protocol.lookup (Json.get rec.members "protocol") = .ok (some protocol) ∧
      ∀ check ∈ problems fromIsoFormat rec.members (recordVersion rec.members rec.inherited) vt
        (some protocol), check = [] := by
  have hvalid := rec.valid
  simp only [validateRecord] at hvalid
  cases hvt : versionTuple (recordVersion rec.members rec.inherited) with
  | error crash => simp [hvt, bind, Except.bind] at hvalid
  | ok vt =>
      cases hlookup : Protocol.lookup (Json.get rec.members "protocol") with
      | error crash => simp [hvt, hlookup, bind, Except.bind] at hvalid
      | ok found =>
          simp only [hvt, hlookup, bind, Except.bind, pure, Except.pure, Except.ok.injEq,
            List.flatten_eq_nil_iff] at hvalid
          cases found with
          | none =>
              have hbad := hvalid (checkProtocol none) (by simp [problems])
              simp [checkProtocol] at hbad
          | some protocol => exact ⟨vt, protocol, rfl, hvalid⟩

/-- `rec["protocol"]`. -/
def protocol (rec : Observation fromIsoFormat) : Protocol :=
  match Protocol.lookup (Json.get rec.members "protocol") with
  | .ok (some protocol) => protocol
  | _ => .tls

/-- `rec["port"]`. -/
def port (rec : Observation fromIsoFormat) : ℤ :=
  match Json.get rec.members "port" with
  | .int value => value
  | _ => 0

/-- `rec.get(key)` for a member that is a text or null. -/
def text? (rec : Observation fromIsoFormat) (key : String) : Option String :=
  (Json.get rec.members key).asStr

/-- `rec.get(key) or ""`. -/
def text (rec : Observation fromIsoFormat) (key : String) : String := orEmpty (rec.text? key)

/-- `rec.get("transport") or PROTOCOL_TRANSPORT[rec["protocol"]]`. -/
def transport (rec : Observation fromIsoFormat) : Transport :=
  (transportOf (Json.get rec.members "transport")).getD rec.protocol.transport

/-- `rec.get("additional_key_exchanges") or []`. -/
def additionalKeyExchanges (rec : Observation fromIsoFormat) : List String :=
  match Json.get rec.members "additional_key_exchanges" with
  | .arr items => items.filterMap Json.asStr
  | _ => []

/-- `rec["source"]["category"]`. -/
def sourceCategory (rec : Observation fromIsoFormat) : String :=
  match Json.get rec.members "source" with
  | .obj source => orEmpty (Json.get source "category").asStr
  | _ => ""

/-- `_normalise_ip(rec["ip"]) if rec.get("ip") else None`, and None when empty. -/
def ip (rec : Observation fromIsoFormat) : Option String :=
  (((rec.text? "ip").filter (· ≠ "")).bind normaliseIp).filter (· ≠ "")

/-- `classify_observed(rec)`. -/
def observed (chars : CharData) (rec : Observation fromIsoFormat) :
    Option String × ObservedClass :=
  classifyObserved chars rec.protocol (rec.text "negotiated_group") rec.additionalKeyExchanges

theorem port_eq (rec : Observation fromIsoFormat) :
    Json.get rec.members "port" = .int rec.port := by
  obtain ⟨vt, protocol, -, hchecks⟩ := rec.checks
  have hport := hchecks (checkPort (Json.get rec.members "port")) (by simp [problems])
  unfold port
  cases hvalue : Json.get rec.members "port" <;> simp_all [checkPort]

/-- A stated transport is that of the protocol. -/
theorem transport_eq (rec : Observation fromIsoFormat) :
    rec.transport = rec.protocol.transport := by
  obtain ⟨vt, protocol, hlookup, hchecks⟩ := rec.checks
  have hprotocol : rec.protocol = protocol := by simp [Observation.protocol, hlookup]
  have hcheck := hchecks (checkTransport (some protocol) (Json.get rec.members "transport"))
    (by simp [problems])
  rw [transport, hprotocol]
  cases hfound : transportOf (Json.get rec.members "transport") with
  | none => rfl
  | some transport =>
      have hvalue := transportOf_eq_some_iff.mp hfound
      rw [hvalue] at hcheck hfound
      by_contra hne
      simp only [Option.getD_some] at hne
      simp [checkTransport, hfound, hne] at hcheck

end Observation

/-! ## Attribution to a host -/

/-- The tiers of evidence, strongest first. -/
inductive Tier where
  | fqdn
  | sni
  | ip
  | shortName
  | certificate
  deriving DecidableEq

/-- The name of a tier in `match_basis`. -/
def Tier.name : Tier → String
  | fqdn => "fqdn"
  | sni => "sni"
  | ip => "ip"
  | shortName => "short-name"
  | certificate => "certificate"

section Candidates

variable {chars : CharData} (index : HostIndex chars) (rec : Observation fromIsoFormat)

/-- `(rec.get("certificate_sha256") or "").lower()`. -/
def certificateKey (chars : CharData) (rec : Observation fromIsoFormat) : String :=
  chars.lower (rec.text "certificate_sha256")

/-- The short names of the record's names. -/
def shortNames (chars : CharData) (rec : Observation fromIsoFormat) : List String :=
  (([normaliseName chars (rec.text "fqdn"), normaliseName chars (rec.text "sni")].filter
    (· ≠ "")).map (beforeChar '.')).dedup

/-- `cert_hosts`. -/
def certHosts : List ℕ :=
  let cert := certificateKey chars rec
  if cert ≠ "" then (index.byCert.lookup cert).dedup else []

/-- The hosts of each tier. -/
def tierHits : Tier → List ℕ
  | .fqdn =>
      let fqdn := normaliseName chars (rec.text "fqdn")
      if fqdn ≠ "" then index.byName.lookup fqdn else []
  | .sni =>
      let sni := normaliseName chars (rec.text "sni")
      if sni ≠ "" then index.byName.lookup sni else []
  | .ip =>
      match rec.ip with
      | some ip => index.byIp.lookup ip
      | none => []
  | .shortName => sortedBy id ((shortNames chars rec).flatMap index.byShort.lookup).dedup
  | .certificate => sortedBy id (certHosts index rec)

/-- The loop over the tiers. -/
def firstTier (tierHits : Tier → List ℕ) (certHosts : List ℕ) :
    List Tier → List ℕ × Option String × List ℕ
  | [] => ([], none, [])
  | tier :: rest =>
      let hits := sortedBy id (tierHits tier).dedup
      if hits.length = 1 then (hits, some tier.name, [])
      else if 1 < hits.length then
        -- Several hosts: the certificate may still single one out.
        let narrowed := hits.filter (· ∈ certHosts)
        if narrowed.length = 1 ∧ tier ≠ .certificate then
          (narrowed, some (tier.name ++ "+certificate"), [])
        else ([], none, hits)
      else firstTier tierHits certHosts rest

/-- `_candidates`: matched hosts, basis and ambiguous candidates. -/
def candidates : List ℕ × Option String × List ℕ :=
  firstTier (tierHits index rec) (certHosts index rec)
    [.fqdn, .sni, .ip, .shortName, .certificate]

end Candidates

/-! ## Attribution to a socket -/

/-- Is the socket one that the observed endpoint can be? -/
def reachable (rec : Observation fromIsoFormat) (ln : CompactListener) : Bool :=
  ln.protocol = some rec.transport && ln.port = some rec.port &&
    (ln.bindScope = some .any || ln.bindScope = some .specific) &&
    !(ln.bindScope = some .specific && rec.ip.isSome && ln.address ≠ rec.ip)

/-- `_pick_listener`: the socket, how many there are, and a note. -/
def pickListener (entry : HostEntry) (rec : Observation fromIsoFormat) :
    Option CompactListener × ℕ × Option String :=
  match entry.listeners.filter (reachable rec) with
  | [] => (none, 0, none)
  | first :: rest =>
      let hits := first :: rest
      match hits.filter fun ln => ln.networkNamespace = some .host with
      | inHost :: _ => (some inHost, hits.length, none)
      | [] => (some first, hits.length,
          some "listener is in another network namespace: reachable only through port mapping")

/-- `_capable`. -/
def capable (entry : HostEntry) (listener : Option CompactListener) : Protocol → Option Bool
  | .ssh => entry.sshCapable
  | .ikev2 => entry.ikeCapable
  | _ => listener.bind CompactListener.libraryPqcCapable

/-- `_configured`. -/
def configured (entry : HostEntry) (listener : Option CompactListener) : Protocol → Option Bool
  | .ssh => entry.sshConfigured
  | .ikev2 => entry.ikeConfigured
  | _ =>
      -- Go's crypto/tls ignores the system policy; its default is the setting.
      if listener.any CompactListener.goDefaultHybrid then some true else entry.tlsConfigured

/-! ## One record -/

/-- What became of a record. -/
inductive Status where
  | unmatchedHost
  | ambiguous
  | matched
  | unmatchedListener
  | noServiceScan
  deriving DecidableEq

/-- The name of a status in the output. -/
def Status.name : Status → String
  | unmatchedHost => "unmatched_host"
  | ambiguous => "ambiguous"
  | matched => "matched"
  | unmatchedListener => "unmatched_listener"
  | noServiceScan => "no_service_scan"

/-- Is the endpoint attributed to a host that can be judged? -/
def Status.isCounted (status : Status) : Bool := status = .matched || status = .noServiceScan

/-- One entry of `matches`. -/
structure Match where
  record : Json
  id : Option String
  protocol : Protocol
  port : ℤ
  fqdn : Option String
  ip : Option String
  sni : Option String
  observedGroup : Option String
  observedClass : ObservedClass
  sourceCategory : String
  status : Status := .unmatchedHost
  matchBasis : Option String := none
  host : Option String := none
  candidates : List String := []
  /-- The socket, with `matching_listeners`. -/
  listener : Option (CompactListener × ℕ) := none
  capable : Option Bool := none
  configured : Option Bool := none
  state : Option State := none
  certificateOnHost : Option Bool := none
  stale : Option Bool := none
  note : Option String := none

section Record

variable {chars : CharData} (tooOld : ℕ → Bool) (index : HostIndex chars)
  (rec : Observation fromIsoFormat)

/-- A record before it is attributed. -/
def newMatch (chars : CharData) (rec : Observation fromIsoFormat) : Match :=
  { record := rec.position
    id := rec.text? "id"
    protocol := rec.protocol
    port := rec.port
    fqdn := rec.text? "fqdn"
    ip := rec.text? "ip"
    sni := rec.text? "sni"
    observedGroup := (rec.observed chars).1
    observedClass := (rec.observed chars).2
    sourceCategory := rec.sourceCategory }

/-- Whether the record and the scan are too far apart in time. -/
def staleness (entry : HostEntry) (rec : Observation fromIsoFormat) : Option Bool :=
  match entry.generatedAt, parseTime fromIsoFormat (Json.get rec.members "observed_at") with
  | some generatedAt, some observedAt => some (tooOld (generatedAt.instant - observedAt.instant).natAbs)
  | _, _ => none

/-- Is the record's certificate one of the host's? -/
def certificateOnHost (chars : CharData) (entry : HostEntry) (rec : Observation fromIsoFormat) :
    Option Bool :=
  let cert := certificateKey chars rec
  if cert ≠ "" then some (decide (cert ∈ entry.certSha256)) else none

/-- The socket of an attributed record, and what that makes of the record. -/
def socketStatus (entry : HostEntry) (rec : Observation fromIsoFormat) :
    Status × Option (CompactListener × ℕ) × Option String :=
  if rec.protocol = .ssh ∨ rec.protocol = .ikev2 ∨ entry.serviceScan then
    match pickListener entry rec with
    | (some listener, count, note) => (.matched, some (listener, count), note)
    | (none, _, note) =>
        (if entry.serviceScan then .unmatchedListener else .noServiceScan, none, note)
  else (.noServiceScan, none, none)

/-- A record attributed to a host. -/
def attributed (chars : CharData) (basis : Option String) (entry : HostEntry)
    (rec : Observation fromIsoFormat) : Match :=
  let (status, listener, note) := socketStatus entry rec
  let socket := listener.map Prod.fst
  let base : Match :=
    { newMatch chars rec with
      host := some entry.hostname
      matchBasis := basis
      certificateOnHost := certificateOnHost chars entry rec
      stale := staleness tooOld entry rec
      status := status
      listener := listener
      note := note }
  if status.isCounted then
    { base with
      capable := capable entry socket rec.protocol
      configured := configured entry socket rec.protocol
      state := some (classify (capable entry socket rec.protocol)
        (configured entry socket rec.protocol)) }
  else base

/-- The entry of `matches` for one record. -/
def matchRecord : Match :=
  let (hits, basis, ambiguous) := candidates index rec
  if ambiguous ≠ [] then
    { newMatch chars rec with
      status := .ambiguous
      candidates := sortedBy id
        ((ambiguous.filterMap (index.hosts[·]?)).map HostEntry.hostname) }
  else
    match hits.head?.bind (index.hosts[·]?) with
    | some entry => attributed tooOld chars basis entry rec
    -- No candidate: the record keeps the status it starts with.
    | none => newMatch chars rec

end Record

/-! ## The counters -/

/-- `_tri`. -/
def tri : Option Bool → String
  | none => "unknown"
  | some true => "yes"
  | some false => "no"

/-- One entry of `per_host`. -/
structure HostTotals where
  endpoints : ℕ := 0
  byObservedClass : Dict String ℕ := Dict.empty
  capableButObservedClassical : ℕ := 0
  configuredButObservedClassical : ℕ := 0
  stale : ℕ := 0

/-- Count one endpoint of a host. -/
def HostTotals.add (m : Match) (totals : HostTotals) : HostTotals where
  endpoints := totals.endpoints + 1
  byObservedClass := totals.byObservedClass.bump m.observedClass.name 1
  capableButObservedClassical := totals.capableButObservedClassical +
    if m.observedClass = .classical ∧ m.capable = some true then 1 else 0
  configuredButObservedClassical := totals.configuredButObservedClassical +
    if m.observedClass = .classical ∧ m.configured = some true then 1 else 0
  stale := totals.stale + if m.stale = some true then 1 else 0

/-- Three texts in lexicographic order, as a tuple sorts. -/
abbrev Triple := String ×ₗ String ×ₗ String

/-- A tuple of three texts. -/
def triple (first second third : String) : Triple := toLex (first, toLex (second, third))

/-- What the loop keeps between records. -/
structure JoinState where
  byStatus : Dict String ℕ := Dict.empty
  byClass : Dict String ℕ := Dict.empty
  states : Dict Triple ℕ := Dict.empty
  gapStates : Dict Triple ℕ := Dict.empty
  perHost : Dict String HostTotals := Dict.empty
  stale : ℕ := 0
  matchEntries : List Match := []

/-- The key of a match in `states`. -/
def Match.stateKey (m : Match) : Triple :=
  triple (tri m.capable) (tri m.configured) m.observedClass.name

/-- The key of a match in `gap_states`. -/
def Match.gapKey (m : Match) : Triple :=
  triple m.protocol.name ((m.state.map State.name).getD "") m.observedClass.name

/-- Count one match. -/
def joinStep (state : JoinState) (m : Match) : JoinState :=
  let counted : JoinState :=
    if m.status.isCounted then
      { state with
        states := state.states.bump m.stateKey 1
        gapStates := state.gapStates.bump m.gapKey 1
        perHost := state.perHost.update (orEmpty m.host) fun old => (old.getD {}).add m }
    else state
  { counted with
    byClass := state.byClass.bump m.observedClass.name 1
    byStatus := state.byStatus.bump m.status.name 1
    stale := state.stale + if m.stale = some true then 1 else 0
    matchEntries := state.matchEntries ++ [m] }

/-- The `observations` object of the rollup. -/
structure ObservationsRollup where
  fileFormat : FileFormat
  total : ℕ
  valid : ℕ
  invalid : List Invalid
  stale : ℕ
  byStatus : List (String × ℕ)
  byObservedClass : List (String × ℕ)
  states : List (Triple × ℕ)
  byGapState : List (Triple × ℕ)
  perHost : List (String × HostTotals)
  /-- `matches`. -/
  matchEntries : List Match

/-- `join_observations`. -/
def joinObservations {chars : CharData} (tooOld : ℕ → Bool)
    (loaded : LoadedObservations fromIsoFormat) (index : HostIndex chars) : ObservationsRollup :=
  let state := loaded.records.foldl
    (fun state rec => joinStep state (matchRecord tooOld index rec)) {}
  { fileFormat := loaded.fileFormat
    total := loaded.records.length + loaded.invalid.length
    valid := loaded.records.length
    invalid := loaded.invalid
    stale := state.stale
    byStatus := state.byStatus.sortedItems
    byObservedClass := state.byClass.sortedItems
    states := state.states.sortedItems
    byGapState := state.gapStates.sortedItems
    perHost := state.perHost.sortedItems
    matchEntries := state.matchEntries }

end PqcReadiness.Observations
