import PqcReadiness.Gap.Accounting
import PqcReadiness.Observations.Attribution
import PqcReadiness.Observations.Conservation
import PqcReadiness.Observations.Schema

/-!
# An endpoint's state and its host's

The join classifies a matched TLS endpoint with the capability of its socket and
the host's default; the host's own verdict also reads the TLS settings of the
service.  The two states are the same when the service has no settings of its
own, and otherwise exactly when those settings say what the host's default says
(`SettingAgrees`).

A match only shows the compact form of its socket, which several sockets can
share.  `pickedPosition` is the position of the socket that `_pick_listener`
returns, so that the match can be compared with the one item that names it.
-/

namespace PqcReadiness.Observations

open Lib Gap

variable {fromIsoFormat : String → Option DateTime} {chars : CharData}

/-! ## The position of the socket -/

/-- The position of the socket that `pickListener` returns: the first one in the
host's network namespace, or else the first one. -/
def pickedPosition (entry : HostEntry) (rec : Observation fromIsoFormat) : Option ℕ :=
  (entry.listeners.findIdx? fun ln =>
    reachable rec ln && decide (ln.networkNamespace = some .host)).or
      (entry.listeners.findIdx? (reachable rec))

theorem pickListener_eq (entry : HostEntry) (rec : Observation fromIsoFormat) :
    (pickListener entry rec).1 =
      (pickedPosition entry rec).bind (entry.listeners[·]?) := by
  have hfirst : (pickListener entry rec).1 =
      ((entry.listeners.find? fun ln =>
        reachable rec ln && decide (ln.networkNamespace = some .host)).or
          (entry.listeners.find? (reachable rec))) := by
    rw [← List.head?_filter, ← List.head?_filter]
    have hboth : entry.listeners.filter (fun ln =>
        reachable rec ln && decide (ln.networkNamespace = some .host)) =
          (entry.listeners.filter (reachable rec)).filter fun ln =>
            decide (ln.networkNamespace = some .host) := by
      rw [List.filter_filter]
      simp only [Bool.and_comm]
    rw [hboth]
    unfold pickListener
    cases entry.listeners.filter (reachable rec) with
    | nil => rfl
    | cons first rest =>
        dsimp only
        cases (first :: rest).filter fun ln => decide (ln.networkNamespace = some .host) <;> rfl
  rw [hfirst, List.find?_eq_bind_findIdx?_getElem?, List.find?_eq_bind_findIdx?_getElem?,
    pickedPosition]
  cases hfound : entry.listeners.findIdx? fun ln =>
      reachable rec ln && decide (ln.networkNamespace = some .host) with
  | none => rfl
  | some i =>
      obtain ⟨hi, -⟩ := List.findIdx?_eq_some_iff_getElem.mp hfound
      simp [List.getElem?_eq_getElem hi]

/-! ## The two judgements -/

/-- The setting of a service says what the host's default says: a service that
cannot offer PQC is on a library that cannot either, and the setting is the
default wherever the difference would show. -/
def SettingSays (report : Report) (capable : Option Bool) (ep : TlsEndpoint) (own : Bool) : Prop :=
  match capable with
  | some true => ep.serviceSupportsPqcGroups ≠ some false ∧ (tlsConfigured report).1 = some own
  | some false => own = true ↔ (tlsConfigured report).1 = some true
  | none => ep.serviceSupportsPqcGroups ≠ some false

/-- The listener's PQC comes from a Go default, or its service has no TLS setting of
its own, or that setting says what the host's default says. -/
def SettingAgrees (report : Report) (listener : Listener) : Prop :=
  (listenerCapability listener).goDefaultHybrid = true ∨
    match (endpointForListener report.serviceTlsConfig listener).map Prod.snd with
    | none => True
    | some ep =>
        match ep.pqcKeyExchange with
        | none => True
        | some own => SettingSays report (listenerCapability listener).libraryPqcCapable ep own

theorem classify_eq_listenerState_iff {report : Report} {listener : Listener}
    (hkind : serviceKind listener = .tls) :
    classify (listenerCapability listener).libraryPqcCapable
        (if (listenerCapability listener).goDefaultHybrid then some true
          else (tlsConfigured report).1) =
        listenerState report (protocols report) listener ↔
      SettingAgrees report listener := by
  unfold listenerState SettingAgrees tlsJudgement
  rw [hkind]
  cases hgo : (listenerCapability listener).goDefaultHybrid with
  | true => simp
  | false =>
      cases (endpointForListener report.serviceTlsConfig listener).map Prod.snd with
      | none => simp
      | some ep =>
          cases hown : ep.pqcKeyExchange with
          | none => simp [hown]
          | some own =>
              -- The service's own setting against the host's default.
              by_cases hgroups : ep.serviceSupportsPqcGroups = some false <;>
                rcases (listenerCapability listener).libraryPqcCapable with _ | _ | _ <;>
                  rcases hhost : (tlsConfigured report).1 with _ | _ | _ <;>
                    cases own <;> simp [hown, hgroups, hhost, classify, SettingSays]

/-! ## A matched TLS endpoint -/

section Endpoint

variable {report : Report} {rec : Observation fromIsoFormat} {tooOld : ℕ → Bool}

/-- The match of an attributed TLS record shows its socket, and the state that the
socket and the host's default give. -/
theorem attributed_of_picked (tooOld : ℕ → Bool) (basis : Option String) {i : ℕ}
    (hscan : report.serviceCryptoLinkage.available = true) (htls : rec.protocol = .tls)
    (hpicked : pickedPosition (hostEntry chars fromIsoFormat report) rec = some i)
    (hi : i < report.serviceCryptoLinkage.listeners.length) :
    let m := attributed tooOld chars basis (hostEntry chars fromIsoFormat report) rec
    let listener := report.serviceCryptoLinkage.listeners[i]
    m.listener.map Prod.fst = some (compactListener listener) ∧
      m.state = some (classify (listenerCapability listener).libraryPqcCapable
        (if (listenerCapability listener).goDefaultHybrid then some true
          else (tlsConfigured report).1)) := by
  have hservice : (hostEntry chars fromIsoFormat report).serviceScan = true := hscan
  have hlisteners : (hostEntry chars fromIsoFormat report).listeners =
      report.serviceCryptoLinkage.listeners.map compactListener := by
    simp [hostEntry, hscan]
  have hpick : (pickListener (hostEntry chars fromIsoFormat report) rec).1 =
      some (compactListener report.serviceCryptoLinkage.listeners[i]) := by
    rw [pickListener_eq, hpicked, Option.bind_some, hlisteners, List.getElem?_map,
      List.getElem?_eq_getElem hi, Option.map_some]
  rcases hfound : pickListener (hostEntry chars fromIsoFormat report) rec with
    ⟨found, count, note⟩
  rw [hfound] at hpick
  dsimp only at hpick
  subst hpick
  have hsocket : socketStatus (hostEntry chars fromIsoFormat report) rec =
      (.matched, some (compactListener report.serviceCryptoLinkage.listeners[i], count), note) := by
    simp [socketStatus, hservice, hfound]
  simp only [attributed, hsocket, htls]
  simp [Status.isCounted, capable, configured, compactListener, hostEntry]
  rfl

/-- A matched record has picked one of the host's sockets. -/
theorem exists_pickedPosition {basis : Option String}
    (hscan : report.serviceCryptoLinkage.available = true)
    (hmatched : (attributed tooOld chars basis (hostEntry chars fromIsoFormat report) rec).status =
      .matched) :
    ∃ i, i < report.serviceCryptoLinkage.listeners.length ∧
      pickedPosition (hostEntry chars fromIsoFormat report) rec = some i := by
  rw [attributed_status] at hmatched
  obtain ⟨ln, count, -, hpick⟩ := socketStatus_matched hmatched
  rw [pickListener_eq, Option.bind_eq_some_iff] at hpick
  obtain ⟨i, hpicked, hln⟩ := hpick
  have hi := (List.getElem?_eq_some_iff.mp hln).1
  have hlisteners : (hostEntry chars fromIsoFormat report).listeners =
      report.serviceCryptoLinkage.listeners.map compactListener := by
    simp [hostEntry, hscan]
  rw [hlisteners, List.length_map] at hi
  exact ⟨i, hi, hpicked⟩

/-- **A matched TLS endpoint has the state of the item that names its socket if
and only if the service's own TLS settings say what the host's default says.** -/
theorem endpoint_state_iff (tooOld : ℕ → Bool) (report : Report)
    (hscan : report.serviceCryptoLinkage.available = true)
    (loaded : LoadedObservations fromIsoFormat) (k : ℕ) (rec : Observation fromIsoFormat)
    (hrec : loaded.records[k]? = some rec) (htls : rec.protocol = .tls) (m : Match)
    (hentry : (joinObservations tooOld loaded
      (HostIndex.ofReports chars fromIsoFormat [report])).matchEntries[k]? = some m)
    (hmatched : m.status = .matched) :
    ∃ i, ∃ hi : i < report.serviceCryptoLinkage.listeners.length,
      pickedPosition (hostEntry chars fromIsoFormat report) rec = some i ∧
        m.listener.map Prod.fst =
          some (compactListener report.serviceCryptoLinkage.listeners[i]) ∧
        (Judged report.serviceCryptoLinkage.listeners[i] →
          serviceKind report.serviceCryptoLinkage.listeners[i] = .tls →
            (∃ item ∈ serviceItems (computeGap report).services,
              listenerPath i ∈ item.listeners) ∧
            ∀ item ∈ serviceItems (computeGap report).services, listenerPath i ∈ item.listeners →
              (m.state = some item.state ↔
                SettingAgrees report report.serviceCryptoLinkage.listeners[i])) := by
  have hm : m = matchRecord tooOld
      (HostIndex.ofReports chars fromIsoFormat [report]) rec := by
    rw [matchEntries_joinObservations, List.getElem?_map, hrec] at hentry
    exact (Option.some.inj hentry).symm
  obtain ⟨basis, hattributed⟩ : ∃ basis, matchRecord tooOld
      (HostIndex.ofReports chars fromIsoFormat [report]) rec =
        attributed tooOld chars basis (hostEntry chars fromIsoFormat report) rec := by
    rw [hm] at hmatched
    rcases matchRecord_cases tooOld (HostIndex.ofReports chars fromIsoFormat [report]) rec with
      ⟨hstatus | hstatus, -⟩ | ⟨h, entry, -, hhost, hmatch⟩
    · exact absurd (hmatched.symm.trans hstatus) (by decide)
    · exact absurd (hmatched.symm.trans hstatus) (by decide)
    · rw [HostIndex.hosts_ofReports] at hhost
      have hmem := List.mem_of_getElem? hhost
      rw [List.map_singleton, List.mem_singleton] at hmem
      exact ⟨_, hmem ▸ hmatch⟩
  rw [hm, hattributed] at hmatched ⊢
  obtain ⟨i, hi, hpicked⟩ := exists_pickedPosition hscan hmatched
  obtain ⟨hlistener, hstate⟩ := attributed_of_picked tooOld basis hscan htls hpicked hi
  refine ⟨i, hi, hpicked, hlistener, ?_⟩
  intro hjudged hkind
  obtain ⟨services, hservices⟩ : ∃ services, (computeGap report).services = some services := by
    simp [computeGap, Gap.services, hscan]
  have hitems : serviceItems (computeGap report).services = services.items := by
    rw [hservices]
    rfl
  rw [hitems]
  refine ⟨exists_named hservices hi hjudged, ?_⟩
  intro item hitem hnamed
  rw [hstate, state_of_named hservices hitem hi hnamed, Option.some.injEq]
  exact classify_eq_listenerState_iff hkind

end Endpoint

/-! ## A web server with settings of its own -/

/-- An nginx that maps a PQC-capable OpenSSL. -/
def nginx : Listener :=
  { process := some "nginx", protocol := some .tcp, port := some 443, bindScope := some .any
    networkNamespace := some .host, exe := some "/usr/sbin/nginx"
    cryptoLibraries := [{ family := some "openssl", libraryPqcCapable := some true }] }

/-- A host whose policy enables PQC, with an nginx that has these TLS endpoints. -/
def nginxReport (endpoints : List TlsEndpoint) : Report :=
  { hostname := "web.example.com"
    openssl := { available := true, pqcNative := .bool true }
    cryptoPolicy := { tlsKeyExchange := .bool true }
    serviceCryptoLinkage := { available := true, listeners := [nginx] }
    serviceTlsConfig :=
      { available := true, services := [{ service := "nginx", endpoints := endpoints }] } }

/-- The case mapping of ASCII texts. -/
def asciiChars : CharData where
  lower s := String.ofList (s.toList.map Char.toLower)
  isWord c := c.isAlphanum || c == '_'

/-- The sample record, as loaded from the first line of a file. -/
def sampleObservation : Observation sampleClock where
  position := .int 1
  members := sampleMembers []
  inherited := none
  valid := by decide +kernel

/-- The file with that one record. -/
def sampleLoaded : LoadedObservations sampleClock := { records := [sampleObservation] }

/-- Without settings of its own, the endpoint has its host's state. -/
theorem nginx_state_agrees :
    ∃ m ∈ (joinObservations (fun _ => false) sampleLoaded
        (HostIndex.ofReports asciiChars sampleClock [nginxReport []])).matchEntries,
      ∃ item ∈ serviceItems (computeGap (nginxReport [])).services,
        m.state = some item.state := by
  have hmatched : (matchRecord (fun _ => false)
      (HostIndex.ofReports asciiChars sampleClock [nginxReport []])
      sampleObservation).status = .matched := by
    decide +kernel
  obtain ⟨i, hi, -, -, hagree⟩ := endpoint_state_iff (fun _ => false) (nginxReport []) rfl
    sampleLoaded 0 sampleObservation rfl (by decide +kernel) _ rfl hmatched
  obtain rfl : i = 0 := Nat.lt_one_iff.mp hi
  have hjudged : Judged nginx := by decide +kernel
  have hkind : serviceKind nginx = .tls := by decide +kernel
  obtain ⟨⟨item, hitem, hnamed⟩, hiff⟩ := hagree hjudged hkind
  have hnone : (endpointForListener (nginxReport []).serviceTlsConfig nginx).isNone := by
    decide +kernel
  have hagrees : SettingAgrees (nginxReport []) nginx := by
    refine Or.inr ?_
    rw [Option.isNone_iff_eq_none.mp hnone]
    exact trivial
  exact ⟨_, List.mem_cons_self .., item, hitem, (hiff item hitem hnamed).mpr hagrees⟩

/-- With an endpoint that is kept classical, the join says deployed and the host
says capable but not configured. -/
theorem nginx_state_differs :
    Judged nginx ∧ serviceKind nginx = .tls ∧
      (joinObservations (fun _ => false) sampleLoaded
        (HostIndex.ofReports asciiChars sampleClock
          [nginxReport [{ ports := [443], pqcKeyExchange := some false }]])).matchEntries.map
            (fun m => (m.status, m.state)) = [(.matched, some .deployed)] ∧
      (serviceItems (computeGap
        (nginxReport [{ ports := [443], pqcKeyExchange := some false }])).services).map
          (fun item => (item.listeners, item.state)) =
        [([listenerPath 0], .capableNotConfigured)] := by
  refine ⟨by decide +kernel, by decide +kernel, by decide +kernel, by decide +kernel⟩

end PqcReadiness.Observations
