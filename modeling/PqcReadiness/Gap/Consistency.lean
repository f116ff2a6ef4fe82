import PqcReadiness.Gap.Accounting
import PqcReadiness.Gap.Findings

/-!
# Findings against the verdict

A finding that a service stays classical contradicts an item of the verdict that is deployed.  The
two judge different things: a finding needs one library that is known not to be capable, or a Go
default other than the standard hybrid, while the verdict is content with one capable library, or
with any hybrid default, and takes an SSH daemon for what the host's SSH is.

They agree on a report exactly if no listener fails by the one and offers PQC by the other
(`Fails`, `OffersPqc`).
-/

namespace PqcReadiness.Gap

open Lib

/-! ## When findings are emitted -/

/-- The two rules that say a service stays classical. -/
def isClassicalRule (rule : String) : Bool := rule = libraryRule || rule = goRule

/-- Does the listener map a library that is known not to be capable, or is it a Go binary with a
default other than the standard hybrid? -/
inductive Fails (probes : List (String × LibraryProbe)) (listener : Listener) : Prop where
  | library (lib : CryptoLibrary) (hmem : lib ∈ listener.cryptoLibraries)
      (hincapable : (libraryCapable lib probes).1 = some false)
  | go (go : GoBuild) (hgo : listener.go = some go)
      (hdefault : go.defaultHybridKex ≠ some standardHybrid)

section Emission

variable {probes : List (String × LibraryProbe)} {listener : ScannedListener}

theorem withVerdict_ne_nil {libs : List CryptoLibrary} {capable : Option Bool} :
    withVerdict probes libs capable ≠ [] ↔
      ∃ lib ∈ libs, (libraryCapable lib probes).1 = capable := by
  unfold withVerdict
  rw [Ne, List.map_eq_nil_iff, List.filter_eq_nil_iff]
  push Not
  simp only [decide_eq_true_eq]

theorem libraryFinding_rule :
    (∃ finding, libraryFinding probes listener = some finding ∧ finding.ruleId = libraryRule) ↔
      ∃ lib ∈ listener.cryptoLibraries, (libraryCapable lib probes).1 = some false := by
  rw [← withVerdict_ne_nil]
  unfold libraryFinding
  dsimp only
  split
  · next hfailing => exact iff_of_true ⟨_, rfl, rfl⟩ hfailing
  · next hnone =>
      refine iff_of_false ?_ hnone
      rintro ⟨finding, hfinding, hrule⟩
      split at hfinding
      · obtain rfl := Option.some.inj hfinding
        have hother : undeterminedRule ≠ libraryRule := by decide
        exact hother hrule
      · cases hfinding

theorem libraryFinding_ne_go {finding : Finding}
    (hfinding : libraryFinding probes listener = some finding) : finding.ruleId ≠ goRule := by
  unfold libraryFinding at hfinding
  dsimp only at hfinding
  split at hfinding
  · obtain rfl := Option.some.inj hfinding
    show libraryRule ≠ goRule
    decide
  · split at hfinding
    · obtain rfl := Option.some.inj hfinding
      show undeterminedRule ≠ goRule
      decide
    · cases hfinding

theorem goFinding_rule {finding : Finding} (hfinding : goFinding listener = some finding) :
    finding.ruleId = goRule := by
  unfold goFinding at hfinding
  split at hfinding
  · cases hfinding
  · split at hfinding
    · cases hfinding
    · obtain rfl := Option.some.inj hfinding
      rfl

theorem goFinding_isSome : (∃ finding, goFinding listener = some finding) ↔
    ∃ go, listener.go = some go ∧ go.defaultHybridKex ≠ some standardHybrid := by
  unfold goFinding
  cases hgo : listener.go with
  | none =>
      refine iff_of_false ?_ ?_
      · rintro ⟨finding, hfinding⟩
        cases hfinding
      · rintro ⟨go, hsome, -⟩
        cases hsome
  | some go =>
      dsimp only
      by_cases hdefault : go.defaultHybridKex = some standardHybrid
      · rw [if_pos hdefault]
        refine iff_of_false ?_ ?_
        · rintro ⟨finding, hfinding⟩
          cases hfinding
        · rintro ⟨other, hother, hne⟩
          obtain rfl := Option.some.inj hother
          exact hne hdefault
      · rw [if_neg hdefault]
        exact iff_of_true ⟨_, rfl⟩ ⟨go, rfl, hdefault⟩

/-- A turn of the loop emits such a finding exactly for a listener that fails. -/
theorem listenerFindings_iff :
    (∃ finding ∈ listenerFindings probes listener, isClassicalRule finding.ruleId = true) ↔
      Fails probes listener.toListener := by
  simp only [listenerFindings, List.mem_append, Option.mem_toList, isClassicalRule,
    Bool.or_eq_true, decide_eq_true_eq]
  constructor
  · rintro ⟨finding, hlibrary | hgo, hrule⟩
    · have hrule := hrule.resolve_right (libraryFinding_ne_go hlibrary)
      obtain ⟨lib, hmem, hincapable⟩ := libraryFinding_rule.mp ⟨finding, hlibrary, hrule⟩
      exact .library lib hmem hincapable
    · obtain ⟨go, hsome, hdefault⟩ := goFinding_isSome.mp ⟨finding, hgo⟩
      exact .go go hsome hdefault
  · intro hfails
    cases hfails with
    | library lib hmem hincapable =>
        obtain ⟨finding, hfinding, hrule⟩ := libraryFinding_rule.mpr ⟨lib, hmem, hincapable⟩
        exact ⟨finding, Or.inl hfinding, Or.inl hrule⟩
    | go go hsome hdefault =>
        obtain ⟨finding, hfinding⟩ := goFinding_isSome.mpr ⟨go, hsome, hdefault⟩
        exact ⟨finding, Or.inr hfinding, Or.inr (goFinding_rule hfinding)⟩

end Emission

/-! ## When a listener is deployed -/

/-- SSH is on the host, can negotiate PQC and offers it. -/
structure SshOffersPqc (report : Report) : Prop where
  present : report.sshd.available = true ∨ report.sshd.unreadable = true ∨
    report.sshPqc.available = true
  capable : (sshCapable report).1 = some true
  configured : (sshConfigured report).1 = some true

/-- Is a Go binary's default a hybrid, standard or not, that GODEBUG leaves in place? -/
def HybridDefault (listener : Listener) : Prop := ∃ go, listener.go = some go ∧ goCapable go = true

/-- Is one of the libraries known to be capable? -/
def MapsCapable (listener : Listener) : Prop :=
  ∃ lib ∈ listener.cryptoLibraries, lib.libraryPqcCapable = some true

/-- What the settings of a service say about PQC, if it has an endpoint of its own. -/
def ownSettings (report : Report) (listener : Listener) : Option TlsEndpoint :=
  (endpointForListener report.serviceTlsConfig listener).map Prod.snd

/-- What makes the verdict of a listener deployed. -/
inductive OffersPqc (report : Report) (listener : Listener) : Prop where
  | ssh (hkind : serviceKind listener = .ssh) (hssh : SshOffersPqc report)
  | goDefault (hkind : serviceKind listener = .tls) (hdefault : HybridDefault listener)
  | ownSettings (hkind : serviceKind listener = .tls) (hcapable : MapsCapable listener)
      (endpoint : TlsEndpoint) (hendpoint : ownSettings report listener = some endpoint)
      (hpqc : endpoint.pqcKeyExchange = some true)
      (hgroups : endpoint.serviceSupportsPqcGroups ≠ some false)
  | hostDefault (hkind : serviceKind listener = .tls) (hcapable : MapsCapable listener)
      (hnone : (ownSettings report listener).bind TlsEndpoint.pqcKeyExchange = none)
      (hhost : (tlsConfigured report).1 = some true)

section Deployed

variable {report : Report} {listener : Listener}

theorem classify_deployed {capable configured : Option Bool} :
    classify capable configured = .deployed ↔ capable = some true ∧ configured = some true := by
  cases capable with
  | none => simp [classify]
  | some capable =>
      cases configured with
      | none => cases capable <;> simp [classify]
      | some configured => cases capable <;> cases configured <;> simp [classify]

theorem ssh_deployed : (ssh report).state = .deployed ↔ SshOffersPqc report := by
  unfold ssh verdict
  dsimp only
  split
  · next hpresent =>
      rw [classify_deployed]
      simp only [Bool.or_eq_true, or_assoc] at hpresent
      exact ⟨fun h => ⟨hpresent, h.1, h.2⟩, fun h => ⟨h.capable, h.configured⟩⟩
  · next habsent =>
      simp only [Bool.or_eq_true, or_assoc] at habsent
      exact iff_of_false nofun fun h => habsent h.present

theorem goDefaultHybrid_iff :
    (listenerCapability listener).goDefaultHybrid = true ↔ HybridDefault listener := by
  unfold listenerCapability HybridDefault
  cases listener.go with
  | none => simp
  | some go => simp

theorem libraryPqcCapable_iff : (listenerCapability listener).libraryPqcCapable = some true ↔
    MapsCapable listener ∨ HybridDefault listener := by
  have hflags : some true ∈ listener.cryptoLibraries.map CryptoLibrary.libraryPqcCapable ↔
      MapsCapable listener := List.mem_map
  have hgo : listener.go.map goCapable = some true ↔ HybridDefault listener := Option.map_eq_some_iff
  rw [← hflags, ← hgo]
  unfold listenerCapability
  dsimp only
  split
  · next hcapable => exact iff_of_true rfl hcapable
  · next hnot =>
      refine iff_of_false ?_ hnot
      split <;> simp

/-- The verdict of a listener is deployed exactly if it offers PQC. -/
theorem listenerState_deployed :
    listenerState report (protocols report) listener = .deployed ↔ OffersPqc report listener := by
  unfold listenerState
  cases hkind : serviceKind listener with
  | ssh =>
      refine ssh_deployed.trans ⟨fun hssh => .ssh hkind hssh, fun hoffers => ?_⟩
      cases hoffers with
      | ssh _ hssh => exact hssh
      | goDefault htls => rw [hkind] at htls; cases htls
      | ownSettings htls => rw [hkind] at htls; cases htls
      | hostDefault htls => rw [hkind] at htls; cases htls
  | tls =>
      dsimp only
      rw [classify_deployed]
      by_cases hgo : HybridDefault listener
      · -- The default is the configuration.
        refine iff_of_true ?_ (.goDefault hkind hgo)
        unfold tlsJudgement
        rw [if_pos (goDefaultHybrid_iff.mpr hgo)]
        exact ⟨libraryPqcCapable_iff.mpr (Or.inr hgo), rfl⟩
      · have hcapable : (listenerCapability listener).libraryPqcCapable = some true ↔
            MapsCapable listener :=
          libraryPqcCapable_iff.trans (or_iff_left hgo)
        have hno : ¬ (listenerCapability listener).goDefaultHybrid = true :=
          mt goDefaultHybrid_iff.mp hgo
        unfold tlsJudgement
        dsimp only
        rw [if_neg hno]
        change _ ↔ OffersPqc report listener
        have hown : (endpointForListener report.serviceTlsConfig listener).map Prod.snd =
            ownSettings report listener := rfl
        rw [hown]
        constructor
        · intro hdeployed
          cases hendpoint : ownSettings report listener with
          | none =>
              rw [hendpoint] at hdeployed
              exact .hostDefault hkind (hcapable.mp hdeployed.1) (by rw [hendpoint]; rfl)
                hdeployed.2
          | some endpoint =>
              rw [hendpoint] at hdeployed
              cases hpqc : endpoint.pqcKeyExchange with
              | none =>
                  simp only [hpqc] at hdeployed
                  refine .hostDefault hkind (hcapable.mp hdeployed.1) ?_ hdeployed.2
                  rw [hendpoint]
                  exact hpqc
              | some configured =>
                  simp only [hpqc] at hdeployed
                  obtain ⟨hcap, hconf⟩ := hdeployed
                  obtain rfl := Option.some.inj hconf
                  by_cases hgroups : endpoint.serviceSupportsPqcGroups = some false
                  · rw [if_pos hgroups] at hcap
                    cases hcap
                  · rw [if_neg hgroups] at hcap
                    exact .ownSettings hkind (hcapable.mp hcap) endpoint hendpoint hpqc hgroups
        · intro hoffers
          cases hoffers with
          | ssh hssh => rw [hkind] at hssh; cases hssh
          | goDefault _ hdefault => exact absurd hdefault hgo
          | ownSettings _ hmaps endpoint hendpoint hpqc hgroups =>
              rw [hendpoint]
              simp only [hpqc, if_neg hgroups]
              exact ⟨hcapable.mpr hmaps, trivial⟩
          | hostDefault _ hmaps hnone hhost =>
              cases hendpoint : ownSettings report listener with
              | none => exact ⟨hcapable.mpr hmaps, hhost⟩
              | some endpoint =>
                  rw [hendpoint] at hnone
                  have hpqc : endpoint.pqcKeyExchange = none := hnone
                  simp only [hpqc]
                  exact ⟨hcapable.mpr hmaps, hhost⟩

end Deployed

/-! ## Findings and items -/

theorem listeners_toReport (scanned : ScannedReport) :
    scanned.toReport.serviceCryptoLinkage.listeners =
      scanned.listeners.map ScannedListener.toListener := rfl

theorem getElem_toReport {scanned : ScannedReport} {i : ℕ} (hi : i < scanned.listeners.length)
    (hlen : i < scanned.toReport.serviceCryptoLinkage.listeners.length) :
    scanned.toReport.serviceCryptoLinkage.listeners[i] = scanned.listeners[i].toListener := by
  simp only [listeners_toReport, List.getElem_map]

/-- A listener in an item has a process and a crypto library. -/
theorem judged_of_named {report : Report} {services : Services}
    (hservices : (computeGap report).services = some services) {item : ServiceItem}
    (hitem : item ∈ services.items) {i : ℕ}
    (hi : i < report.serviceCryptoLinkage.listeners.length)
    (hnamed : listenerPath i ∈ item.listeners) :
    Judged report.serviceCryptoLinkage.listeners[i] := by
  rw [services_eq_some hservices] at hitem
  obtain ⟨key, hget⟩ := get?_of_mem_items hitem
  have hentry := mem_zipIdx_getElem report.serviceCryptoLinkage.listeners hi
  exact ((named_iff (nodup_positions _) hget hentry).mp hnamed).1

/-- No listener with a finding that it stays classical is in a deployed item. -/
def Consistent (scanned : ScannedReport) : Prop :=
  ∀ i (hi : i < scanned.listeners.length) finding,
    finding ∈ listenerFindings scanned.rest.cryptoLibraries scanned.listeners[i] →
      finding ∈ serviceFindings scanned → isClassicalRule finding.ruleId = true →
        ∀ services, (computeGap scanned.toReport).services = some services →
          ∀ item ∈ services.items, listenerPath i ∈ item.listeners → item.state ≠ .deployed

section Agreement

variable {scanned : ScannedReport}

/-- A listener that fails and offers PQC has a finding and stands in a deployed item. -/
theorem not_consistent_of_offers {listener : ScannedListener} (havailable : scanned.available = true)
    (hmem : listener ∈ scanned.listeners) (hjudged : Judged listener.toListener)
    (hfails : Fails scanned.rest.cryptoLibraries listener.toListener)
    (hoffers : OffersPqc scanned.toReport listener.toListener) : ¬ Consistent scanned := by
  intro hconsistent
  obtain ⟨i, hi, rfl⟩ := List.getElem_of_mem hmem
  obtain ⟨finding, hfinding, hrule⟩ := listenerFindings_iff.mpr hfails
  have hemitted : finding ∈ serviceFindings scanned := by
    unfold serviceFindings
    rw [if_pos havailable]
    exact List.mem_flatMap.mpr ⟨_, hmem, hfinding⟩
  have hservices : ∃ services, (computeGap scanned.toReport).services = some services :=
    ⟨_, if_pos havailable⟩
  obtain ⟨services, hservices⟩ := hservices
  have hlen : i < scanned.toReport.serviceCryptoLinkage.listeners.length := by
    rw [listeners_toReport, List.length_map]
    exact hi
  rw [← getElem_toReport hi hlen] at hjudged hoffers
  obtain ⟨item, hitem, hnamed⟩ := exists_named hservices hlen hjudged
  have hstate := state_of_named hservices hitem hlen hnamed
  exact hconsistent i hi finding hfinding hemitted hrule services hservices item hitem hnamed
    (hstate.trans (listenerState_deployed.mpr hoffers))

/-- The findings agree with the verdict exactly if no listener with a process and a crypto library
fails and offers PQC. -/
theorem findings_consistent_iff (scanned : ScannedReport) : Consistent scanned ↔
    (scanned.available = true → ∀ listener ∈ scanned.listeners, Judged listener.toListener →
      Fails scanned.rest.cryptoLibraries listener.toListener →
        ¬ OffersPqc scanned.toReport listener.toListener) := by
  constructor
  · intro hconsistent havailable listener hmem hjudged hfails hoffers
    exact not_consistent_of_offers havailable hmem hjudged hfails hoffers hconsistent
  · intro hagree i hi finding hfinding hemitted hrule services hservices item hitem hnamed hdeployed
    have havailable : scanned.available = true := by
      by_contra hnot
      unfold serviceFindings at hemitted
      rw [if_neg hnot] at hemitted
      exact List.not_mem_nil hemitted
    have hlen : i < scanned.toReport.serviceCryptoLinkage.listeners.length := by
      rw [listeners_toReport, List.length_map]
      exact hi
    have hlistener := getElem_toReport hi hlen
    have hjudged := judged_of_named hservices hitem hlen hnamed
    rw [state_of_named hservices hitem hlen hnamed, listenerState_deployed, hlistener] at hdeployed
    rw [hlistener] at hjudged
    exact hagree havailable _ (List.getElem_mem hi) hjudged
      (listenerFindings_iff.mp ⟨finding, hfinding, hrule⟩) hdeployed

/-- A service that maps two versions of OpenSSL. -/
def mixedListener : ScannedListener where
  protocol := some .tcp
  port := some 443
  process := some "nginx"
  cryptoLibraries :=
    [⟨some "openssl", some "/usr/lib64/libssl.so.3", some "3.5.0", some true⟩,
      ⟨some "openssl", some "/opt/app/libssl.so.1.1", none, none⟩]

/-- A service built with a Go that offers the draft hybrid. -/
def draftListener : ScannedListener where
  protocol := some .tcp
  port := some 8443
  process := some "app"
  go := some ⟨some "go1.23.4", some "X25519Kyber768Draft00", []⟩

/-- A host whose policy offers PQC, with one of them. -/
def hostOf (listener : ScannedListener) : ScannedReport where
  rest := { cryptoPolicy := { tlsKeyExchange := .bool true } }
  available := true
  listeners := [listener]

theorem not_consistent_hostOf :
    ¬ Consistent (hostOf mixedListener) ∧ ¬ Consistent (hostOf draftListener) := by
  constructor
  · refine not_consistent_of_offers rfl (List.mem_singleton.mpr rfl) ⟨by decide, by decide +kernel⟩
      (.library ⟨some "openssl", some "/opt/app/libssl.so.1.1", none, none⟩ ?_ ?_)
      (.hostDefault (by decide +kernel) ⟨_, List.mem_cons_self, rfl⟩ (by decide +kernel) rfl)
    · exact List.mem_cons_of_mem _ List.mem_cons_self
    · decide +kernel
  · exact not_consistent_of_offers rfl (List.mem_singleton.mpr rfl) ⟨by decide, by decide +kernel⟩
      (.go _ rfl (by decide)) (.goDefault (by decide +kernel) ⟨_, rfl, by decide +kernel⟩)

end Agreement

end PqcReadiness.Gap
