import Mathlib
import PqcReadiness.Gap.Accounting

/-!
# A Go binary as a server and as a client

The scanner reads a Go binary's toolchain version and GODEBUG texts into one
record (`goTlsKexDefault`), and two judgements read that record back.  A
listener is judged by the default key exchange in the record, a client group by
the version itself.  They part ways in four places:

* Go 1.23 defaults to a pre-standard hybrid: the listener counts as deployed,
  the client as not capable;
* Go 1.24 with ML-KEM reverted: the listener counts as not capable, the client
  as capable but not configured;
* an unreadable version: not capable against unknown;
* an older Go on a host whose default offers PQC: the listener alone is
  combined with that default and counts as configured but not capable.

`JudgedAlike` is what is left, and `go_judged_alike_iff` says that the two
verdicts agree on exactly those inputs.
-/

namespace PqcReadiness.Gap

open Lib

/-! ## The two readings of the record -/

section Record

variable (goVersion defaultGodebug runtimeGodebug : Option String)

/-- The keys reverted by the build or the environment. -/
abbrev revertedKeys : List String := godebugReverted (godebugText defaultGodebug runtimeGodebug)

theorem tlsmlkem_mem_godebugReverts :
    "tlsmlkem" ∈ (goRecord goVersion defaultGodebug runtimeGodebug).godebugReverts ↔
      "tlsmlkem" ∈ revertedKeys defaultGodebug runtimeGodebug := by
  simp [goRecord, goKexMembers]

/-- What a listener makes of the record. -/
theorem goCapable_goRecord :
    goCapable (goRecord goVersion defaultGodebug runtimeGodebug) = true ↔
      ∃ vt, goVersionTuple goVersion = some vt ∧ goKyberDraftDefaultVersion ≤ vt.take 2 ∧
        "tlsmlkem" ∉ revertedKeys defaultGodebug runtimeGodebug ∧
        (vt.take 2 < goMlkemDefaultVersion →
          "tlskyber" ∉ revertedKeys defaultGodebug runtimeGodebug) := by
  have hmlkem := tlsmlkem_mem_godebugReverts goVersion defaultGodebug runtimeGodebug
  rw [goCapable]
  cases hversion : goVersionTuple goVersion with
  | none => simp [goRecord, goKexMembers, hversion, orEmpty]
  | some vt =>
      simp only [Option.some.injEq, exists_eq_left', Bool.and_eq_true, Bool.not_eq_true',
        decide_eq_true_eq, decide_eq_false_iff_not, hmlkem]
      by_cases hnew : vt.take 2 < goMlkemDefaultVersion
      · have hold : ¬ goMlkemDefaultVersion ≤ vt.take 2 := not_le_of_gt hnew
        by_cases hkyber : goKyberDraftDefaultVersion ≤ vt.take 2
        · by_cases hreverted : "tlskyber" ∈ revertedKeys defaultGodebug runtimeGodebug <;>
            simp [goRecord, goKexMembers, hversion, hold, hkyber, hreverted, hnew, orEmpty]
        · simp [goRecord, goKexMembers, hversion, hold, hkyber, orEmpty]
      · have hge : goMlkemDefaultVersion ≤ vt.take 2 := not_lt.mp hnew
        have hkyber : goKyberDraftDefaultVersion ≤ vt.take 2 :=
          le_trans (by decide) hge
        by_cases hreverted : "tlsmlkem" ∈ revertedKeys defaultGodebug runtimeGodebug <;>
          simp [goRecord, goKexMembers, hversion, hge, hkyber, hreverted, hnew, orEmpty]

/-- The state a client group has for its Go record. -/
def goClientState : State :=
  match goVersionTuple goVersion with
  | none => .unknown
  | some vt =>
      if vt.take 2 < goMlkemDefaultVersion then .notCapable
      else if "tlsmlkem" ∈ revertedKeys defaultGodebug runtimeGodebug then .capableNotConfigured
      else .deployed

theorem classify_goTlsCapability :
    classify (goTlsCapability (goRecord goVersion defaultGodebug runtimeGodebug)).1
        (goTlsCapability (goRecord goVersion defaultGodebug runtimeGodebug)).2 =
      goClientState goVersion defaultGodebug runtimeGodebug := by
  have hmlkem := tlsmlkem_mem_godebugReverts goVersion defaultGodebug runtimeGodebug
  have hgo : (goRecord goVersion defaultGodebug runtimeGodebug).goVersion = goVersion := rfl
  unfold goTlsCapability goClientState
  rw [hgo]
  cases hversion : goVersionTuple goVersion with
  | none => rfl
  | some vt =>
      by_cases hnew : vt.take 2 < goMlkemDefaultVersion
      · simp [hnew, classify]
      · by_cases hreverted : "tlsmlkem" ∈ revertedKeys defaultGodebug runtimeGodebug
        · simp [hnew, hmlkem, hreverted, classify]
        · simp [hnew, hmlkem, hreverted, classify]

end Record

/-! ## A listener that maps nothing but Go -/

/-- A listener with a Go record, no crypto library and no TLS settings of its
own. -/
structure GoListener (report : Report) (go : GoBuild) (listener : Listener) : Prop where
  process : orEmpty listener.process ≠ ""
  go : listener.go = some go
  noLibrary : listener.cryptoLibraries = []
  noSetting : ∀ path ep,
    endpointForListener report.serviceTlsConfig listener = some (path, ep) →
      ep.pqcKeyExchange = none

variable {report : Report} {go : GoBuild} {listener : Listener}

theorem GoListener.judged (h : GoListener report go listener) : Judged listener := by
  refine ⟨h.process, ?_⟩
  simp [listenerCapability, h.go]

theorem GoListener.tlsJudgement_eq (h : GoListener report go listener) :
    tlsJudgement report listener =
      if goCapable go then ⟨some true, some true, true⟩
      else ⟨some false, (tlsConfigured report).1, false⟩ := by
  have hcapable : (listenerCapability listener).libraryPqcCapable = some (goCapable go) := by
    cases hgo : goCapable go <;> simp [listenerCapability, h.go, h.noLibrary, hgo]
  have hdefault : (listenerCapability listener).goDefaultHybrid = goCapable go := by
    simp [listenerCapability, h.go]
  unfold tlsJudgement
  rw [hcapable, hdefault]
  cases hgo : goCapable go with
  | true => simp
  | false =>
      cases hconfig : endpointForListener report.serviceTlsConfig listener with
      | none => simp
      | some found =>
          have hnone := h.noSetting found.1 found.2 hconfig
          simp [hnone]

/-! ## When the two agree -/

/-- The hosts whose SSH verdict is that of a Go client: a Go binary that runs as
`sshd` gets the host's SSH judgement, which knows nothing of Go. -/
def SshAsGoClient (report : Report) (goVersion defaultGodebug runtimeGodebug : Option String) :
    Prop :=
  (report.sshd.available ∨ report.sshd.unreadable ∨ report.sshPqc.available) ∧
    match goVersionTuple goVersion with
    | none => (sshCapable report).1 = none ∨
        (sshCapable report).1 = some true ∧ (sshConfigured report).1 = none
    | some vt =>
        if vt.take 2 < goMlkemDefaultVersion then
          (sshCapable report).1 = some false ∧ (sshConfigured report).1 ≠ some true
        else (sshCapable report).1 = some true ∧
          (sshConfigured report).1 =
            some (decide ("tlsmlkem" ∉ revertedKeys defaultGodebug runtimeGodebug))

theorem ssh_state_eq_goClientState_iff {report : Report}
    {goVersion defaultGodebug runtimeGodebug : Option String} :
    (protocols report).ssh.state = goClientState goVersion defaultGodebug runtimeGodebug ↔
      SshAsGoClient report goVersion defaultGodebug runtimeGodebug := by
  unfold SshAsGoClient goClientState
  by_cases hpresent :
      (report.sshd.available || report.sshd.unreadable || report.sshPqc.available) = true
  · have hstate : (protocols report).ssh.state =
        classify (sshCapable report).1 (sshConfigured report).1 := by
      simp only [protocols, ssh, verdict, if_pos hpresent]
    have hhost : report.sshd.available = true ∨ report.sshd.unreadable = true ∨
        report.sshPqc.available = true := by
      simpa [or_assoc] using hpresent
    rw [hstate]
    cases goVersionTuple goVersion with
    | none =>
        rcases (sshCapable report).1 with _ | _ | _ <;>
          rcases (sshConfigured report).1 with _ | _ | _ <;> simp [classify, hhost]
    | some vt =>
        dsimp only
        split_ifs with hold hreverted <;>
          rcases (sshCapable report).1 with _ | _ | _ <;>
            rcases (sshConfigured report).1 with _ | _ | _ <;>
              simp_all [classify]
  · have hstate : (protocols report).ssh.state = .notPresent := by
      simp only [protocols, ssh, verdict, if_neg hpresent]
    have hhost : ¬ (report.sshd.available = true ∨ report.sshd.unreadable = true ∨
        report.sshPqc.available = true) := by
      simpa [or_assoc] using hpresent
    rw [hstate]
    cases goVersionTuple goVersion with
    | none => simp [hhost]
    | some vt =>
        dsimp only
        split_ifs <;> simp [hhost]

/-- The inputs on which a Go binary is judged alike as a server and as a client:
the hybrid is on by default in Go 1.24 and not reverted; or the Go is known to
be older, offers no pre-standard hybrid either, and the host default does not
claim PQC for it. -/
def JudgedAlike (report : Report) (listener : Listener)
    (goVersion defaultGodebug runtimeGodebug : Option String) : Prop :=
  let reverted := revertedKeys defaultGodebug runtimeGodebug
  match serviceKind listener with
  | .ssh => SshAsGoClient report goVersion defaultGodebug runtimeGodebug
  | .tls =>
      match goVersionTuple goVersion with
      | none => False
      | some vt =>
          if vt.take 2 < goMlkemDefaultVersion then
            (goKyberDraftDefaultVersion ≤ vt.take 2 →
              "tlskyber" ∈ reverted ∨ "tlsmlkem" ∈ reverted) ∧
              (tlsConfigured report).1 ≠ some true
          else "tlsmlkem" ∉ reverted

theorem listenerState_eq_goClientState_iff {goVersion defaultGodebug runtimeGodebug : Option String}
    (h : GoListener report (goRecord goVersion defaultGodebug runtimeGodebug) listener) :
    listenerState report (protocols report) listener =
        goClientState goVersion defaultGodebug runtimeGodebug ↔
      JudgedAlike report listener goVersion defaultGodebug runtimeGodebug := by
  unfold listenerState JudgedAlike
  cases serviceKind listener with
  | ssh => exact ssh_state_eq_goClientState_iff
  | tls =>
      have hcapable := goCapable_goRecord goVersion defaultGodebug runtimeGodebug
      simp only [h.tlsJudgement_eq]
      unfold goClientState
      cases hversion : goVersionTuple goVersion with
      | none =>
          -- A version that cannot be read: the server is not capable, the client unknown.
          have hno : ¬ goCapable (goRecord goVersion defaultGodebug runtimeGodebug) := by
            rw [hcapable, hversion]
            simp
          rw [if_neg hno]
          rcases (tlsConfigured report).1 with _ | _ | _ <;> simp [classify]
      | some vt =>
          simp only [hversion, Option.some.injEq, exists_eq_left'] at hcapable
          by_cases hnew : vt.take 2 < goMlkemDefaultVersion
          · -- An older Go: the client is not capable, whatever GODEBUG says.
            by_cases hyes : goCapable (goRecord goVersion defaultGodebug runtimeGodebug)
            · obtain ⟨hkyber, hmlkem, hold⟩ := hcapable.mp hyes
              have hdraft := hold hnew
              simp [hyes, hnew, classify, hkyber, hmlkem, hdraft]
            · have hdraft : goKyberDraftDefaultVersion ≤ vt.take 2 →
                  "tlskyber" ∈ revertedKeys defaultGodebug runtimeGodebug ∨
                    "tlsmlkem" ∈ revertedKeys defaultGodebug runtimeGodebug := by
                intro hkyber
                by_contra hneither
                rw [not_or] at hneither
                exact hyes (hcapable.mpr ⟨hkyber, hneither.2, fun _ => hneither.1⟩)
              rw [if_neg hyes]
              rcases (tlsConfigured report).1 with _ | _ | _ <;> simp [classify, hnew] <;>
                exact hdraft
          · -- Go 1.24 or later: only ML-KEM decides.
            have hkyber : goKyberDraftDefaultVersion ≤ vt.take 2 :=
              le_trans (by decide) (not_lt.mp hnew)
            by_cases hmlkem : "tlsmlkem" ∈ revertedKeys defaultGodebug runtimeGodebug
            · have hno : ¬ goCapable
                  (goRecord goVersion defaultGodebug runtimeGodebug) := by
                rw [hcapable]
                exact fun hyes => hyes.2.1 hmlkem
              rw [if_neg hno]
              rcases (tlsConfigured report).1 with _ | _ | _ <;> simp [classify, hnew, hmlkem]
            · have hyes : goCapable (goRecord goVersion defaultGodebug runtimeGodebug) :=
                hcapable.mpr ⟨hkyber, hmlkem, fun hlt => absurd hlt hnew⟩
              simp [hyes, classify, hnew, hmlkem]

/-! ## In the verdict of a report -/

theorem mem_clientItems_iff (havailable : report.processCryptoLinkage.available = true)
    (item : ClientItem) :
    item ∈ clientItems (computeGap report).clients ↔
      ∃ entry ∈ report.processCryptoLinkage.groups.zipIdx, entry.1.clients ≠ 0 ∧
        clientItem report (protocols report) entry = item := by
  simp [clientItems, computeGap, clients, havailable, and_assoc]

/-- The client item of a group with a Go record has the record's state. -/
theorem state_of_go_group (havailable : report.processCryptoLinkage.available = true) {j : ℕ}
    (hj : j < report.processCryptoLinkage.groups.length)
    (hgo : report.processCryptoLinkage.groups[j].go = some go) {item : ClientItem}
    (hitem : item ∈ clientItems (computeGap report).clients) (hgroup : item.group = groupPath j) :
    item.state = classify (goTlsCapability go).1 (goTlsCapability go).2 := by
  obtain ⟨⟨grp, i⟩, hentry, -, rfl⟩ := (mem_clientItems_iff havailable item).mp hitem
  obtain rfl : i = j := groupPath_injective hgroup
  rw [List.mem_zipIdx_iff_getElem?, List.getElem?_eq_getElem hj] at hentry
  obtain rfl : report.processCryptoLinkage.groups[i] = grp := Option.some.inj hentry
  simp [ClientItem.state, clientItem, judgeGroup, hgo, verdict]

/-- **A Go binary is judged alike as a server and as a client exactly on the
inputs of `JudgedAlike`.**  Both verdicts exist; they are those of the item that
names the listener and of the item of the group. -/
theorem go_judged_alike_iff (report : Report)
    (goVersion defaultGodebug runtimeGodebug : Option String) (go : GoBuild)
    (hgo : goTlsKexDefault goVersion defaultGodebug runtimeGodebug = .ok go)
    (hservices : report.serviceCryptoLinkage.available = true)
    (hprocesses : report.processCryptoLinkage.available = true)
    (i : ℕ) (hi : i < report.serviceCryptoLinkage.listeners.length)
    (hlistener : GoListener report go report.serviceCryptoLinkage.listeners[i])
    (j : ℕ) (hj : j < report.processCryptoLinkage.groups.length)
    (hgroup : report.processCryptoLinkage.groups[j].go = some go)
    (hclient : report.processCryptoLinkage.groups[j].clients ≠ 0) :
    (∃ item ∈ serviceItems (computeGap report).services, listenerPath i ∈ item.listeners) ∧
      (∃ client ∈ clientItems (computeGap report).clients, client.group = groupPath j) ∧
      ∀ item ∈ serviceItems (computeGap report).services, listenerPath i ∈ item.listeners →
        ∀ client ∈ clientItems (computeGap report).clients, client.group = groupPath j →
          (item.state = client.state ↔ JudgedAlike report
            report.serviceCryptoLinkage.listeners[i] goVersion defaultGodebug runtimeGodebug) := by
  obtain ⟨-, rfl⟩ := goTlsKexDefault_ok_iff.mp hgo
  have hsome : ∃ services, (computeGap report).services = some services := by
    simp [computeGap, Gap.services, hservices]
  obtain ⟨services, hsome⟩ := hsome
  have hitems : serviceItems (computeGap report).services = services.items := by
    rw [hsome]
    rfl
  rw [hitems]
  refine ⟨exists_named hsome hi hlistener.judged, ?_, ?_⟩
  · refine ⟨clientItem report (protocols report) (report.processCryptoLinkage.groups[j], j), ?_,
      rfl⟩
    refine (mem_clientItems_iff hprocesses _).mpr ⟨_, ?_, hclient, rfl⟩
    rw [List.mem_zipIdx_iff_getElem?]
    exact List.getElem?_eq_getElem hj
  · intro item hitem hnamed client hmem hpath
    rw [state_of_named hsome hitem hi hnamed, state_of_go_group hprocesses hj hgroup hmem hpath,
      classify_goTlsCapability, listenerState_eq_goClientState_iff hlistener]

/-- A listening Go binary with no crypto library mapped. -/
def goServer (go : GoBuild) : Listener :=
  { process := some "proxy", protocol := some .tcp, port := some 443,
    exe := some "/usr/bin/proxy", go := some go }

/-- A host that runs one Go binary as a server and as a client. -/
def goReport (go : GoBuild) : Report :=
  { openssl := { available := true, pqcNative := .bool true }
    cryptoPolicy := { tlsKeyExchange := .bool true }
    serviceCryptoLinkage := { available := true, listeners := [goServer go] }
    processCryptoLinkage :=
      { available := true
        groups := [{ exe := some "/usr/bin/proxy", process := some "proxy", clients := 1,
                     go := some go }] } }

theorem goReport_goListener (go : GoBuild) : GoListener (goReport go) go (goServer go) := by
  have hservice : serviceForListener (goServer go) = none := by
    have hno : serviceForListener (goServer {}) = none := by decide
    exact hno
  refine ⟨by simp [goServer, orEmpty], rfl, rfl, ?_⟩
  intro path ep hconfig
  rw [endpointForListener, hservice] at hconfig
  exact absurd hconfig (by simp)

/-- With Go 1.24 the two verdicts agree. -/
theorem go124_judged_alike :
    ∃ item ∈ serviceItems
        (computeGap (goReport (goRecord (some "go1.24.1") none none))).services,
      ∃ client ∈ clientItems
          (computeGap (goReport (goRecord (some "go1.24.1") none none))).clients,
        item.state = client.state := by
  obtain ⟨⟨item, hitem, hnamed⟩, ⟨client, hclient, hgroup⟩, hiff⟩ :=
    go_judged_alike_iff (goReport (goRecord (some "go1.24.1") none none))
      (some "go1.24.1") none none _ (goTlsKexDefault_ok_iff.mpr ⟨by decide +kernel, rfl⟩) rfl rfl 0 (by decide) (goReport_goListener _) 0 (by decide)
      rfl (by decide)
  refine ⟨item, hitem, client, hclient, (hiff item hitem hnamed client hclient hgroup).mpr ?_⟩
  have hversion : goVersionTuple (some "go1.24.1") = some [1, 24, 1] := by decide +kernel
  have hreverted : revertedKeys none none = [] := by decide +kernel
  have hkind : serviceKind (goServer (goRecord (some "go1.24.1") none none)) = .tls := by
    decide +kernel
  change JudgedAlike _ (goServer _) _ _ _
  simp [JudgedAlike, hkind, hversion, hreverted, goMlkemDefaultVersion]

/-- Go 1.23 offers the pre-standard Kyber hybrid: deployed as a server, not
capable as a client. -/
theorem go123_judged_differently :
    goTlsKexDefault (some "go1.23.4") none none = .ok (goRecord (some "go1.23.4") none none) ∧
      GoListener (goReport (goRecord (some "go1.23.4") none none))
        (goRecord (some "go1.23.4") none none)
        (goServer (goRecord (some "go1.23.4") none none)) ∧
      (serviceItems
        (computeGap (goReport (goRecord (some "go1.23.4") none none))).services).map
          ServiceItem.state = [.deployed] ∧
      (clientItems
        (computeGap (goReport (goRecord (some "go1.23.4") none none))).clients).map
          ClientItem.state = [.notCapable] :=
  ⟨goTlsKexDefault_ok_iff.mpr ⟨by decide +kernel, rfl⟩, goReport_goListener _,
    by decide +kernel, by decide +kernel⟩

end PqcReadiness.Gap
