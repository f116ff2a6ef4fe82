import PqcReadiness.Observations.Attribution
import PqcReadiness.Observations.Conservation

/-!
# The fleet rollup

`_aggregate_iter` reads the reports one at a time and keeps only counters.  Every
counter adds up a list of increments that a report contributes on its own, so the
state of the loop after any reports is a tally of their increments
(`foldl_aggregateStep`).  That the rollup is additive and does not depend on the order
of the reports then follows from the same two facts about tallies.

The rollup also carries the joined observations.  The join reads the host index
only through `candidates`, and that by the hosts and not by their positions
(`candidates_eq`), so the order in which the reports were indexed does not show in
it either (`matchOfHosts_eq_of_perm`).
-/

namespace PqcReadiness.Fleet

open Lib Gap Observations

/-! ## What a report contributes -/

/-- The states of a verdict that the aggregator reads. -/
structure GapReading where
  protocol : String → String
  services : List String
  clients : List (String × ℤ)

/-- `_gap.PROTOCOLS`. -/
def gapProtocols : List String := ["tls", "ssh", "ipsec"]

/-- The states that are counted per host. -/
def gapStates : List String := ["capable_not_configured", "configured_not_capable"]

/-- The states of a stored verdict. -/
def readStored (stored : StoredGap) : GapReading where
  protocol name := ((find name stored.protocols).getD none).getD "unknown"
  services := stored.services.map (·.getD "unknown")
  clients := stored.clients.map fun client => (client.state.getD "unknown", client.clientProcesses)

/-- The states of a computed verdict. -/
def readComputed (gap : DeploymentGap) : GapReading where
  protocol name :=
    if name = "tls" then gap.protocols.tls.state.name
    else if name = "ssh" then gap.protocols.ssh.state.name
    else if name = "ipsec" then gap.protocols.ipsec.state.name
    else "unknown"
  services := (serviceItems gap.services).map fun item => item.state.name
  clients := (clientItems gap.clients).map fun item => (item.state.name, item.clientProcesses)

/-- `gap_for`: the report's own verdict when it has one. -/
def gapFor (report : Report) : GapReading :=
  match report.pqcDeploymentGap with
  | some stored =>
      if stored.protocols ≠ [] then readStored stored else readComputed (computeGap report)
  | none => readComputed (computeGap report)

/-- The set of states that a host shows anywhere. -/
def hostStates (report : Report) : List String :=
  let gap := gapFor report
  gapProtocols.map gap.protocol ++ gap.services ++ gap.clients.map Prod.fst

/-- `x or "?"`. -/
def orUnknown (value : Option String) : String := if orEmpty value ≠ "" then orEmpty value else "?"

/-- The verdict of a report without its commentary. -/
def verdictGroup (report : Report) : String := strip (beforeSub " - " (orUnknown report.verdict))

/-- The kinds of accelerator of a host, each once. -/
def acceleratorKinds (report : Report) : List String :=
  (report.accelerators.map (·.getD "?")).eraseDups

/-- Is a detection flagged as unavailable in a container? -/
def isUnavailable : Json → Bool
  | .obj info => (Json.get info "unavailable_in_container").truthy
  | _ => false

/-- The detections that are flagged on a host. -/
def detectionsUnavailable (report : Report) : List String :=
  (report.hostFsDetectionsUnavailable.entries.filter fun entry => isUnavailable entry.2).map
    Prod.fst

/-- The gap states that a host shows. -/
def hostGaps (report : Report) : List String :=
  gapStates.filter fun state => state ∈ hostStates report

/-! ## The loop -/

/-- The counters of the loop. -/
structure Counters where
  totalHosts : ℕ := 0
  byArch : Dict String ℕ := Dict.empty
  byOs : Dict String ℕ := Dict.empty
  byIsa : Dict String ℕ := Dict.empty
  byVerdict : Dict String ℕ := Dict.empty
  byEnv : Dict String ℕ := Dict.empty
  /-- The models added to the set so far. -/
  cpuModels : List String := []
  accelKinds : Dict String ℕ := Dict.empty
  detections : Dict String ℕ := Dict.empty
  replaceRequired : ℕ := 0
  gapByProtocol : String → Dict String ℕ := fun _ => Dict.empty
  gapServices : Dict String ℕ := Dict.empty
  gapClients : Dict String ℕ := Dict.empty
  gapClientProcesses : Dict String ℤ := Dict.empty
  gapHosts : Dict String ℕ := Dict.empty

/-- `counter[key] += 1` for each key. -/
def countAll (counter : Dict String ℕ) (keys : List String) : Dict String ℕ :=
  counter.tallyFrom (keys.map fun key => (key, 1))

/-- One report. -/
def aggregateStep (state : Counters) (report : Report) : Counters :=
  let gap := gapFor report
  { totalHosts := state.totalHosts + 1
    byArch := state.byArch.bump (report.arch.getD "?") 1
    byOs := state.byOs.bump (orUnknown report.osReleaseId) 1
    byIsa := state.byIsa.bump (report.isaTier.getD "?") 1
    byVerdict := state.byVerdict.bump (verdictGroup report) 1
    byEnv := state.byEnv.bump (report.environment.getD "?") 1
    cpuModels := state.cpuModels ++ [orUnknown report.cpuModel]
    accelKinds := countAll state.accelKinds (acceleratorKinds report)
    detections := countAll state.detections (detectionsUnavailable report)
    replaceRequired := state.replaceRequired + if report.replaceRequired then 1 else 0
    gapByProtocol := fun name =>
      if name ∈ gapProtocols then (state.gapByProtocol name).bump (gap.protocol name) 1
      else state.gapByProtocol name
    gapServices := countAll state.gapServices gap.services
    gapClients := countAll state.gapClients (gap.clients.map Prod.fst)
    gapClientProcesses := state.gapClientProcesses.tallyFrom gap.clients
    gapHosts := countAll state.gapHosts (hostGaps report) }

/-- The rollup, without the joined observations. -/
structure Rollup where
  totalHosts : ℕ
  byArch : Dict String ℕ
  byOsReleaseId : Dict String ℕ
  byIsaTier : Dict String ℕ
  byVerdict : Dict String ℕ
  byRuntimeEnvironment : Dict String ℕ
  acceleratorKindsHostCount : Dict String ℕ
  hostFsDetectionsUnavailableHostCount : Dict String ℕ
  uniqueCpuModels : List String
  replaceRequiredCount : ℕ
  hostsByProtocolState : String → Dict String ℕ
  servicesByState : Dict String ℕ
  clientGroupsByState : Dict String ℕ
  clientProcessesByState : Dict String ℤ
  hostsWithGap : String → ℕ

/-- `_aggregate_iter`. -/
def aggregate (reports : List Report) : Rollup :=
  let state := reports.foldl aggregateStep {}
  { totalHosts := state.totalHosts
    byArch := state.byArch
    byOsReleaseId := state.byOs
    byIsaTier := state.byIsa
    byVerdict := state.byVerdict
    byRuntimeEnvironment := state.byEnv
    acceleratorKindsHostCount := state.accelKinds
    hostFsDetectionsUnavailableHostCount := state.detections
    uniqueCpuModels := sortedSet state.cpuModels
    replaceRequiredCount := state.replaceRequired
    hostsByProtocolState := fun name => (state.gapByProtocol name).sorted
    servicesByState := state.gapServices.sorted
    clientGroupsByState := state.gapClients.sorted
    clientProcessesByState := state.gapClientProcesses.sorted
    hostsWithGap := fun name => if name ∈ gapStates then state.gapHosts.count name else 0 }

/-! ## Every counter is a tally -/

/-- One for each report, under a key of the report. -/
def perHost (key : Report → String) (report : Report) : List (String × ℕ) := [(key report, 1)]

/-- One for each of the keys of a report. -/
def perKey (keys : Report → List String) (report : Report) : List (String × ℕ) :=
  (keys report).map fun key => (key, 1)

/-- The counters after a run of the loop. -/
theorem foldl_aggregateStep (reports : List Report) (state : Counters) :
    reports.foldl aggregateStep state =
      { totalHosts := state.totalHosts + reports.length
        byArch := state.byArch.tallyFrom (reports.flatMap (perHost fun r => r.arch.getD "?"))
        byOs := state.byOs.tallyFrom (reports.flatMap (perHost fun r => orUnknown r.osReleaseId))
        byIsa := state.byIsa.tallyFrom (reports.flatMap (perHost fun r => r.isaTier.getD "?"))
        byVerdict := state.byVerdict.tallyFrom (reports.flatMap (perHost verdictGroup))
        byEnv := state.byEnv.tallyFrom (reports.flatMap (perHost fun r => r.environment.getD "?"))
        cpuModels := state.cpuModels ++ reports.map fun r => orUnknown r.cpuModel
        accelKinds := state.accelKinds.tallyFrom (reports.flatMap (perKey acceleratorKinds))
        detections := state.detections.tallyFrom (reports.flatMap (perKey detectionsUnavailable))
        replaceRequired := state.replaceRequired + reports.countP Report.replaceRequired
        gapByProtocol := fun name =>
          if name ∈ gapProtocols then
            (state.gapByProtocol name).tallyFrom
              (reports.flatMap (perHost fun r => (gapFor r).protocol name))
          else state.gapByProtocol name
        gapServices := state.gapServices.tallyFrom
          (reports.flatMap (perKey fun r => (gapFor r).services))
        gapClients := state.gapClients.tallyFrom
          (reports.flatMap (perKey fun r => (gapFor r).clients.map Prod.fst))
        gapClientProcesses := state.gapClientProcesses.tallyFrom
          (reports.flatMap fun r => (gapFor r).clients)
        gapHosts := state.gapHosts.tallyFrom (reports.flatMap (perKey hostGaps)) } := by
  induction reports generalizing state with
  | nil => simp [Dict.tallyFrom]
  | cons report rest ih =>
      rw [List.foldl_cons, ih]
      simp only [aggregateStep, countAll, List.flatMap_cons, Dict.tallyFrom_append, perKey, perHost,
        List.map_cons, List.countP_cons, List.length_cons, List.append_assoc, List.singleton_append]
      congr 1
      · omega
      · omega
      · funext name
        split <;> rfl

/-! ## The parts of a fleet add up -/

section Split

variable {M : Type} [AddCommMonoid M]

/-- A counter is the pointwise sum of two others. -/
def AddsUp (whole first second : Dict String M) : Prop :=
  (∀ key, whole.count key = first.count key + second.count key) ∧
    ∀ key, key ∈ whole.keys ↔ key ∈ first.keys ∨ key ∈ second.keys

theorem addsUp_tally (increments : Report → List (String × M)) (xs ys : List Report) :
    AddsUp (Dict.tally ((xs ++ ys).flatMap increments)) (Dict.tally (xs.flatMap increments))
      (Dict.tally (ys.flatMap increments)) := by
  rw [List.flatMap_append]
  refine ⟨fun key => Dict.count_tally_append _ _ key, ?_⟩
  intro key
  simp [Dict.tally, Dict.mem_keys_tallyFrom]

theorem AddsUp.sorted {whole first second : Dict String M} (h : AddsUp whole first second) :
    AddsUp whole.sorted first.sorted second.sorted := by
  have hcount : ∀ (d : Dict String M) key, d.sorted.count key = d.count key := by
    intro d key
    rw [Dict.count, Dict.get?_sorted d key, Dict.count]
  have hkeys : ∀ (d : Dict String M) key, key ∈ d.sorted.keys ↔ key ∈ d.keys := by
    intro d key
    rw [Dict.mem_keys_iff, Dict.mem_keys_iff, Dict.get?_sorted d key]
  simpa only [AddsUp, hcount, hkeys] using h

end Split

/-- The rollup of a fleet is the sum of the rollups of its two parts. -/
structure PointwiseSum (whole first second : Rollup) : Prop where
  totalHosts : whole.totalHosts = first.totalHosts + second.totalHosts
  byArch : AddsUp whole.byArch first.byArch second.byArch
  byOsReleaseId : AddsUp whole.byOsReleaseId first.byOsReleaseId second.byOsReleaseId
  byIsaTier : AddsUp whole.byIsaTier first.byIsaTier second.byIsaTier
  byVerdict : AddsUp whole.byVerdict first.byVerdict second.byVerdict
  byRuntimeEnvironment :
    AddsUp whole.byRuntimeEnvironment first.byRuntimeEnvironment second.byRuntimeEnvironment
  acceleratorKindsHostCount : AddsUp whole.acceleratorKindsHostCount
    first.acceleratorKindsHostCount second.acceleratorKindsHostCount
  hostFsDetectionsUnavailableHostCount : AddsUp whole.hostFsDetectionsUnavailableHostCount
    first.hostFsDetectionsUnavailableHostCount second.hostFsDetectionsUnavailableHostCount
  uniqueCpuModels : whole.uniqueCpuModels =
    sortedSet (first.uniqueCpuModels ++ second.uniqueCpuModels)
  replaceRequiredCount :
    whole.replaceRequiredCount = first.replaceRequiredCount + second.replaceRequiredCount
  hostsByProtocolState : ∀ protocol, AddsUp (whole.hostsByProtocolState protocol)
    (first.hostsByProtocolState protocol) (second.hostsByProtocolState protocol)
  servicesByState : AddsUp whole.servicesByState first.servicesByState second.servicesByState
  clientGroupsByState :
    AddsUp whole.clientGroupsByState first.clientGroupsByState second.clientGroupsByState
  clientProcessesByState :
    AddsUp whole.clientProcessesByState first.clientProcessesByState second.clientProcessesByState
  hostsWithGap : ∀ state,
    whole.hostsWithGap state = first.hostsWithGap state + second.hostsWithGap state

/-- A sorted set is determined by its members. -/
theorem sortedSet_eq_of_mem_iff {xs ys : List String} (hmem : ∀ x, x ∈ xs ↔ x ∈ ys) :
    sortedSet xs = sortedSet ys := by
  refine sortedBy_id_eq_of_perm ?_
  rw [List.perm_ext_iff_of_nodup (List.nodup_dedup _) (List.nodup_dedup _)]
  simpa using hmem

theorem mem_sortedSet {xs : List String} {x : String} : x ∈ sortedSet xs ↔ x ∈ xs := by
  rw [sortedSet, mem_sortedBy, List.mem_dedup]

theorem aggregate_eq (reports : List Report) :
    aggregate reports =
      { totalHosts := reports.length
        byArch := Dict.tally (reports.flatMap (perHost fun r => r.arch.getD "?"))
        byOsReleaseId := Dict.tally (reports.flatMap (perHost fun r => orUnknown r.osReleaseId))
        byIsaTier := Dict.tally (reports.flatMap (perHost fun r => r.isaTier.getD "?"))
        byVerdict := Dict.tally (reports.flatMap (perHost verdictGroup))
        byRuntimeEnvironment := Dict.tally (reports.flatMap (perHost fun r => r.environment.getD "?"))
        acceleratorKindsHostCount := Dict.tally (reports.flatMap (perKey acceleratorKinds))
        hostFsDetectionsUnavailableHostCount :=
          Dict.tally (reports.flatMap (perKey detectionsUnavailable))
        uniqueCpuModels := sortedSet (reports.map fun r => orUnknown r.cpuModel)
        replaceRequiredCount := reports.countP Report.replaceRequired
        hostsByProtocolState := fun name =>
          (if name ∈ gapProtocols then
            Dict.tally (reports.flatMap (perHost fun r => (gapFor r).protocol name))
          else Dict.empty).sorted
        servicesByState := (Dict.tally (reports.flatMap (perKey fun r => (gapFor r).services))).sorted
        clientGroupsByState :=
          (Dict.tally (reports.flatMap (perKey fun r => (gapFor r).clients.map Prod.fst))).sorted
        clientProcessesByState := (Dict.tally (reports.flatMap fun r => (gapFor r).clients)).sorted
        hostsWithGap := fun name =>
          if name ∈ gapStates then (Dict.tally (reports.flatMap (perKey hostGaps))).count name
          else 0 } := by
  simp only [aggregate, foldl_aggregateStep, Nat.zero_add, List.nil_append]
  rfl

theorem aggregate_append (xs ys : List Report) :
    PointwiseSum (aggregate (xs ++ ys)) (aggregate xs) (aggregate ys) := by
  simp only [aggregate_eq]
  refine
    { totalHosts := List.length_append
      byArch := addsUp_tally _ xs ys
      byOsReleaseId := addsUp_tally _ xs ys
      byIsaTier := addsUp_tally _ xs ys
      byVerdict := addsUp_tally _ xs ys
      byRuntimeEnvironment := addsUp_tally _ xs ys
      acceleratorKindsHostCount := addsUp_tally _ xs ys
      hostFsDetectionsUnavailableHostCount := addsUp_tally _ xs ys
      uniqueCpuModels := ?_
      replaceRequiredCount := List.countP_append
      hostsByProtocolState := ?_
      servicesByState := (addsUp_tally _ xs ys).sorted
      clientGroupsByState := (addsUp_tally _ xs ys).sorted
      clientProcessesByState := (addsUp_tally _ xs ys).sorted
      hostsWithGap := ?_ }
  · apply sortedSet_eq_of_mem_iff
    intro model
    rw [List.map_append, List.mem_append, List.mem_append, mem_sortedSet, mem_sortedSet]
  · intro protocol
    apply AddsUp.sorted
    split
    case isTrue => exact addsUp_tally _ xs ys
    case isFalse => exact ⟨fun key => by simp [Dict.count], fun key => by simp⟩
  · intro state
    dsimp only
    split
    case isTrue => exact (addsUp_tally _ xs ys).1 state
    case isFalse => rfl

/-! ## The order of the reports does not show -/

/-- Two rollups are equal, as Python compares them. -/
structure SameRollup (first second : Rollup) : Prop where
  totalHosts : first.totalHosts = second.totalHosts
  byArch : first.byArch.Equiv second.byArch
  byOsReleaseId : first.byOsReleaseId.Equiv second.byOsReleaseId
  byIsaTier : first.byIsaTier.Equiv second.byIsaTier
  byVerdict : first.byVerdict.Equiv second.byVerdict
  byRuntimeEnvironment : first.byRuntimeEnvironment.Equiv second.byRuntimeEnvironment
  acceleratorKindsHostCount :
    first.acceleratorKindsHostCount.Equiv second.acceleratorKindsHostCount
  hostFsDetectionsUnavailableHostCount : first.hostFsDetectionsUnavailableHostCount.Equiv
    second.hostFsDetectionsUnavailableHostCount
  uniqueCpuModels : first.uniqueCpuModels = second.uniqueCpuModels
  replaceRequiredCount : first.replaceRequiredCount = second.replaceRequiredCount
  hostsByProtocolState : ∀ protocol,
    (first.hostsByProtocolState protocol).entries = (second.hostsByProtocolState protocol).entries
  servicesByState : first.servicesByState.entries = second.servicesByState.entries
  clientGroupsByState : first.clientGroupsByState.entries = second.clientGroupsByState.entries
  clientProcessesByState :
    first.clientProcessesByState.entries = second.clientProcessesByState.entries
  hostsWithGap : first.hostsWithGap = second.hostsWithGap

theorem equiv_tally_of_perm {M : Type} [AddCommMonoid M] (increments : Report → List (String × M))
    {xs ys : List Report} (hperm : xs.Perm ys) :
    (Dict.tally (xs.flatMap increments)).Equiv (Dict.tally (ys.flatMap increments)) :=
  Dict.tally_equiv_of_perm (hperm.flatMap_right increments)

theorem aggregate_perm {xs ys : List Report} (hperm : xs.Perm ys) :
    SameRollup (aggregate xs) (aggregate ys) := by
  simp only [aggregate_eq]
  refine
    { totalHosts := hperm.length_eq
      byArch := equiv_tally_of_perm _ hperm
      byOsReleaseId := equiv_tally_of_perm _ hperm
      byIsaTier := equiv_tally_of_perm _ hperm
      byVerdict := equiv_tally_of_perm _ hperm
      byRuntimeEnvironment := equiv_tally_of_perm _ hperm
      acceleratorKindsHostCount := equiv_tally_of_perm _ hperm
      hostFsDetectionsUnavailableHostCount := equiv_tally_of_perm _ hperm
      uniqueCpuModels := sortedSet_eq_of_mem_iff fun model => (hperm.map _).mem_iff
      replaceRequiredCount := hperm.countP_eq _
      hostsByProtocolState := ?_
      servicesByState := Dict.sortedItems_eq_of_equiv (equiv_tally_of_perm _ hperm)
      clientGroupsByState := Dict.sortedItems_eq_of_equiv (equiv_tally_of_perm _ hperm)
      clientProcessesByState := Dict.sortedItems_eq_of_equiv (equiv_tally_of_perm _ hperm)
      hostsWithGap := ?_ }
  · intro protocol
    apply Dict.sortedItems_eq_of_equiv
    split
    case isTrue => exact equiv_tally_of_perm _ hperm
    case isFalse => exact Dict.Equiv.refl _
  · funext state
    dsimp only
    split
    case isTrue =>
      have hequiv := equiv_tally_of_perm (perKey hostGaps) hperm state
      rw [Dict.count, hequiv, Dict.count]
    case isFalse => rfl

/-! ## Every host is counted once -/

theorem total_perHost (key : Report → String) (reports : List Report) :
    (Dict.tally (reports.flatMap (perHost key))).total = reports.length := by
  rw [Dict.total_tally]
  induction reports with
  | nil => rfl
  | cons report rest ih =>
      rw [List.flatMap_cons, List.map_append, List.sum_append, ih, List.length_cons]
      simp [perHost, Nat.add_comm]

/-- Each host counts at most once for a gap state. -/
theorem count_hostGaps (reports : List Report) {state : String} (hstate : state ∈ gapStates) :
    (Dict.tally (reports.flatMap (perKey hostGaps))).count state =
      reports.countP fun report => state ∈ hostStates report := by
  induction reports with
  | nil => rfl
  | cons report rest ih =>
      have hhost : (Dict.tally (perKey hostGaps report)).count state =
          if state ∈ hostStates report then 1 else 0 := by
        have hnodup : (hostGaps report).Nodup :=
          List.Nodup.filter _ (by decide : gapStates.Nodup)
        have hmem : state ∈ hostGaps report ↔ state ∈ hostStates report := by
          simp [hostGaps, hstate]
        rw [perKey, Dict.count_tally_ones]
        split
        case isTrue hshown => exact List.count_eq_one_of_mem hnodup (hmem.mpr hshown)
        case isFalse hhidden => exact List.count_eq_zero_of_not_mem (mt hmem.mp hhidden)
      rw [List.flatMap_cons, Dict.count_tally_append, ih, hhost, List.countP_cons]
      simp [Nat.add_comm]

/-! ## The order of the index does not show -/

section Join

variable {chars : CharData} {fromIsoFormat : String → Option DateTime} (tooOld : ℕ → Bool)
  (rec : Observation fromIsoFormat)

/-- The match of a record that points to these hosts. -/
def matchHosts (chars : CharData) (basis : Option String) (hosts : List HostEntry) : Match :=
  match hosts.head? with
  | some entry => attributed tooOld chars basis entry rec
  | none => newMatch chars rec

/-- The match of a record, from the hosts alone. -/
def matchOfHosts (chars : CharData) (hosts : List HostEntry) : Match :=
  match decisiveTier chars rec hosts with
  | none => newMatch chars rec
  | some tier =>
      let hits := hosts.filter fun entry => Evidence chars rec tier entry
      let narrowed := hosts.filter fun entry =>
        decide (Evidence chars rec tier entry) && decide (Evidence chars rec .certificate entry)
      if hits.length = 1 then matchHosts tooOld rec chars (some tier.name) hits
      else if narrowed.length = 1 ∧ tier ≠ .certificate then
        matchHosts tooOld rec chars (some (tier.name ++ "+certificate")) narrowed
      else
        { newMatch chars rec with
          status := .ambiguous
          candidates := sortedBy id (hits.map HostEntry.hostname) }

theorem head?_findIdxs {α : Type} (p : α → Bool) (xs : List α) :
    (xs.findIdxs p).head?.bind (xs[·]?) = (xs.filter p).head? := by
  rw [← filterMap_findIdxs]
  cases hhits : xs.findIdxs p with
  | nil => rfl
  | cons i rest =>
      have hmem : i ∈ xs.findIdxs p := by
        rw [hhits]
        exact List.mem_cons_self ..
      obtain ⟨x, hx, -⟩ := mem_findIdxs_iff.mp hmem
      simp [hx]

theorem matchRecord_eq (index : HostIndex chars) :
    matchRecord tooOld index rec = matchOfHosts tooOld rec chars index.hosts := by
  unfold matchRecord matchOfHosts
  rw [candidates_eq]
  cases htier : decisiveTier chars rec index.hosts with
  | none => rfl
  | some tier =>
      have hnil := hits_ne_nil_of_decisiveTier rec htier
      dsimp only [tierOutcome]
      rw [List.length_findIdxs, List.length_findIdxs, List.countP_eq_length_filter,
        List.countP_eq_length_filter]
      split
      case isTrue =>
        rw [if_neg (by simp), head?_findIdxs]
        rfl
      case isFalse =>
        split
        case isTrue =>
          rw [if_neg (by simp), head?_findIdxs]
          rfl
        case isFalse =>
          dsimp only
          rw [filterMap_findIdxs]

theorem decisiveTier_eq_of_perm {xs ys : List HostEntry} (hperm : xs.Perm ys) :
    decisiveTier chars rec xs = decisiveTier chars rec ys := by
  unfold decisiveTier
  congr 1
  funext tier
  rw [Bool.eq_iff_iff, List.any_eq_true, List.any_eq_true]
  simp only [hperm.mem_iff]

theorem eq_of_perm_of_length_eq_one {α : Type} {xs ys : List α} (hperm : xs.Perm ys)
    (hone : xs.length = 1) : xs = ys := by
  obtain ⟨x, rfl⟩ := List.length_eq_one_iff.mp hone
  exact (List.perm_singleton.mp hperm.symm).symm

theorem matchOfHosts_eq_of_perm {xs ys : List HostEntry} (hperm : xs.Perm ys) :
    matchOfHosts tooOld rec chars xs = matchOfHosts tooOld rec chars ys := by
  unfold matchOfHosts
  rw [decisiveTier_eq_of_perm rec hperm]
  cases decisiveTier chars rec ys with
  | none => rfl
  | some tier =>
      have hhits := hperm.filter fun entry => Evidence chars rec tier entry
      have hnarrowed := hperm.filter fun entry =>
        decide (Evidence chars rec tier entry) && decide (Evidence chars rec .certificate entry)
      dsimp only
      rw [hhits.length_eq, hnarrowed.length_eq]
      split
      case isTrue hone =>
        rw [eq_of_perm_of_length_eq_one hhits (hhits.length_eq.trans hone)]
      case isFalse =>
        split
        case isTrue hone =>
          rw [eq_of_perm_of_length_eq_one hnarrowed (hnarrowed.length_eq.trans hone.1)]
        case isFalse => rw [sortedBy_id_eq_of_perm (hhits.map HostEntry.hostname)]

/-- The joined observations are the same for every order of the reports. -/
theorem joinObservations_perm (loaded : LoadedObservations fromIsoFormat) {xs ys : List Report}
    (hperm : xs.Perm ys) :
    joinObservations tooOld loaded (HostIndex.ofReports chars fromIsoFormat xs) =
      joinObservations tooOld loaded (HostIndex.ofReports chars fromIsoFormat ys) := by
  have hmatch : ∀ rec : Observation fromIsoFormat, matchRecord tooOld
      (HostIndex.ofReports chars fromIsoFormat xs) rec =
        matchRecord tooOld (HostIndex.ofReports chars fromIsoFormat ys) rec := by
    intro rec
    rw [matchRecord_eq, matchRecord_eq, HostIndex.hosts_ofReports, HostIndex.hosts_ofReports]
    exact matchOfHosts_eq_of_perm tooOld rec (hperm.map _)
  simp only [joinObservations, hmatch]

end Join

/-! ## The rollup -/

/-- **The rollup does not depend on the order of the files or on how the fleet is
split**, every breakdown by host adds up to the fleet, a host counts at most once
for a gap state, and the joined observations do not depend on the order either. -/
theorem aggregate_order_and_split :
    (∀ xs ys, PointwiseSum (aggregate (xs ++ ys)) (aggregate xs) (aggregate ys)) ∧
      (∀ xs ys : List Report, xs.Perm ys → SameRollup (aggregate xs) (aggregate ys)) ∧
      (∀ xs, (aggregate xs).byArch.values.sum = (aggregate xs).totalHosts ∧
        (aggregate xs).byOsReleaseId.values.sum = (aggregate xs).totalHosts ∧
        (aggregate xs).byIsaTier.values.sum = (aggregate xs).totalHosts ∧
        (aggregate xs).byVerdict.values.sum = (aggregate xs).totalHosts ∧
        (aggregate xs).byRuntimeEnvironment.values.sum = (aggregate xs).totalHosts ∧
        ∀ protocol ∈ gapProtocols,
          ((aggregate xs).hostsByProtocolState protocol).values.sum =
            (aggregate xs).totalHosts) ∧
      (∀ xs, ∀ state ∈ gapStates, (aggregate xs).hostsWithGap state =
        xs.countP fun report => state ∈ hostStates report) ∧
      ∀ (chars : CharData) (fromIsoFormat : String → Option DateTime) (tooOld : ℕ → Bool)
        (loaded : LoadedObservations fromIsoFormat) (xs ys : List Report), xs.Perm ys →
          joinObservations tooOld loaded (HostIndex.ofReports chars fromIsoFormat xs) =
            joinObservations tooOld loaded
              (HostIndex.ofReports chars fromIsoFormat ys) := by
  refine ⟨aggregate_append, fun xs ys hperm => aggregate_perm hperm, ?_, ?_,
    fun chars fromIsoFormat tooOld loaded xs ys hperm => joinObservations_perm tooOld loaded hperm⟩
  · intro xs
    rw [aggregate_eq]
    refine ⟨total_perHost _ xs, total_perHost _ xs, total_perHost _ xs, total_perHost _ xs,
      total_perHost _ xs, ?_⟩
    intro protocol hprotocol
    dsimp only
    rw [if_pos hprotocol]
    exact (((Dict.sortedItems_perm _).map Prod.snd).sum_eq).trans (total_perHost _ xs)
  · intro xs state hstate
    rw [aggregate_eq]
    dsimp only
    rw [if_pos hstate]
    exact count_hostGaps xs hstate

end PqcReadiness.Fleet
