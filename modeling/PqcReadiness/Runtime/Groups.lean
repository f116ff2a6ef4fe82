import PqcReadiness.Gap.GoBinary
import PqcReadiness.Runtime.Processes

/-!
# Groups of processes

A group has the verdict of its first process, and processes come into one group if they have
one key.  The key says what a process has mapped, not what the scanner found in the mapped
files: two containers can map libraries of one path and one version, and only one of them has
the hybrid groups.  `EvidenceAgrees` is what has to hold for the groups to be sound, and
`groups_sound_iff` says that nothing else is needed.

## Strategy

`cryptoProcesses` are the processes that are grouped.  The group under a key is the fold over
its members (`groups_eq_collect`), so that its counts are sums over the members and its verdict
is that of the first one.  A summary is a function of what it reads of the groups
(`Group.view`), and of these it does not matter in which order they come.
-/

namespace PqcReadiness.Runtime

open PqcReadiness.Lib PqcReadiness.Gap

/-! ## The verdict of `_clients` -/

/-- A library as the report has it. -/
def Library.toReport (lib : Library) : CryptoLibrary where
  family := some lib.family.name
  path := some lib.path
  version := lib.version
  libraryPqcCapable := lib.pqcCapable

/-- A group as the report has it. -/
def Group.toReport (group : Group) : ProcessGroup where
  exe := group.first.exe
  process := group.first.process
  systemdUnits := group.systemdUnits
  clients := group.roles.client
  cryptoLibraries := group.first.cryptoLibraries.map Library.toReport
  go := group.first.go.map GoDetails.build

/-- The state that `_clients` gives a process with these details. -/
def clientState (report : Report) (details : Details) : State :=
  match details.go with
  | some go => classify (goTlsCapability go.build).1 (goTlsCapability go.build).2
  | none =>
      classify
        (librariesCapable (details.cryptoLibraries.map Library.toReport) report.cryptoLibraries)
        (tlsConfigured report).1

/-- It is the state of the item of its group. -/
theorem state_clientItem (report : Report) (protocols : Protocols) (group : Group) (i : ℕ) :
    (clientItem report protocols (group.toReport, i)).state = clientState report group.first := by
  unfold clientItem judgeGroup clientState Group.toReport
  cases group.first.go with
  | none => rfl
  | some go => rfl

/-- In the verdict of a report with these groups, each client item is that of a group with clients,
and has the state of the group's first process. -/
theorem state_of_mem_clients {report : Report} {groups : List Group} {item : ClientItem}
    (havailable : report.processCryptoLinkage.available = true)
    (hgroups : report.processCryptoLinkage.groups = groups.map Group.toReport)
    (hitem : item ∈ clientItems (computeGap report).clients) :
    ∃ group ∈ groups, item.clientProcesses = group.roles.client ∧ group.roles.client ≠ 0 ∧
      item.state = clientState report group.first := by
  obtain ⟨entry, hentry, hclients, rfl⟩ := (mem_clientItems_iff havailable item).mp hitem
  have hmem : entry.1 ∈ groups.map Group.toReport := by
    rw [← hgroups]
    exact List.fst_mem_of_mem_zipIdx hentry
  obtain ⟨group, hgroup, hreport⟩ := List.mem_map.mp hmem
  obtain ⟨grp, i⟩ := entry
  obtain rfl : group.toReport = grp := hreport
  exact ⟨group, hgroup, rfl, hclients, state_clientItem report (protocols report) group i⟩

/-! ## What a verdict rests on -/

/-- One library is known not to be capable. -/
def SomeIncapable (capable : Library → Option Bool) (libs : List Library) : Prop :=
  ∃ lib ∈ libs, capable lib = some false

/-- All libraries are known to be capable. -/
def AllCapable (capable : Library → Option Bool) (libs : List Library) : Prop :=
  ∀ lib ∈ libs, capable lib = some true

/-- The capability of a library with what the host's inventory adds. -/
def capableOnHost (report : Report) (lib : Library) : Option Bool :=
  (libraryCapable lib.toReport report.cryptoLibraries).1

/-- What two processes of one group have to agree on: what is known of their libraries, unless
Go decides alone. -/
structure EvidenceAgree (report : Report) (details other : Details) : Prop where
  incapable : (∀ go, details.go = some go → go.build.defaultHybridKex.isSome) →
    (SomeIncapable Library.pqcCapable details.cryptoLibraries ↔
      SomeIncapable Library.pqcCapable other.cryptoLibraries)
  capable : (∀ go, details.go = some go → go.build.defaultHybridKex.isSome) →
    ¬ SomeIncapable Library.pqcCapable details.cryptoLibraries →
      (AllCapable Library.pqcCapable details.cryptoLibraries ↔
        AllCapable Library.pqcCapable other.cryptoLibraries)
  incapableOnHost : details.go = none →
    (SomeIncapable (capableOnHost report) details.cryptoLibraries ↔
      SomeIncapable (capableOnHost report) other.cryptoLibraries)
  capableOnHost : details.go = none → (tlsConfigured report).1.isSome →
    ¬ SomeIncapable (capableOnHost report) details.cryptoLibraries →
      (AllCapable (capableOnHost report) details.cryptoLibraries ↔
        AllCapable (capableOnHost report) other.cryptoLibraries)

/-- A list of verdicts in one: not capable if one is not, capable if all are. -/
def overall (verdicts : List (Option Bool)) : Option Bool :=
  if verdicts.any (· = some false) then some false
  else if verdicts ≠ [] ∧ verdicts.all (· = some true) then some true
  else none

theorem any_false_iff {verdicts : List (Option Bool)} :
    verdicts.any (· = some false) ↔ some false ∈ verdicts := by
  simp

theorem all_true_iff {verdicts : List (Option Bool)} :
    verdicts.all (· = some true) ↔ ∀ verdict ∈ verdicts, verdict = some true := by
  simp

theorem overall_eq_false_iff (verdicts : List (Option Bool)) :
    overall verdicts = some false ↔ some false ∈ verdicts := by
  rw [← any_false_iff]
  unfold overall
  split
  · next h => simp [h]
  · next h => split <;> simp [h]

theorem overall_eq_true_iff {verdicts : List (Option Bool)} (hne : verdicts ≠ []) :
    overall verdicts = some true ↔ ∀ verdict ∈ verdicts, verdict = some true := by
  unfold overall
  split
  · next h =>
      constructor
      · intro hfalse
        cases hfalse
      · intro hall
        exact absurd (hall _ (any_false_iff.mp h)) (by decide)
  · split
    · next h => exact iff_of_true rfl (all_true_iff.mp h.2)
    · next h =>
        constructor
        · intro hnone
          cases hnone
        · intro hall
          exact absurd ⟨hne, all_true_iff.mpr hall⟩ h

/-- Two lists of verdicts come to the same. -/
theorem overall_eq_iff {first second : List (Option Bool)} (hfirst : first ≠ [])
    (hsecond : second ≠ []) :
    overall first = overall second ↔
      (some false ∈ first ↔ some false ∈ second) ∧
        (some false ∉ first → ((∀ v ∈ first, v = some true) ↔ ∀ v ∈ second, v = some true)) := by
  rw [← overall_eq_false_iff first, ← overall_eq_false_iff second, ← overall_eq_true_iff hfirst,
    ← overall_eq_true_iff hsecond]
  cases overall first with
  | none =>
      cases overall second with
      | none => simp
      | some value => cases value <;> simp
  | some value =>
      cases overall second with
      | none => cases value <;> simp
      | some other => cases value <;> cases other <;> simp

theorem groupPqcCapable_eq (details : Details) :
    groupPqcCapable details = overall (details.cryptoLibraries.map Library.pqcCapable ++
      (details.go.map fun go => some go.build.defaultHybridKex.isSome).toList) := by
  rfl

theorem librariesCapable_eq (report : Report) (libs : List Library) :
    librariesCapable (libs.map Library.toReport) report.cryptoLibraries =
      overall (libs.map (capableOnHost report)) := by
  unfold librariesCapable overall
  simp only [List.map_map, List.contains_iff_mem, List.all_eq_true, beq_iff_eq, any_false_iff,
    decide_eq_true_eq]
  rfl

theorem mem_false_map {capable : Library → Option Bool} {libs : List Library} :
    some false ∈ libs.map capable ↔ SomeIncapable capable libs := List.mem_map

theorem forall_true_map {capable : Library → Option Bool} {libs : List Library} :
    (∀ v ∈ libs.map capable, v = some true) ↔ AllCapable capable libs := List.forall_mem_map

theorem mem_false_append {capable : Library → Option Bool} {libs : List Library} {last : Bool} :
    some false ∈ libs.map capable ++ [some last] ↔ SomeIncapable capable libs ∨ last = false := by
  rw [List.mem_append, mem_false_map, List.mem_singleton, Option.some.injEq, eq_comm (a := false)]

theorem forall_true_append {capable : Library → Option Bool} {libs : List Library} {last : Bool} :
    (∀ v ∈ libs.map capable ++ [some last], v = some true) ↔
      AllCapable capable libs ∧ last = true := by
  rw [List.forall_mem_append, forall_true_map, List.forall_mem_singleton, Option.some.injEq]

/-! ## Two processes with one key -/

section Pair

variable {report : Report} {details other : Details}

theorem go_none_of_key (hkey : groupKey details = groupKey other) (hgo : details.go = none) :
    other.go = none := by
  have hmap := congrArg GroupKey.go hkey
  simp only [groupKey, hgo, Option.map_none] at hmap
  exact Option.map_eq_none_iff.mp hmap.symm

theorem go_some_of_key (hkey : groupKey details = groupKey other) {go : GoDetails}
    (hgo : details.go = some go) :
    ∃ go', other.go = some go' ∧ go'.goVersion = go.goVersion ∧
      go'.build.defaultHybridKex = go.build.defaultHybridKex := by
  have hmap := congrArg GroupKey.go hkey
  simp only [groupKey, hgo, Option.map_some] at hmap
  obtain ⟨go', hgo', hpair⟩ := Option.map_eq_some_iff.mp hmap.symm
  obtain ⟨hversion, hdefault⟩ := Prod.mk.inj hpair
  exact ⟨go', hgo', hversion, hdefault⟩

theorem libraries_perm_of_key (hkey : groupKey details = groupKey other) :
    (details.cryptoLibraries.map Library.key).Perm (other.cryptoLibraries.map Library.key) := by
  have hsorted := congrArg GroupKey.libraries hkey
  simp only [groupKey] at hsorted
  have hleft := sortedBy_perm LibraryKey.order (details.cryptoLibraries.map Library.key)
  rw [hsorted] at hleft
  exact hleft.symm.trans (sortedBy_perm _ _)

theorem libraries_ne_nil_of_key (hkey : groupKey details = groupKey other)
    (hne : details.cryptoLibraries ≠ []) : other.cryptoLibraries ≠ [] := by
  have hlength := (libraries_perm_of_key hkey).length_eq
  rw [List.length_map, List.length_map] at hlength
  rw [← List.length_pos_iff] at hne ⊢
  omega

theorem libraries_ne_nil_of_go_none (hcrypto : details.hasCrypto) (hgo : details.go = none) :
    details.cryptoLibraries ≠ [] := by
  simpa [Details.hasCrypto, hgo] using hcrypto

theorem groupPqcCapable_eq_iff (hkey : groupKey details = groupKey other)
    (hcrypto : details.hasCrypto) :
    groupPqcCapable details = groupPqcCapable other ↔
      ((∀ go, details.go = some go → go.build.defaultHybridKex.isSome) →
        (SomeIncapable Library.pqcCapable details.cryptoLibraries ↔
          SomeIncapable Library.pqcCapable other.cryptoLibraries) ∧
        (¬ SomeIncapable Library.pqcCapable details.cryptoLibraries →
          (AllCapable Library.pqcCapable details.cryptoLibraries ↔
            AllCapable Library.pqcCapable other.cryptoLibraries))) := by
  rw [groupPqcCapable_eq, groupPqcCapable_eq]
  cases hgo : details.go with
  | none =>
      have hlibs := libraries_ne_nil_of_go_none hcrypto hgo
      have hlibs' := libraries_ne_nil_of_key hkey hlibs
      rw [go_none_of_key hkey hgo]
      simp only [Option.map_none, Option.toList_none, List.append_nil]
      rw [overall_eq_iff (by simpa using hlibs) (by simpa using hlibs'), mem_false_map,
        mem_false_map, forall_true_map, forall_true_map]
      simp
  | some go =>
      obtain ⟨go', hgo', -, hdefault⟩ := go_some_of_key hkey hgo
      simp only [hgo', Option.map_some, Option.toList_some, hdefault]
      rw [overall_eq_iff (by simp) (by simp), mem_false_append, mem_false_append,
        forall_true_append, forall_true_append]
      -- A Go binary without a hybrid default is not capable, whatever it maps.
      cases hsome : go.build.defaultHybridKex.isSome with
      | true => simp [hsome]
      | false => simp [hsome]

/-- The Go default in the key tells the two Go states apart. -/
theorem goClientState_eq_of_key {go go' : GoDetails} (hversion : go'.goVersion = go.goVersion)
    (hdefault : go'.build.defaultHybridKex = go.build.defaultHybridKex) :
    goClientState go'.goVersion go'.defaultGodebug go'.runtimeGodebug =
      goClientState go.goVersion go.defaultGodebug go.runtimeGodebug := by
  unfold goClientState
  rw [hversion]
  cases htuple : goVersionTuple go.goVersion with
  | none => rfl
  | some vt =>
      dsimp only
      by_cases hold : vt.take 2 < goMlkemDefaultVersion
      · rw [if_pos hold, if_pos hold]
      · have hnew : goMlkemDefaultVersion ≤ vt.take 2 := not_lt.mp hold
        rw [if_neg hold, if_neg hold]
        simp only [GoDetails.build, goRecord, goKexMembers, hversion, htuple, if_pos hnew] at hdefault
        have hreverted :
            "tlsmlkem" ∈ revertedKeys go'.defaultGodebug go'.runtimeGodebug ↔
              "tlsmlkem" ∈ revertedKeys go.defaultGodebug go.runtimeGodebug := by
          by_cases hleft : "tlsmlkem" ∈ revertedKeys go'.defaultGodebug go'.runtimeGodebug
          · by_cases hright : "tlsmlkem" ∈ revertedKeys go.defaultGodebug go.runtimeGodebug
            · exact iff_of_true hleft hright
            · rw [if_pos hleft, if_neg hright] at hdefault
              cases hdefault
          · by_cases hright : "tlsmlkem" ∈ revertedKeys go.defaultGodebug go.runtimeGodebug
            · rw [if_neg hleft, if_pos hright] at hdefault
              cases hdefault
            · exact iff_of_false hleft hright
        simp only [hreverted]

/-- Without a known configuration, a capable process and one of which nothing is known have the
same state. -/
theorem classify_eq_iff (first second configured : Option Bool) :
    classify first configured = classify second configured ↔
      (first = some false ↔ second = some false) ∧
        (configured.isSome → first ≠ some false → (first = some true ↔ second = some true)) := by
  revert first second configured
  decide

theorem clientState_eq_iff (hkey : groupKey details = groupKey other)
    (hcrypto : details.hasCrypto) :
    clientState report details = clientState report other ↔
      (details.go = none →
        (SomeIncapable (capableOnHost report) details.cryptoLibraries ↔
          SomeIncapable (capableOnHost report) other.cryptoLibraries) ∧
        ((tlsConfigured report).1.isSome →
          ¬ SomeIncapable (capableOnHost report) details.cryptoLibraries →
            (AllCapable (capableOnHost report) details.cryptoLibraries ↔
              AllCapable (capableOnHost report) other.cryptoLibraries))) := by
  unfold clientState
  cases hgo : details.go with
  | none =>
      have hlibs := libraries_ne_nil_of_go_none hcrypto hgo
      have hlibs' := libraries_ne_nil_of_key hkey hlibs
      rw [go_none_of_key hkey hgo]
      dsimp only
      rw [librariesCapable_eq, librariesCapable_eq, classify_eq_iff, ne_eq,
        overall_eq_false_iff, overall_eq_false_iff, overall_eq_true_iff (by simpa using hlibs),
        overall_eq_true_iff (by simpa using hlibs'), mem_false_map, mem_false_map,
        forall_true_map, forall_true_map]
      simp
  | some go =>
      obtain ⟨go', hgo', hversion, hdefault⟩ := go_some_of_key hkey hgo
      rw [hgo']
      dsimp only [GoDetails.build]
      rw [classify_goTlsCapability, classify_goTlsCapability,
        goClientState_eq_of_key hversion hdefault]
      simp

/-- Two processes with one key have one verdict exactly if the evidence on their libraries
agrees. -/
theorem sameVerdict_iff (hkey : groupKey details = groupKey other) (hcrypto : details.hasCrypto) :
    groupPqcCapable details = groupPqcCapable other ∧
        clientState report details = clientState report other ↔
      EvidenceAgree report details other := by
  rw [groupPqcCapable_eq_iff hkey hcrypto, clientState_eq_iff hkey hcrypto]
  constructor
  · intro ⟨hgroup, hclient⟩
    exact ⟨fun hgo => (hgroup hgo).1, fun hgo => (hgroup hgo).2, fun hgo => (hclient hgo).1,
      fun hgo => (hclient hgo).2⟩
  · intro hagree
    exact ⟨fun hgo => ⟨hagree.incapable hgo, hagree.capable hgo⟩,
      fun hgo => ⟨hagree.incapableOnHost hgo, hagree.capableOnHost hgo⟩⟩

end Pair

/-! ## The members of a group -/

/-- The processes that are grouped, in the order in which they are scanned. -/
def cryptoProcesses (observed : List (ℕ × Observation)) : List (ℕ × CryptoProcess) :=
  observed.filterMap fun entry =>
    match entry.2 with
    | .crypto process => some (entry.1, process)
    | _ => none

/-- The key of a process. -/
def keyOf (entry : ℕ × CryptoProcess) : GroupKey := groupKey entry.2.details

/-- The group with one process more. -/
def absorbProcess (old : Option Group) (entry : ℕ × CryptoProcess) : Group :=
  (old.getD (Group.new entry.2.details)).add entry.1 entry.2

/-- The processes of a group. -/
def membersOf (observed : List (ℕ × Observation)) (key : GroupKey) : List (ℕ × CryptoProcess) :=
  (cryptoProcesses observed).filter fun entry => keyOf entry = key

theorem foldl_groups (observed : List (ℕ × Observation)) (tally : ProcessTally) :
    (observed.foldl ProcessTally.add tally).groups =
      tally.groups.collect (fun entry => some (keyOf entry)) absorbProcess
        (cryptoProcesses observed) := by
  induction observed generalizing tally with
  | nil => rfl
  | cons entry rest ih =>
      rw [List.foldl_cons, ih]
      obtain ⟨pid, observation⟩ := entry
      cases observation <;> rfl

/-- The groups are the processes, collected by their keys. -/
theorem groups_eq_collect (observed : List (ℕ × Observation)) :
    (tallyProcesses observed).groups =
      Dict.empty.collect (fun entry => some (keyOf entry)) absorbProcess
        (cryptoProcesses observed) :=
  foldl_groups observed .start

theorem get?_groups (observed : List (ℕ × Observation)) (key : GroupKey) :
    (tallyProcesses observed).groups.get? key =
      Dict.absorbAll absorbProcess none (membersOf observed key) := by
  rw [groups_eq_collect, Dict.get?_collect, Dict.get?_empty]
  simp only [Option.some.injEq]
  rfl

theorem mem_membersOf {observed : List (ℕ × Observation)} {key : GroupKey}
    {entry : ℕ × CryptoProcess} :
    entry ∈ membersOf observed key ↔ entry ∈ cryptoProcesses observed ∧ keyOf entry = key := by
  rw [membersOf, List.mem_filter, decide_eq_true_eq]

theorem membersOf_perm {observed other : List (ℕ × Observation)} (hperm : other.Perm observed)
    (key : GroupKey) : (membersOf other key).Perm (membersOf observed key) :=
  (hperm.filterMap _).filter _

section Counts

variable {observed : List (ℕ × Observation)} {key : GroupKey} {group : Group}

/-- What is counted of every process of a group. -/
theorem size_group (size : Group → ℕ) (weight : ℕ × CryptoProcess → ℕ)
    (hnew : ∀ details, size (Group.new details) = 0)
    (hadd : ∀ group entry, size (group.add entry.1 entry.2) = size group + weight entry)
    (hgroup : (tallyProcesses observed).groups.get? key = some group) :
    size group = ((membersOf observed key).map weight).sum := by
  have hsize : ∀ old entry, size (absorbProcess old entry) =
      (old.map size).getD 0 + weight entry := by
    intro old entry
    rw [absorbProcess, hadd]
    cases old with
    | none => rw [Option.getD_none, hnew, Option.map_none, Option.getD_none]
    | some group => rfl
  have hall := Dict.size_absorbAll absorbProcess size weight hsize none (membersOf observed key)
  rw [← get?_groups, hgroup] at hall
  simpa using hall

theorem processCount_eq (hgroup : (tallyProcesses observed).groups.get? key = some group) :
    group.processCount = (membersOf observed key).length := by
  rw [size_group Group.processCount (fun _ => 1) (fun _ => rfl) (fun _ _ => rfl) hgroup]
  simp

/-- One if the process has the role. -/
def hasRole (role : Role) (entry : ℕ × CryptoProcess) : ℕ := if entry.2.role = role then 1 else 0

theorem clients_eq (hgroup : (tallyProcesses observed).groups.get? key = some group) :
    group.roles.client = ((membersOf observed key).map (hasRole .client)).sum := by
  refine size_group (fun group => group.roles.client) _ (fun _ => rfl) (fun group entry => ?_) hgroup
  unfold hasRole
  cases hrole : entry.2.role <;> simp [Group.add, Roles.add, hrole]

theorem roles_eq (hgroup : (tallyProcesses observed).groups.get? key = some group) :
    group.roles.server + group.roles.client + group.roles.idle =
      (membersOf observed key).length := by
  rw [size_group (fun group => group.roles.server + group.roles.client + group.roles.idle)
    (fun _ => 1) (fun _ => rfl) (fun group entry => ?_) hgroup]
  · simp
  · cases hrole : entry.2.role <;> simp [Group.add, Roles.add, hrole] <;> omega

/-- A group has the details of its first process. -/
theorem first_eq (observed : List (ℕ × Observation)) (key : GroupKey) :
    ((tallyProcesses observed).groups.get? key).map Group.first =
      (membersOf observed key).head?.map fun entry => entry.2.details := by
  rw [get?_groups]
  exact Dict.map_absorbAll_none Group.first _ (fun _ => rfl) (fun _ _ => rfl) _

end Counts

/-! ## The summary -/

/-- What the summary reads of a group. -/
structure GroupView where
  count : ℕ
  clients : ℕ
  capable : Option Bool
  families : List String
  deleted : Bool

/-- The families of a process, in alphabetical order. -/
def sortedFamilies (details : Details) : List String :=
  sortedBy id (cryptoFamilies details.cryptoLibraries details.go)

/-- Whether a process has a deleted library mapped. -/
def hasDeleted (details : Details) : Bool := details.cryptoLibraries.any Library.deleted

/-- What the summary reads of a group. -/
def Group.view (group : Group) : GroupView :=
  ⟨group.processCount, group.roles.client, group.pqcCapable, sortedFamilies group.first,
    hasDeleted group.first⟩

/-- The summary, from what it reads. -/
def viewSummary (withoutCrypto : ℕ) (views : List GroupView) : ProcessSummary where
  groups := views.length
  processesWithCrypto := (views.map GroupView.count).sum
  processesWithoutCrypto := withoutCrypto
  processesByCryptoFamily := (Dict.tally (views.flatMap fun view =>
    view.families.map fun family => (family, view.count))).sortedItems
  processesNotPqcCapable :=
    ((views.filter fun view => view.capable = some false).map GroupView.count).sum
  clientProcessesNotPqcCapable :=
    ((views.filter fun view => view.capable = some false).map GroupView.clients).sum
  processesWithDeletedCryptoLibrary :=
    ((views.filter GroupView.deleted).map GroupView.count).sum

theorem processSummary_eq_view (withoutCrypto : ℕ) (groups : List Group) :
    processSummary withoutCrypto groups = viewSummary withoutCrypto (groups.map Group.view) := by
  have hfamilies : (Dict.tally (groups.flatMap fun group =>
      (cryptoFamilies group.first.cryptoLibraries group.first.go).map fun family =>
        (family, group.processCount))).sortedItems =
      (Dict.tally (groups.flatMap fun group =>
        (sortedFamilies group.first).map fun family => (family, group.processCount))).sortedItems := by
    apply Dict.sortedItems_eq_of_equiv
    apply Dict.tally_equiv_of_perm
    apply List.Perm.flatMap_left
    intro group _
    exact (sortedBy_perm id _).symm.map _
  unfold processSummary viewSummary notCapable
  rw [hfamilies]
  simp only [List.length_map, List.map_map, List.filter_map, List.flatMap_map]
  rfl

theorem viewSummary_perm (withoutCrypto : ℕ) {first second : List GroupView}
    (hperm : first.Perm second) :
    viewSummary withoutCrypto first = viewSummary withoutCrypto second := by
  have hfamilies := Dict.sortedItems_eq_of_equiv (Dict.tally_equiv_of_perm
    (hperm.flatMap_right fun view => view.families.map fun family => (family, view.count)))
  unfold viewSummary
  rw [hperm.length_eq, (hperm.map _).sum_eq, hfamilies,
    ((hperm.filter fun view => view.capable = some false).map GroupView.count).sum_eq,
    ((hperm.filter fun view => view.capable = some false).map GroupView.clients).sum_eq,
    ((hperm.filter GroupView.deleted).map GroupView.count).sum_eq]

/-- The summary of a scan with these observations. -/
def summaryOf (observed : List (ℕ × Observation)) : ProcessSummary :=
  processSummary (tallyProcesses observed).withoutCrypto (orderedGroups (tallyProcesses observed))

theorem summaryOf_eq (observed : List (ℕ × Observation)) :
    summaryOf observed =
      viewSummary (tallyProcesses observed).withoutCrypto
        ((tallyProcesses observed).groups.mapValues Group.view).values := by
  rw [summaryOf, processSummary_eq_view, Dict.values_mapValues]
  exact viewSummary_perm _ ((sortedBy_perm _ _).map _)

/-- Two scans whose groups look alike to the summary. -/
theorem summaryOf_eq_of_views {observed other : List (ℕ × Observation)}
    (hwithout : (tallyProcesses other).withoutCrypto = (tallyProcesses observed).withoutCrypto)
    (hviews : ∀ key, ((tallyProcesses other).groups.get? key).map Group.view =
      ((tallyProcesses observed).groups.get? key).map Group.view) :
    summaryOf other = summaryOf observed := by
  have hequiv : ((tallyProcesses other).groups.mapValues Group.view).Equiv
      ((tallyProcesses observed).groups.mapValues Group.view) := by
    intro key
    rw [Dict.get?_mapValues, Dict.get?_mapValues, hviews]
  rw [summaryOf_eq, summaryOf_eq, hwithout]
  exact viewSummary_perm _ ((Dict.items_perm_of_equiv hequiv).map Prod.snd)

section Key

variable {details other : Details}

theorem sortedFamilies_eq_of_key (hkey : groupKey details = groupKey other) :
    sortedFamilies details = sortedFamilies other := by
  have hnames : (details.cryptoLibraries.map fun lib => lib.family.name).Perm
      (other.cryptoLibraries.map fun lib => lib.family.name) := by
    have hperm := (libraries_perm_of_key hkey).map LibraryKey.family
    rw [List.map_map, List.map_map] at hperm
    exact hperm
  have hgo : details.go.isSome = other.go.isSome := by
    have hmap := congrArg (fun key => key.go.isSome) hkey
    simpa only [groupKey, Option.isSome_map] using hmap
  apply sortedBy_id_eq_of_perm
  rw [cryptoFamilies, cryptoFamilies, hgo]
  exact (hnames.append_right _).dedup

theorem hasDeleted_eq_of_key (hkey : groupKey details = groupKey other) :
    hasDeleted details = hasDeleted other := by
  have hany : ∀ d : Details, hasDeleted d = (d.cryptoLibraries.map Library.key).any LibraryKey.deleted := by
    intro d
    rw [hasDeleted, List.any_map]
    rfl
  rw [hany, hany]
  exact (libraries_perm_of_key hkey).any_eq

end Key

/-! ## Sound groups -/

/-- The verdicts of the group under a key. -/
def groupVerdict (report : Report) (observed : List (ℕ × Observation)) (key : GroupKey) :
    Option (Option Bool × State) :=
  ((tallyProcesses observed).groups.get? key).map fun group =>
    (group.pqcCapable, clientState report group.first)

/-- Processes of one group have one verdict. -/
def Homogeneous (report : Report) (observed : List (ℕ × Observation)) : Prop :=
  ∀ entry ∈ cryptoProcesses observed, ∀ other ∈ cryptoProcesses observed,
    keyOf entry = keyOf other →
      groupPqcCapable entry.2.details = groupPqcCapable other.2.details ∧
        clientState report entry.2.details = clientState report other.2.details

/-- What is promised of the groups of a scan. -/
structure GroupsSound (report : Report) (observed : List (ℕ × Observation)) : Prop where
  homogeneous : Homogeneous report observed
  /-- It does not matter which process is scanned first. -/
  orderIndependent : ∀ other, other.Perm observed →
    (∀ key, groupVerdict report other key = groupVerdict report observed key) ∧
      summaryOf other = summaryOf observed
  /-- Every process is counted once. -/
  conserved : (tallyProcesses observed).scanned =
    (tallyProcesses observed).kernelThreads + (tallyProcesses observed).withoutCrypto +
      ((orderedGroups (tallyProcesses observed)).map Group.processCount).sum
  roles : ∀ group ∈ orderedGroups (tallyProcesses observed),
    group.roles.server + group.roles.client + group.roles.idle = group.processCount
  notCapable : (summaryOf observed).processesNotPqcCapable =
    (cryptoProcesses observed).countP fun entry => groupPqcCapable entry.2.details = some false

/-- The evidence on the libraries agrees within each group. -/
def EvidenceAgrees (report : Report) (observed : List (ℕ × Observation)) : Prop :=
  ∀ entry ∈ cryptoProcesses observed, ∀ other ∈ cryptoProcesses observed,
    keyOf entry = keyOf other → EvidenceAgree report entry.2.details other.2.details

section Sound

variable {report : Report} {observed : List (ℕ × Observation)}

theorem foldl_counters (observed : List (ℕ × Observation)) (tally : ProcessTally) :
    (observed.foldl ProcessTally.add tally).scanned + tally.kernelThreads + tally.withoutCrypto =
      tally.scanned + (observed.foldl ProcessTally.add tally).kernelThreads +
        (observed.foldl ProcessTally.add tally).withoutCrypto +
        (cryptoProcesses observed).length := by
  induction observed generalizing tally with
  | nil => simp only [List.foldl_nil, cryptoProcesses, List.filterMap_nil, List.length_nil]; omega
  | cons entry rest ih =>
      obtain ⟨pid, observation⟩ := entry
      have hrest := ih (tally.add (pid, observation))
      rw [List.foldl_cons]
      cases observation with
      | unreadable => exact hrest
      | exited => exact hrest
      | kernelThread =>
          simp only [ProcessTally.add, cryptoProcesses, List.filterMap_cons] at hrest ⊢
          omega
      | withoutCrypto =>
          simp only [ProcessTally.add, cryptoProcesses, List.filterMap_cons] at hrest ⊢
          omega
      | crypto process =>
          simp only [ProcessTally.add, cryptoProcesses, List.filterMap_cons, List.length_cons]
            at hrest ⊢
          omega

theorem sum_processCount (observed : List (ℕ × Observation)) :
    ((orderedGroups (tallyProcesses observed)).map Group.processCount).sum =
      (cryptoProcesses observed).length := by
  have hsize : ∀ old entry, Group.processCount (absorbProcess old entry) =
      (old.map Group.processCount).getD 0 + 1 := by
    intro old entry
    cases old <;> rfl
  rw [orderedGroups, ((sortedBy_perm _ _).map Group.processCount).sum_eq, groups_eq_collect,
    Dict.sum_size_collect _ _ _ hsize]
  simp [Dict.values]

/-- Every scanned process is counted once, whatever the groups are. -/
theorem scanned_eq (observed : List (ℕ × Observation)) :
    (tallyProcesses observed).scanned =
      (tallyProcesses observed).kernelThreads + (tallyProcesses observed).withoutCrypto +
        ((orderedGroups (tallyProcesses observed)).map Group.processCount).sum := by
  have hcounters := foldl_counters observed .start
  rw [sum_processCount]
  simp only [ProcessTally.start] at hcounters
  unfold tallyProcesses
  simp only [ProcessTally.start]
  omega

theorem roles_of_mem {group : Group} (hmem : group ∈ orderedGroups (tallyProcesses observed)) :
    group.roles.server + group.roles.client + group.roles.idle = group.processCount := by
  rw [orderedGroups, mem_sortedBy, Dict.mem_values_iff] at hmem
  obtain ⟨key, hgroup⟩ := hmem
  rw [roles_eq hgroup, processCount_eq hgroup]

theorem withoutCrypto_eq (observed : List (ℕ × Observation)) (tally : ProcessTally) :
    (observed.foldl ProcessTally.add tally).withoutCrypto =
      tally.withoutCrypto + observed.countP fun entry =>
        match entry.2 with
        | .withoutCrypto => true
        | _ => false := by
  induction observed generalizing tally with
  | nil => rfl
  | cons entry rest ih =>
      obtain ⟨pid, observation⟩ := entry
      rw [List.foldl_cons, ih, List.countP_cons]
      cases observation <;> simp [ProcessTally.add, Nat.add_assoc, Nat.add_comm]

theorem exists_first {key : GroupKey} {group : Group}
    (hgroup : (tallyProcesses observed).groups.get? key = some group) :
    ∃ entry ∈ membersOf observed key, group.first = entry.2.details := by
  have hfirst := first_eq observed key
  rw [hgroup, Option.map_some] at hfirst
  obtain ⟨entry, hhead, hdetails⟩ := Option.map_eq_some_iff.mp hfirst.symm
  exact ⟨entry, List.mem_of_mem_head? hhead, hdetails.symm⟩

theorem isSome_groups (observed : List (ℕ × Observation)) (key : GroupKey) :
    ((tallyProcesses observed).groups.get? key).isSome ↔ membersOf observed key ≠ [] := by
  rw [get?_groups, Dict.isSome_absorbAll]
  simp

/-- Scanned in another order, a group has other members first, and looks the same. -/
theorem groups_alike (hsame : Homogeneous report observed) {other : List (ℕ × Observation)}
    (hperm : other.Perm observed) (key : GroupKey) :
    ((tallyProcesses other).groups.get? key).map (fun group =>
        (group.view, clientState report group.first)) =
      ((tallyProcesses observed).groups.get? key).map fun group =>
        (group.view, clientState report group.first) := by
  have hmembers := membersOf_perm hperm key
  have hsome : ((tallyProcesses other).groups.get? key).isSome ↔
      ((tallyProcesses observed).groups.get? key).isSome := by
    rw [isSome_groups, isSome_groups, ← List.length_pos_iff, ← List.length_pos_iff,
      hmembers.length_eq]
  cases hother : (tallyProcesses other).groups.get? key with
  | none =>
      rw [hother] at hsome
      rw [Option.not_isSome_iff_eq_none.mp (hsome.not.mp (by simp))]
  | some group' =>
      rw [hother] at hsome
      obtain ⟨group, hgroup⟩ := Option.isSome_iff_exists.mp (hsome.mp rfl)
      obtain ⟨first', hfirst', hdetails'⟩ := exists_first hother
      obtain ⟨first, hfirst, hdetails⟩ := exists_first hgroup
      obtain ⟨hmem', hkey'⟩ := mem_membersOf.mp (hmembers.mem_iff.mp hfirst')
      obtain ⟨hmem, hkey⟩ := mem_membersOf.mp hfirst
      have hkeys : groupKey first'.2.details = groupKey first.2.details := hkey'.trans hkey.symm
      have hverdict := hsame first' hmem' first hmem hkeys
      rw [hgroup]
      simp only [Option.map_some, Group.view, Group.pqcCapable, hdetails, hdetails', hverdict.1,
        hverdict.2, sortedFamilies_eq_of_key hkeys, hasDeleted_eq_of_key hkeys,
        processCount_eq hother, processCount_eq hgroup, clients_eq hother, clients_eq hgroup,
        hmembers.length_eq, (hmembers.map (hasRole .client)).sum_eq]

theorem groupVerdict_eq (hsame : Homogeneous report observed) {other : List (ℕ × Observation)}
    (hperm : other.Perm observed) (key : GroupKey) :
    groupVerdict report other key = groupVerdict report observed key := by
  have halike := congrArg (Option.map fun seen : GroupView × State => (seen.1.capable, seen.2))
    (groups_alike hsame hperm key)
  rw [Option.map_map, Option.map_map] at halike
  exact halike

theorem summaryOf_perm (hsame : Homogeneous report observed) {other : List (ℕ × Observation)}
    (hperm : other.Perm observed) : summaryOf other = summaryOf observed := by
  apply summaryOf_eq_of_views
  · rw [tallyProcesses, tallyProcesses, withoutCrypto_eq, withoutCrypto_eq, hperm.countP_eq]
  · intro key
    have halike := congrArg (Option.map Prod.fst) (groups_alike hsame hperm key)
    rw [Option.map_map, Option.map_map] at halike
    exact halike

/-- The verdict of its group is the verdict of each process. -/
theorem groupVerdict_of_mem (hsame : Homogeneous report observed) {entry : ℕ × CryptoProcess}
    (hentry : entry ∈ cryptoProcesses observed) :
    groupVerdict report observed (keyOf entry) =
      some (groupPqcCapable entry.2.details, clientState report entry.2.details) := by
  have hmember : entry ∈ membersOf observed (keyOf entry) := mem_membersOf.mpr ⟨hentry, rfl⟩
  obtain ⟨group, hgroup⟩ := Option.isSome_iff_exists.mp
    ((isSome_groups observed (keyOf entry)).mpr (List.ne_nil_of_mem hmember))
  obtain ⟨first, hfirst, hdetails⟩ := exists_first hgroup
  obtain ⟨hmem, hkey⟩ := mem_membersOf.mp hfirst
  have hverdict := hsame first hmem entry hentry hkey
  rw [groupVerdict, hgroup, Option.map_some, Group.pqcCapable, hdetails, hverdict.1, hverdict.2]

theorem sum_filter_map {α : Type} (keep : α → Bool) (size : α → ℕ) (xs : List α) :
    ((xs.filter keep).map size).sum = (xs.map fun x => if keep x then size x else 0).sum := by
  induction xs with
  | nil => rfl
  | cons x rest ih =>
      by_cases hkeep : keep x
      · rw [List.filter_cons_of_pos hkeep, List.map_cons, List.map_cons, List.sum_cons,
          List.sum_cons, ih, if_pos hkeep]
      · rw [List.filter_cons_of_neg hkeep, List.map_cons, List.sum_cons, ih, if_neg hkeep,
          Nat.zero_add]

theorem notCapable_eq (hsame : Homogeneous report observed) :
    (summaryOf observed).processesNotPqcCapable =
      (cryptoProcesses observed).countP fun entry =>
        groupPqcCapable entry.2.details = some false := by
  let selected : GroupKey → Bool := fun key =>
    (groupVerdict report observed key).any fun verdict => verdict.1 = some false
  have hsize : ∀ old entry, Group.processCount (absorbProcess old entry) =
      (old.map Group.processCount).getD 0 + 1 := by
    intro old entry
    cases old <;> rfl
  have hgroups : (summaryOf observed).processesNotPqcCapable =
      ((tallyProcesses observed).groups.entries.map fun entry =>
        if selected entry.1 then entry.2.processCount else 0).sum := by
    have hordered := sortedBy_perm groupOrder (tallyProcesses observed).groups.values
    show ((notCapable (orderedGroups (tallyProcesses observed))).map Group.processCount).sum = _
    rw [orderedGroups, notCapable, ((hordered.filter _).map Group.processCount).sum_eq,
      sum_filter_map, Dict.values, List.map_map]
    apply congrArg List.sum
    apply List.map_congr_left
    intro entry hentry
    have hget := (tallyProcesses observed).groups.mem_entries_iff.mp hentry
    simp [selected, groupVerdict, hget]
  rw [hgroups, groups_eq_collect, Dict.sum_selected_collect _ _ _ hsize]
  simp only [Dict.entries_empty, List.map_nil, List.sum_nil, Nat.zero_add, Option.any_some]
  apply List.countP_congr
  intro entry hentry
  simp [selected, groupVerdict_of_mem hsame hentry]

end Sound

/-- **The groups of a scan are sound exactly if the evidence on the libraries agrees within each
group.** -/
theorem groups_sound_iff (report : Report) (observed : List (ℕ × Observation)) :
    GroupsSound report observed ↔ EvidenceAgrees report observed := by
  constructor
  · intro hsound entry hentry other hother hkey
    exact (sameVerdict_iff hkey entry.2.hasCrypto).mp
      (hsound.homogeneous entry hentry other hother hkey)
  · intro hagrees
    have hsame : Homogeneous report observed := by
      intro entry hentry other hother hkey
      exact (sameVerdict_iff hkey entry.2.hasCrypto).mpr (hagrees entry hentry other hother hkey)
    exact
      { homogeneous := hsame
        orderIndependent := fun other hperm =>
          ⟨groupVerdict_eq hsame hperm, summaryOf_perm hsame hperm⟩
        conserved := scanned_eq observed
        roles := fun group hgroup => roles_of_mem hgroup
        notCapable := notCapable_eq hsame }

/-- GnuTLS of one path and one version, with or without the hybrid groups. -/
def gnutls (hybrid : Bool) : Library where
  family := .gnutls
  path := "/usr/lib64/libgnutls.so.30"
  version := some "3.8.3"
  versionSource := some .embedded
  deleted := false
  markers := some hybrid

/-- A client in a container that has its own build of GnuTLS. -/
def wgetProcess (hybrid : Bool) : CryptoProcess where
  details :=
    { process := some "wget"
      exe := some "/usr/bin/wget"
      systemdUnit := none
      cgroup := none
      cryptoLibraries := [gnutls hybrid]
      staticBinary := some false
      go := none }
  role := .client
  networkNamespace := .other
  connections := some 1
  hasCrypto := rfl

/-- **Two containers, one group: the verdict of the group is that of the process with the lower
pid, and the other one is not counted.** -/
theorem twoBuilds_mixed :
    let observed := [(10, Observation.crypto (wgetProcess true)),
      (20, Observation.crypto (wgetProcess false))]
    ¬ GroupsSound {} observed ∧
      ((tallyProcesses observed).groups.values.map Group.pqcCapable = [some true]) ∧
      ((tallyProcesses observed.reverse).groups.values.map Group.pqcCapable = [some false]) ∧
      (summaryOf observed).processesNotPqcCapable = 0 ∧
      (summaryOf observed.reverse).processesNotPqcCapable = 2 := by
  intro observed
  refine ⟨?_, rfl, rfl, rfl, rfl⟩
  intro hsound
  have hsame := hsound.homogeneous (10, wgetProcess true) (by simp [observed, cryptoProcesses])
    (20, wgetProcess false) (by simp [observed, cryptoProcesses]) rfl
  exact absurd hsame.1 (by decide)

end PqcReadiness.Runtime
