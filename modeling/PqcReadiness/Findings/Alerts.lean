import PqcReadiness.Findings.Order
import PqcReadiness.Lib.Distinct

/-!
# One alert for each subject

Code scanning keeps one alert for each fingerprint, which is the hash of the host, the rule and the
subject of a finding.  Two findings of a run have different fingerprints exactly if the report has
nothing that is judged twice under one name (`fingerprints_distinct_iff`): no two listeners with one
protocol, family, port and executable and the same verdict, no two blocked endpoints with one place
and one list of ports, and so on.
-/

namespace PqcReadiness.Findings

open Lib Gap

/-- The rule and the subject of a finding. -/
def alert (finding : Finding) : String × String := (finding.ruleId, finding.subject)

/-- What `finding_fingerprint` hashes. -/
def fingerprintKey (hostname : String) (alert : String × String) : String :=
  hostname ++ "\x00" ++ alert.1 ++ if alert.2 = "" then "" else "\x00" ++ alert.2

/-- `finding_fingerprint`; `hash` stands for the first digits of the SHA-256 of a text. -/
def findingFingerprint (hash : String → String) (hostname : String) (finding : Finding) : String :=
  hash (fingerprintKey hostname (alert finding))

/-! ## Parts that cannot meet -/

section Parts

/-- What a subject begins with. -/
def area (finding : Finding) : String := beforeChar ':' finding.subject

theorem alert_ne_of_area {first second : Finding} (harea : area first ≠ area second) :
    alert first ≠ alert second := by
  intro hsame
  exact harea (congrArg (beforeChar ':') (congrArg Prod.snd hsame))

theorem alert_ne_of_rule {first second : Finding} (hrule : first.ruleId ≠ second.ruleId) :
    alert first ≠ alert second := fun hsame => hrule (congrArg Prod.fst hsame)

theorem alert_ne_of_index {first second : Finding} (hindex : ruleIndex first ≠ ruleIndex second) :
    alert first ≠ alert second :=
  alert_ne_of_rule fun hsame => hindex (congrArg (ruleIds.idxOf ·) hsame)

theorem beforeChar_append {c : Char} {tag : String} (htag : c ∉ tag.toList) {rest : String}
    (hrest : ∀ first ∈ rest.toList.head?, first = c) : beforeChar c (tag ++ rest) = tag := by
  have hclean : ∀ first ∈ tag.toList, (first != c) = true := by
    intro first hfirst
    rw [bne_iff_ne]
    rintro rfl
    exact htag hfirst
  rw [beforeChar, String.toList_append, List.takeWhile_append_of_pos hclean]
  cases hlist : rest.toList with
  | nil => rw [List.takeWhile_nil, List.append_nil, String.ofList_toList]
  | cons first chars =>
      have hfirst : first = c := hrest first (by rw [hlist]; rfl)
      rw [List.takeWhile_cons, if_neg (by simp [hfirst]), List.append_nil, String.ofList_toList]

theorem beforeChar_of_startsWith {tag s : String} (htag : ':' ∉ tag.toList)
    (hs : startsWith (tag ++ ":") s = true) : beforeChar ':' s = tag := by
  rw [startsWith, List.isPrefixOf_iff_prefix] at hs
  obtain ⟨rest, hrest⟩ := hs
  have hsplit : s = tag ++ (":" ++ String.ofList rest) := by
    rw [← String.toList_inj, ← hrest]
    simp [String.toList_append]
  rw [hsplit, beforeChar_append htag]
  simp

/-- Findings with one rule and one name each. -/
theorem nodup_alert_iff {α : Type} {items : List α} {ruleId : String} {found : α → Finding}
    (subject : α → String) (hfound : ∀ x, alert (found x) = (ruleId, subject x)) :
    ((items.map found).map alert).Nodup ↔ (items.map subject).Nodup := by
  have hmap : (items.map found).map alert = (items.map subject).map fun text => (ruleId, text) := by
    rw [List.map_map, List.map_map]
    exact List.map_congr_left fun x _ => hfound x
  rw [hmap]
  exact List.nodup_map_iff fun _ _ hsame => congrArg Prod.snd hsame

/-- The same where some of the items have none. -/
theorem nodup_alert_filterMap_iff {α : Type} {items : List α} {ruleId : String}
    {subject : α → String} {found : α → Option Finding}
    (hfound : ∀ x finding, found x = some finding → alert finding = (ruleId, subject x)) :
    ((items.filterMap found).map alert).Nodup ↔
      ((items.filter fun x => (found x).isSome).map subject).Nodup := by
  have hmap : (items.filterMap found).map alert =
      ((items.filter fun x => (found x).isSome).map subject).map fun text => (ruleId, text) := by
    induction items with
    | nil => rfl
    | cons x items ih =>
        rw [List.filterMap_cons, List.filter_cons]
        cases hx : found x with
        | none => exact ih
        | some finding =>
            rw [List.map_cons, ih, hfound x finding hx]
            rfl
  rw [hmap]
  exact List.nodup_map_iff fun _ _ hsame => congrArg Prod.snd hsame

end Parts

/-! ## Listeners -/

section Listeners

variable (r : HostReport)

/-- The listeners with a finding of this rule. -/
def judgedListeners (ruleId : String) : List ScannedListener :=
  if r.servicesAvailable then
    r.listeners.filter fun listener =>
      (listenerFindings r.toScanned.rest.cryptoLibraries listener).any (·.ruleId = ruleId)
  else []

theorem libraryFinding_alert {probes : List (String × LibraryProbe)} {listener : ScannedListener}
    {finding : Finding} (hfinding : libraryFinding probes listener = some finding) :
    finding.ruleId ∈ [libraryRule, undeterminedRule] ∧
      finding.subject = listenerSubject listener := by
  rw [libraryFinding] at hfinding
  split at hfinding
  · cases hfinding
    exact ⟨List.mem_cons_self, rfl⟩
  · split at hfinding <;> cases hfinding
    exact ⟨by simp [undetermined], rfl⟩

theorem goFinding_alert {listener : ScannedListener} {finding : Finding}
    (hfinding : goFinding listener = some finding) :
    finding.ruleId = goRule ∧ finding.subject = listenerSubject listener := by
  rw [goFinding] at hfinding
  split at hfinding
  · cases hfinding
  · split at hfinding <;> cases hfinding
    exact ⟨rfl, rfl⟩

/-- A listener has at most one finding of a rule. -/
theorem filter_listenerFindings (probes : List (String × LibraryProbe)) (listener : ScannedListener)
    (ruleId : String) :
    ((listenerFindings probes listener).filter (·.ruleId = ruleId)).map Finding.subject =
      if (listenerFindings probes listener).any (·.ruleId = ruleId) then [listenerSubject listener]
      else [] := by
  rw [listenerFindings]
  cases hlibrary : libraryFinding probes listener with
  | none =>
      cases hgo : goFinding listener with
      | none => rfl
      | some finding =>
          obtain ⟨hrule, hsubject⟩ := goFinding_alert hgo
          by_cases hsame : finding.ruleId = ruleId
          · simp [hsame, hsubject]
          · simp [hsame]
  | some first =>
      obtain ⟨hrule, hsubject⟩ := libraryFinding_alert hlibrary
      cases hgo : goFinding listener with
      | none =>
          by_cases hsame : first.ruleId = ruleId
          · simp [hsame, hsubject]
          · simp [hsame]
      | some second =>
          obtain ⟨hrule', hsubject'⟩ := goFinding_alert hgo
          -- The two rules are never the same.
          have hne : first.ruleId ≠ second.ruleId := by
            rw [hrule']
            rintro hsame
            rw [hsame] at hrule
            exact absurd hrule (by decide)
          by_cases hsame : first.ruleId = ruleId
          · have hother : second.ruleId ≠ ruleId := fun h => hne (hsame.trans h.symm)
            simp [hsame, hother, hsubject]
          · by_cases hother : second.ruleId = ruleId
            · simp [hsame, hother, hsubject']
            · simp [hsame, hother]

theorem filter_serviceFindings (ruleId : String) :
    ((serviceFindings r.toScanned).filter (·.ruleId = ruleId)).map Finding.subject =
      (judgedListeners r ruleId).map listenerSubject := by
  rw [serviceFindings, judgedListeners]
  have havailable : r.toScanned.available = r.servicesAvailable := rfl
  have hlisteners : r.toScanned.listeners = r.listeners := rfl
  rw [havailable, hlisteners]
  split
  · generalize r.toScanned.rest.cryptoLibraries = probes
    induction r.listeners with
    | nil => rfl
    | cons listener listeners ih =>
        rw [List.flatMap_cons, List.filter_append, List.map_append, ih, filter_listenerFindings,
          List.filter_cons]
        split <;> rfl
  · rfl

/-- The rules about listeners. -/
def listenerRules : List String := [libraryRule, goRule, undeterminedRule]

theorem nodup_map_alert_iff {findings : List Finding} {rules : List String}
    (hrules : ∀ finding ∈ findings, finding.ruleId ∈ rules) :
    (findings.map alert).Nodup ↔
      ∀ ruleId ∈ rules, ((findings.filter (·.ruleId = ruleId)).map Finding.subject).Nodup := by
  constructor
  · intro hnodup ruleId _
    have hsub : ((findings.filter (·.ruleId = ruleId)).map alert).Nodup :=
      hnodup.sublist (List.filter_sublist.map alert)
    refine List.Nodup.of_map (fun text => (ruleId, text)) ?_
    convert hsub using 1
    rw [List.map_map]
    refine List.map_congr_left fun finding hfinding => ?_
    have hrule := of_decide_eq_true (List.mem_filter.mp hfinding).2
    exact Prod.ext hrule.symm rfl
  · intro hall
    induction findings with
    | nil => exact List.nodup_nil
    | cons finding findings ih =>
        obtain ⟨hfinding, hrest⟩ := List.forall_mem_cons.mp hrules
        rw [List.map_cons, List.nodup_cons]
        constructor
        · intro hmem
          obtain ⟨other, hother, hsame⟩ := List.mem_map.mp hmem
          have hrule : other.ruleId = finding.ruleId := congrArg Prod.fst hsame
          have hsubject : other.subject = finding.subject := congrArg Prod.snd hsame
          have hone := hall finding.ruleId hfinding
          rw [List.filter_cons_of_pos (by simp), List.map_cons, List.nodup_cons] at hone
          refine hone.1 (List.mem_map.mpr ⟨other, List.mem_filter.mpr ⟨hother, ?_⟩, hsubject⟩)
          exact decide_eq_true hrule
        · refine ih hrest fun ruleId hrule => ?_
          have hone := hall ruleId hrule
          rw [List.filter_cons] at hone
          split at hone
          · rw [List.map_cons] at hone
            exact hone.of_cons
          · exact hone

theorem nodup_serviceFindings_iff :
    ((serviceFindings r.toScanned).map alert).Nodup ↔
      ∀ ruleId ∈ listenerRules, ((judgedListeners r ruleId).map listenerSubject).Nodup := by
  rw [nodup_map_alert_iff fun finding hfinding => (mem_serviceFindings r hfinding).1]
  simp only [filter_serviceFindings]
  rfl

end Listeners

/-! ## Libraries -/

section Libraries

variable (r : HostReport)

/-- The name of a library that a subject is about. -/
def subjectLibrary (subject : String) : String := beforeChar ':' (dropFirst "library:" subject)

theorem dropFirst_append (first rest : String) : dropFirst first (first ++ rest) = rest := by
  have hstarts := startsWith_append first rest
  rw [dropFirst, if_pos hstarts, String.toList_append, List.drop_left, String.ofList_toList]

theorem subjectLibrary_name {name : String} (hname : ':' ∉ name.toList) :
    subjectLibrary ("library:" ++ name) = name := by
  rw [subjectLibrary, dropFirst_append]
  have hbefore := @beforeChar_append ':' name hname "" (by simp)
  rwa [String.append_empty] at hbefore

theorem subjectLibrary_install {name : String} (hname : ':' ∉ name.toList) (install : Install) :
    subjectLibrary (install.subject name) = name := by
  have hstarts : startsWith (name ++ ":") (name ++ ":" ++ install.path) = true :=
    startsWith_append _ _
  rw [Install.subject, String.append_assoc, String.append_assoc, ← @String.append_assoc name,
    subjectLibrary, dropFirst_append, beforeChar_of_startsWith hname hstarts]

/-- The rules about the installs of a toolchain. -/
theorem installFinding_alert {name : String} {install : Install} {finding : Finding}
    (hfinding : installFinding name install = some finding) :
    alert finding = (if install.capable name = none then undeterminedRule else cryptoLibraryRule,
      install.subject name) := by
  rw [installFinding] at hfinding
  dsimp only at hfinding
  split at hfinding
  · cases hfinding
  · next hcapable =>
      cases hfinding
      exact Prod.ext (if_pos hcapable).symm rfl
  · next hcapable =>
      cases hfinding
      have hne : install.capable name ≠ none := by
        rw [hcapable]
        rintro ⟨⟩
      exact Prod.ext (if_neg hne).symm rfl

theorem installFinding_isSome_iff {name : String} {install : Install} :
    (installFinding name install).isSome = true ↔ install.capable name ≠ some true := by
  rw [installFinding]
  dsimp only
  rcases install.capable name with _ | (_ | _) <;> simp

theorem scannedFinding_subject {name : String} {lib : ScannedLibrary} {finding : Finding}
    (hfinding : scannedFinding name lib = some finding) : finding.subject = "library:" ++ name := by
  rw [scannedFinding] at hfinding
  split at hfinding
  · cases hfinding
    rfl
  · cases hfinding
    rfl
  · split at hfinding <;> cases hfinding
    rfl

/-- The installs of a toolchain with this verdict. -/
def installsWith (name : String) (lib : ScannedLibrary) (capable : Option Bool) : List Install :=
  if lib.installed then (lib.installs.getD []).filter fun install => install.capable name = capable
  else []

theorem filter_installFindings (name : String) {ruleId : String} {capable : Option Bool}
    (hrule : (if capable = none then undeterminedRule else cryptoLibraryRule) = ruleId)
    (hcapable : capable ≠ some true) (installs : List Install) :
    ((installs.filterMap (installFinding name)).filter (·.ruleId = ruleId)).map Finding.subject =
      (installs.filter fun install => install.capable name = capable).map
        (Install.subject name) := by
  induction installs with
  | nil => rfl
  | cons install installs ih =>
      rw [List.filterMap_cons, List.filter_cons]
      cases hfinding : installFinding name install with
      | none =>
          have hskip : install.capable name = some true := by
            by_contra hne
            have hsome := installFinding_isSome_iff.mpr hne
            rw [hfinding] at hsome
            cases hsome
          rw [if_neg (by simpa [hskip] using hcapable.symm)]
          exact ih
      | some finding =>
          have hfound := installFinding_alert hfinding
          have hne := installFinding_isSome_iff.mp (by rw [hfinding]; rfl)
          have hruleId : finding.ruleId = _ := congrArg Prod.fst hfound
          have hsubject : finding.subject = _ := congrArg Prod.snd hfound
          have hiff : finding.ruleId = ruleId ↔ install.capable name = capable := by
            have hrules : undeterminedRule ≠ cryptoLibraryRule := by decide
            rw [hruleId, ← hrule]
            dsimp only
            rcases hcap : install.capable name with _ | (_ | _)
            · rcases capable with _ | (_ | _)
              · simp
              · simp [hrules]
              · exact absurd rfl hcapable
            · rcases capable with _ | (_ | _)
              · simp [hrules.symm]
              · simp
              · exact absurd rfl hcapable
            · exact absurd hcap hne
          rw [List.filter_cons]
          by_cases hsame : install.capable name = capable
          · rw [if_pos (by simpa using hiff.mpr hsame), if_pos (by simpa using hsame),
              List.map_cons, List.map_cons, ih, hsubject]
          · rw [if_neg (by simpa using fun h => hsame (hiff.mp h)), if_neg (by simpa using hsame),
              ih]

theorem installSubject_injective (name : String) (installs : List Install) :
    (installs.map (Install.subject name)).Nodup ↔ (installs.map Install.path).Nodup := by
  have hmap : installs.map (Install.subject name) =
      (installs.map Install.path).map fun path => "library:" ++ name ++ ":" ++ path := by
    rw [List.map_map]
    rfl
  rw [hmap]
  exact List.nodup_map_iff fun _ _ hsame => String.append_right_inj _ |>.mp hsame

/-- The findings about one library are told apart by the paths of its installs. -/
theorem nodup_probeFindings_iff (name : String) (lib : ScannedLibrary) :
    ((probeFindings name lib).map alert).Nodup ↔
      ∀ capable ∈ [some false, none], ((installsWith name lib capable).map Install.path).Nodup := by
  rw [probeFindings]
  cases hinstalled : lib.installed with
  | false => simp [installsWith, hinstalled]
  | true =>
      cases hinstalls : lib.installs with
      | none =>
          have hscanned : ((scannedFinding name lib).toList.map alert).Nodup := by
            cases scannedFinding name lib with
            | none => exact List.nodup_nil
            | some finding => exact List.nodup_singleton _
          simpa [installsWith, hinstalled, hinstalls] using hscanned
      | some installs =>
          have hrules : ∀ finding ∈ installs.filterMap (installFinding name),
              finding.ruleId ∈ [cryptoLibraryRule, undeterminedRule] := by
            intro finding hfinding
            obtain ⟨install, -, h⟩ := List.mem_filterMap.mp hfinding
            rw [show finding.ruleId = _ from congrArg Prod.fst (installFinding_alert h)]
            dsimp only
            split <;> simp
          have hwith : ∀ capable, installsWith name lib capable =
              installs.filter fun install => install.capable name = capable := by
            intro capable
            rw [installsWith, if_pos hinstalled, hinstalls, Option.getD_some]
          have hfalse := @filter_installFindings name cryptoLibraryRule (some false) rfl
            (by decide) installs
          have hunknown := @filter_installFindings name undeterminedRule none rfl (by decide)
            installs
          rw [show (if (!true) = true then [] else installs.filterMap (installFinding name)) =
            installs.filterMap (installFinding name) from rfl, nodup_map_alert_iff hrules,
            List.forall_mem_cons, List.forall_mem_singleton, List.forall_mem_cons,
            List.forall_mem_singleton, hfalse, hunknown, hwith, hwith, installSubject_injective,
            installSubject_injective]

/-- Which library a finding is about. -/
theorem probeFindings_library {name : String} (hname : ':' ∉ name.toList) {lib : ScannedLibrary}
    {finding : Finding} (hfinding : finding ∈ probeFindings name lib) :
    subjectLibrary finding.subject = name := by
  rw [probeFindings] at hfinding
  split at hfinding
  · cases hfinding
  · split at hfinding
    · obtain ⟨install, -, h⟩ := List.mem_filterMap.mp hfinding
      rw [show finding.subject = _ from congrArg Prod.snd (installFinding_alert h)]
      exact subjectLibrary_install hname install
    · rw [scannedFinding_subject (Option.mem_toList.mp hfinding)]
      exact subjectLibrary_name hname

/-- The findings about libraries are told apart by the paths of the installs of each toolchain. -/
theorem nodup_libraryFindings_iff (hnames : ∀ name ∈ r.libraries.keys, ':' ∉ name.toList) :
    ((libraryFindings r).map alert).Nodup ↔
      (r.librariesAvailable = true → ∀ entry ∈ r.libraries.entries, ∀ capable ∈ [some false, none],
        ((installsWith entry.1 entry.2 capable).map Install.path).Nodup) := by
  rw [libraryFindings]
  split
  · next havailable =>
      have hnodup : r.libraries.entries.Pairwise fun one other => one.1 ≠ other.1 :=
        List.pairwise_map.mp r.libraries.nodup
      rw [List.map_flatMap, List.nodup_flatMap]
      simp only [nodup_probeFindings_iff, havailable, true_implies]
      refine and_iff_left (hnodup.imp_of_mem ?_)
      intro one other hone hother hne
      rw [Function.onFun, List.disjoint_left]
      intro found hfound hfound'
      obtain ⟨first, hfirst, rfl⟩ := List.mem_map.mp hfound
      obtain ⟨second, hsecond, hsame⟩ := List.mem_map.mp hfound'
      have hsubject : second.subject = first.subject := congrArg Prod.snd hsame
      refine hne ?_
      rw [← probeFindings_library (hnames _ (List.mem_map_of_mem hone)) hfirst,
        ← probeFindings_library (hnames _ (List.mem_map_of_mem hother)) hsecond, hsubject]
  · next havailable =>
      simp [havailable]

end Libraries

/-! ## Connections, packages and files -/

section Others

variable (r : HostReport)

/-- Connections are told apart by their names. -/
theorem nodup_ipsecFindings : ((ipsecFindings r).map alert).Nodup := by
  have hentries : ∀ entries : List (String × List Ike.Proposal), (entries.map Prod.fst).Nodup →
      ((entries.filterMap fun entry => connectionFinding entry.1 entry.2).map alert).Nodup := by
    intro entries hnodup
    refine List.Nodup.of_map (fun found => dropFirst "ipsec:" found.2) ?_
    rw [List.map_map]
    refine hnodup.sublist ?_
    clear hnodup
    induction entries with
    | nil => exact List.Sublist.refl _
    | cons entry entries ih =>
        rw [List.filterMap_cons]
        cases hfinding : connectionFinding entry.1 entry.2 with
        | none => exact ih.cons _
        | some finding =>
            have hsubject := (of_connectionFinding hfinding).2
            have hname : dropFirst "ipsec:" (alert finding).2 = entry.1 := by
              rw [alert, hsubject, dropFirst_append]
            rw [List.map_cons, List.map_cons, Function.comp_apply, hname]
            exact ih.cons_cons _
  rw [ipsecFindings, nodup_map_append_iff]
  · constructor
    · cases mismatchFinding r.ipsec with
      | none => exact List.nodup_nil
      | some finding => exact List.nodup_singleton _
    · refine hentries _ ?_
      exact ((sortedBy_perm _ _).map Prod.fst).nodup_iff.mpr (byConnection r.ipsec.proposals).nodup
  · intro x hx y hy
    obtain ⟨entry, -, hy⟩ := List.mem_filterMap.mp hy
    refine alert_ne_of_rule ?_
    rw [isRule_mismatchFinding r x (Option.mem_toList.mp hx)]
    rintro hsame
    have hrule := (of_connectionFinding hy).1
    rw [← hsame] at hrule
    exact absurd hrule (by decide)

/-- The packages with a finding. -/
def judgedPackages : List BundledPackage :=
  if r.packages.available then
    r.packages.bundledCrypto.filter fun entry => (packageFinding r.libraries entry).isSome
  else []

theorem nodup_bundledFindings_iff :
    ((bundledFindings r).map alert).Nodup ↔
      ((judgedPackages r).map BundledPackage.package).Nodup := by
  rw [bundledFindings, judgedPackages]
  split
  · have hfound : ∀ entry finding, packageFinding r.libraries entry = some finding →
        alert finding = (bundledRule, "package:" ++ entry.package) := by
      intro entry finding hfinding
      obtain ⟨hrule, hsubject⟩ := of_packageFinding hfinding
      exact Prod.ext hrule hsubject
    rw [nodup_alert_filterMap_iff hfound]
    have hmap : ∀ entries : List BundledPackage,
        entries.map (fun entry => "package:" ++ entry.package) =
          (entries.map BundledPackage.package).map ("package:" ++ ·) := fun entries => by
      rw [List.map_map]
      rfl
    rw [hmap]
    exact List.nodup_map_iff fun _ _ hsame => String.append_right_inj _ |>.mp hsame
  · simp

theorem area_unreadable {kind path what : String} (hkind : ':' ∉ kind.toList) :
    area (unreadableFinding kind path what) = kind :=
  beforeChar_of_startsWith hkind (startsWith_append _ _)

/-- The files that could not be read, of each kind. -/
def unreadablePaths : List (List String) :=
  [r.dnssec.unreadableConfigs.map UnreadableConfig.path,
    if r.tunnels.available then r.tunnels.unreadableConfigs else [],
    if r.tunnels.available then
      (r.tunnels.openvpn.filter fun config => !config.readable).map OpenVpnConfig.path
    else []]

theorem nodup_tunnelFindings_iff :
    ((tunnelFindings r).map alert).Nodup ↔ ∀ paths ∈ unreadablePaths r, paths.Nodup := by
  have hkind : ∀ {α : Type} (kind : String) (items : List α) (path what : α → String),
      ((items.map fun x => unreadableFinding kind (path x) (what x)).map alert).Nodup ↔
        (items.map path).Nodup := by
    intro α kind items path what
    have hmap : items.map (fun x => kind ++ ":" ++ path x) =
        (items.map path).map (kind ++ ":" ++ ·) := by
      rw [List.map_map]
      rfl
    have hfound : ∀ x, alert (unreadableFinding kind (path x) (what x)) =
        (undeterminedRule, kind ++ ":" ++ path x) := fun _ => rfl
    rw [nodup_alert_iff _ hfound, hmap]
    exact List.nodup_map_iff fun _ _ hsame => String.append_right_inj _ |>.mp hsame
  rw [tunnelFindings, nodup_map_append_iff]
  · rw [unreadablePaths, List.forall_mem_cons, List.forall_mem_cons, List.forall_mem_singleton,
      hkind "dnssec"]
    refine and_congr_right fun _ => ?_
    split
    · rw [nodup_map_append_iff, hkind "openvpn"]
      · refine and_congr_left fun _ => ?_
        have hwireguard := hkind "wireguard" r.tunnels.unreadableConfigs id fun path =>
          "WireGuard config " ++ path ++ " (unreadable: needs root)"
        rw [List.map_id] at hwireguard
        exact hwireguard
      · intro x hx y hy
        obtain ⟨path, -, rfl⟩ := List.mem_map.mp hx
        obtain ⟨config, -, rfl⟩ := List.mem_map.mp hy
        refine alert_ne_of_area ?_
        rw [area_unreadable (by decide), area_unreadable (by decide)]
        decide
    · simp
  · intro x hx y hy
    obtain ⟨config, -, rfl⟩ := List.mem_map.mp hx
    refine alert_ne_of_area ?_
    rw [area_unreadable (by decide)]
    split at hy
    · rcases List.mem_append.mp hy with hy | hy
      · obtain ⟨path, -, rfl⟩ := List.mem_map.mp hy
        rw [area_unreadable (by decide)]
        decide
      · obtain ⟨other, -, rfl⟩ := List.mem_map.mp hy
        rw [area_unreadable (by decide)]
        decide
    · cases hy

end Others

/-! ## Findings about software that fails -/

section Failures

variable (r : HostReport)

/-- What part of the report a finding is about. -/
def place (finding : Finding) : String :=
  if finding.ruleId = mlkemUnsupportedRule then "ipsec" else area finding

theorem alert_ne_of_place {first second : Finding} (hplace : place first ≠ place second) :
    alert first ≠ alert second := by
  intro hsame
  have hrule : first.ruleId = second.ruleId := congrArg Prod.fst hsame
  have hsubject : first.subject = second.subject := congrArg Prod.snd hsame
  exact hplace (by rw [place, place, area, area, hrule, hsubject])

theorem place_of_area (tag : String) {finding : Finding} {rules : List String}
    (hrule : finding.ruleId ∈ rules) (hrules : mlkemUnsupportedRule ∉ rules)
    (htag : ':' ∉ tag.toList) (hstarts : startsWith (tag ++ ":") finding.subject = true) :
    place finding = tag := by
  have hne : finding.ruleId ≠ mlkemUnsupportedRule := by
    intro hsame
    rw [hsame] at hrule
    exact hrules hrule
  rw [place, if_neg hne, area, beforeChar_of_startsWith htag hstarts]

/-- Findings about different places are told apart. -/
theorem nodup_places {first second : List Finding} {places others : List String}
    (hfirst : ∀ finding ∈ first, place finding ∈ places)
    (hsecond : ∀ finding ∈ second, place finding ∈ others) (hapart : ∀ tag ∈ places, tag ∉ others) :
    ((first ++ second).map alert).Nodup ↔ (first.map alert).Nodup ∧ (second.map alert).Nodup := by
  refine nodup_map_append_iff fun x hx y hy => alert_ne_of_place ?_
  intro hsame
  exact hapart _ (hfirst x hx) (hsame ▸ hsecond y hy)

/-- What a finding about the OpenSSL of a tree is about. -/
theorem offlineOpensslFinding_alert {finding : Finding}
    (hfinding : offlineOpensslFinding r = some finding) :
    treeFails r = true ∧ alert finding = (opensslRule, "") ∨
      treeFails r = false ∧ alert finding = (undeterminedRule, "openssl:tree") := by
  rw [offlineOpensslFinding] at hfinding
  dsimp only at hfinding
  rw [treeFails]
  split at hfinding
  · cases hfinding
  · next honline =>
      rw [Bool.not_eq_true, Bool.not_eq_false'] at honline
      rw [honline, Bool.true_and, decide_eq_true_iff, decide_eq_false_iff_not]
      split at hfinding
      · next hold =>
          cases hfinding
          exact .inl ⟨hold, rfl⟩
      · next hold =>
          split at hfinding <;> cases hfinding
          exact .inr ⟨hold, rfl⟩

theorem place_offline {finding : Finding} (hfinding : finding ∈ (offlineOpensslFinding r).toList) :
    place finding ∈ ["", "openssl"] := by
  have halert := offlineOpensslFinding_alert r (Option.mem_toList.mp hfinding)
  have hof : ∀ rule subject, alert finding = (rule, subject) →
      place finding = if rule = mlkemUnsupportedRule then "ipsec" else beforeChar ':' subject := by
    intro rule subject hsame
    rw [place, area, show finding.ruleId = rule from congrArg Prod.fst hsame,
      show finding.subject = subject from congrArg Prod.snd hsame]
  rcases halert with ⟨-, h⟩ | ⟨-, h⟩
  · rw [hof _ _ h]
    decide
  · rw [hof _ _ h]
    decide

theorem place_service {finding : Finding} (hfinding : finding ∈ serviceFindings r.toScanned) :
    place finding ∈ ["service"] := by
  obtain ⟨hrule, listener, -, hsubject⟩ := mem_serviceFindings r hfinding
  refine List.mem_singleton.mpr (place_of_area "service" hrule (by decide) (by decide) ?_)
  rw [hsubject, listenerSubject]
  simp only [String.append_assoc]
  exact startsWith_append "service:" _

theorem place_library {finding : Finding} (hfinding : finding ∈ libraryFindings r) :
    place finding ∈ ["library"] := by
  obtain ⟨hrule, hstarts⟩ := mem_libraryFindings r hfinding
  exact List.mem_singleton.mpr (place_of_area _ hrule (by decide) (by decide) hstarts)

theorem place_ipsec {finding : Finding} (hfinding : finding ∈ ipsecFindings r) :
    place finding ∈ ["ipsec"] := by
  rcases mem_ipsecFindings r hfinding with hrule | ⟨hrule, hstarts⟩
  · exact List.mem_singleton.mpr (if_pos hrule)
  · exact List.mem_singleton.mpr (place_of_area _ hrule (by decide) (by decide) hstarts)

theorem place_bundled {finding : Finding} (hfinding : finding ∈ bundledFindings r) :
    place finding ∈ ["package"] := by
  rw [bundledFindings] at hfinding
  split at hfinding
  · obtain ⟨entry, -, h⟩ := List.mem_filterMap.mp hfinding
    obtain ⟨hrule, hsubject⟩ := of_packageFinding h
    have hrules : finding.ruleId ∈ [bundledRule] := List.mem_singleton.mpr hrule
    refine List.mem_singleton.mpr (place_of_area "package" hrules (by decide) (by decide) ?_)
    rw [hsubject]
    exact startsWith_append "package:" _
  · cases hfinding

theorem place_tunnel {finding : Finding} (hfinding : finding ∈ tunnelFindings r) :
    place finding ∈ ["dnssec", "wireguard", "openvpn"] := by
  obtain ⟨hrule, kind, hkind, hstarts⟩ := mem_tunnelFindings r hfinding
  have hrules : finding.ruleId ∈ [undeterminedRule] := List.mem_singleton.mpr hrule
  simp only [unreadableKinds, List.mem_cons, List.not_mem_nil, or_false] at hkind
  rcases hkind with rfl | rfl | rfl
  · rw [place_of_area "dnssec" hrules (by decide) (by decide) hstarts]
    decide
  · rw [place_of_area "wireguard" hrules (by decide) (by decide) hstarts]
    decide
  · rw [place_of_area "openvpn" hrules (by decide) (by decide) hstarts]
    decide

/-- Two lists of findings stay where they are if they are put behind each other. -/
theorem place_append {first second : List Finding} {places others : List String}
    (hfirst : ∀ finding ∈ first, place finding ∈ places)
    (hsecond : ∀ finding ∈ second, place finding ∈ others) :
    ∀ finding ∈ first ++ second, place finding ∈ places ++ others := by
  intro finding hfinding
  rcases List.mem_append.mp hfinding with h | h
  · exact List.mem_append_left _ (hfirst finding h)
  · exact List.mem_append_right _ (hsecond finding h)

theorem nodup_failuresFound_iff (hnames : ∀ name ∈ r.libraries.keys, ':' ∉ name.toList) :
    ((failuresFound r).map alert).Nodup ↔
      (∀ ruleId ∈ listenerRules, ((judgedListeners r ruleId).map listenerSubject).Nodup) ∧
      (r.librariesAvailable = true → ∀ entry ∈ r.libraries.entries, ∀ capable ∈ [some false, none],
        ((installsWith entry.1 entry.2 capable).map Install.path).Nodup) ∧
      ((judgedPackages r).map BundledPackage.package).Nodup ∧
      ∀ paths ∈ unreadablePaths r, paths.Nodup := by
  have hservice := place_append (fun _ => place_offline r) fun _ => place_service r
  have hlibrary := place_append hservice fun _ => place_library r
  have hipsec := place_append hlibrary fun _ => place_ipsec r
  have hbundled := place_append hipsec fun _ => place_bundled r
  have hoffline : (((offlineOpensslFinding r).toList).map alert).Nodup := by
    cases offlineOpensslFinding r with
    | none => exact List.nodup_nil
    | some finding => exact List.nodup_singleton _
  rw [failuresFound, nodup_places hbundled (fun _ => place_tunnel r) (by decide),
    nodup_places hipsec (fun _ => place_bundled r) (by decide),
    nodup_places hlibrary (fun _ => place_ipsec r) (by decide),
    nodup_places hservice (fun _ => place_library r) (by decide),
    nodup_places (fun _ => place_offline r) (fun _ => place_service r) (by decide),
    nodup_serviceFindings_iff, nodup_libraryFindings_iff r hnames, nodup_bundledFindings_iff,
    nodup_tunnelFindings_iff]
  simp only [hoffline, nodup_ipsecFindings r, true_and, and_true, and_assoc]

end Failures

/-! ## All findings -/

section Distinct

variable (r : HostReport)

/-- Nothing is judged twice under one name. -/
structure JudgedOnce : Prop where
  openssl : opensslFinding r = none ∨ treeFails r = false
  listeners : ∀ ruleId ∈ listenerRules, ((judgedListeners r ruleId).map listenerSubject).Nodup
  installs : r.librariesAvailable = true → ∀ entry ∈ r.libraries.entries,
    ∀ capable ∈ [some false, none], ((installsWith entry.1 entry.2 capable).map Install.path).Nodup
  packages : ((judgedPackages r).map BundledPackage.package).Nodup
  files : ∀ paths ∈ unreadablePaths r, paths.Nodup
  endpoints : ((blockedItems r).map BlockedEndpoint.subject).Nodup

/-- Predicates for different rules. -/
theorem nodup_reduceOption {rules : List String} {founds : List (Option Finding)}
    (hfounds : List.Forall₂ IsRule rules founds) (hrules : rules.Nodup) :
    (founds.reduceOption.map alert).Nodup := by
  refine List.Nodup.of_map Prod.fst (hrules.sublist ?_)
  rw [List.map_map]
  clear hrules
  induction hfounds with
  | nil => exact List.Sublist.refl _
  | @cons rule found rules founds hfound _ ih =>
      cases found with
      | none => exact ih.cons _
      | some finding =>
          rw [List.reduceOption_cons_of_some, List.map_cons, Function.comp_apply,
            show (alert finding).1 = rule from hfound finding rfl]
          exact ih.cons_cons _

theorem nodup_hostFindings : ((hostFindings r).map alert).Nodup :=
  nodup_reduceOption (.cons (isRule_opensslFinding r) (forall₂_hostRest r)) (by decide)

/-- Findings of rules that stand apart. -/
theorem nodup_parts {first second : List Finding} {start middle stop : ℕ}
    (hfirst : Part first start middle) (hsecond : Part second middle stop) :
    ((first ++ second).map alert).Nodup ↔ (first.map alert).Nodup ∧ (second.map alert).Nodup := by
  refine nodup_map_append_iff fun x hx y hy => alert_ne_of_index ?_
  have hx' := hfirst.high x hx
  have hy' := hsecond.low y hy
  omega

/-- `pqc-001` may be found for the host and for its tree. -/
theorem nodup_hostFailures_iff :
    ((hostFindings r ++ failuresFound r).map alert).Nodup ↔
      (opensslFinding r = none ∨ treeFails r = false) ∧ ((failuresFound r).map alert).Nodup := by
  rw [List.map_append, List.nodup_append, and_iff_right (nodup_hostFindings r), and_comm]
  refine and_congr_left fun _ => ?_
  constructor
  · intro hapart
    rw [or_iff_not_imp_left, ← ne_eq, Option.ne_none_iff_exists', ← Bool.not_eq_true]
    rintro ⟨finding, hfinding⟩ hfails
    obtain ⟨old, hold, hrule⟩ := offlineOpensslFinding_of_treeFails r hfails
    have halert : alert old = (opensslRule, "") := by
      rcases offlineOpensslFinding_alert r hold with ⟨-, h⟩ | ⟨h, -⟩
      · exact h
      · rw [hfails] at h
        cases h
    have halert' : alert finding = (opensslRule, "") := by
      rw [opensslFinding] at hfinding
      split at hfinding <;> cases hfinding
      rfl
    refine hapart (alert finding) (List.mem_map_of_mem ?_) (alert old) (List.mem_map_of_mem ?_) ?_
    · rw [hostFindings_eq, hfinding]
      exact List.mem_append_left _ List.mem_cons_self
    · rw [failuresFound]
      simp only [List.mem_append, Option.mem_toList]
      exact .inl (.inl (.inl (.inl (.inl hold))))
    · rw [halert, halert']
  · intro hor a ha b hb
    obtain ⟨x, hx, rfl⟩ := List.mem_map.mp ha
    obtain ⟨y, hy, rfl⟩ := List.mem_map.mp hb
    cases hfails : treeFails r with
    | false =>
        refine alert_ne_of_index ?_
        have hx' := (part_hostFindings r).high x hx
        have hy' := le_ruleIndex_of_mem_failuresFound r hfails hy
        omega
    | true =>
        -- The host has no finding of `pqc-001`, so only the rules behind it are left.
        have hnone : opensslFinding r = none := hor.resolve_right (by rw [hfails]; decide)
        rw [hostFindings_eq, hnone] at hx
        have hlow := (part_hostRest r).low x hx
        have hhigh := (part_hostRest r).high x hx
        refine alert_ne_of_index ?_
        rcases mem_failuresFound r hy with h | ⟨-, h⟩
        · have hall : ∀ ruleId ∈ failureRules, 10 ≤ ruleIds.idxOf ruleId := by decide
          have hy' : 10 ≤ ruleIndex y := hall _ h
          omega
        · have hzero : ruleIndex y = 0 := by
            rw [ruleIndex, h]
            decide
          omega

theorem nodup_serviceConfigFindings_iff :
    ((serviceConfigFindings r).map alert).Nodup ↔
      ((blockedItems r).map BlockedEndpoint.subject).Nodup :=
  nodup_alert_iff BlockedEndpoint.subject fun _ => rfl

theorem nodup_findingsDetected_iff (hnames : ∀ name ∈ r.libraries.keys, ':' ∉ name.toList) :
    ((findingsDetected r).map alert).Nodup ↔ JudgedOnce r := by
  have hcapable : (((capableNotConfiguredFinding r).toList).map alert).Nodup := by
    cases capableNotConfiguredFinding r with
    | none => exact List.nodup_nil
    | some finding => exact List.nodup_singleton _
  have hsurvey : ((surveyFindings r).map alert).Nodup :=
    nodup_reduceOption (forall₂_survey r) (by decide)
  have hfront : Part (capableNotConfiguredFinding r).toList 18 19 := part_capableNotConfigured r
  have hbehind :
      (((capableNotConfiguredFinding r).toList ++ serviceConfigFindings r ++
        surveyFindings r).map alert).Nodup ↔
      ((blockedItems r).map BlockedEndpoint.subject).Nodup := by
    rw [nodup_parts (hfront.append (part_serviceConfig r) (by decide) (by decide)) (part_survey r),
      nodup_parts hfront (part_serviceConfig r), nodup_serviceConfigFindings_iff]
    simp only [hcapable, hsurvey, true_and, and_true]
  have happart : ∀ x ∈ hostFindings r ++ failuresFound r, ruleIndex x < 18 := by
    intro x hx
    rcases List.mem_append.mp hx with h | h
    · exact ((part_hostFindings r).high x h).trans (by decide)
    · exact ruleIndex_lt_of_mem_failuresFound r h
  have hsplit : findingsDetected r = (hostFindings r ++ failuresFound r) ++
      ((capableNotConfiguredFinding r).toList ++ serviceConfigFindings r ++ surveyFindings r) := by
    rw [findingsDetected]
    simp only [List.append_assoc]
  rw [hsplit, nodup_map_append_iff, nodup_hostFailures_iff, hbehind,
    nodup_failuresFound_iff r hnames]
  · constructor
    · rintro ⟨⟨hopenssl, hlisteners, hinstalls, hpackages, hfiles⟩, hendpoints⟩
      exact ⟨hopenssl, hlisteners, hinstalls, hpackages, hfiles, hendpoints⟩
    · intro h
      exact ⟨⟨h.openssl, h.listeners, h.installs, h.packages, h.files⟩, h.endpoints⟩
  · intro x hx y hy
    have hx' := happart x hx
    have hy' := (part_behind r).low y hy
    exact alert_ne_of_index (by omega)

/-- What stands behind the rule in the key of a fingerprint. -/
def keyTail (subject : String) : String := if subject = "" then "" else "\x00" ++ subject

theorem keyTail_injective : Function.Injective keyTail := by
  intro one other hsame
  rw [keyTail, keyTail] at hsame
  split at hsame
  · next hone =>
      split at hsame
      · next hother => rw [hone, hother]
      · have := congrArg String.toList hsame
        simp at this
  · split at hsame
    · have := congrArg String.toList hsame
      simp at this
    · exact String.append_right_inj _ |>.mp hsame

theorem beforeChar_keyTail {rule : String} (hrule : '\x00' ∉ rule.toList) (subject : String) :
    beforeChar '\x00' (rule ++ keyTail subject) = rule := by
  refine beforeChar_append hrule ?_
  rw [keyTail]
  split <;> simp

/-- The key of a fingerprint tells the rule and the subject. -/
theorem fingerprintKey_inj (hostname : String) {one other : String × String}
    (hone : '\x00' ∉ one.1.toList) (hother : '\x00' ∉ other.1.toList)
    (hsame : fingerprintKey hostname one = fingerprintKey hostname other) : one = other := by
  have htail : one.1 ++ keyTail one.2 = other.1 ++ keyTail other.2 := by
    have hkey : ∀ found : String × String, fingerprintKey hostname found =
        hostname ++ "\x00" ++ (found.1 ++ keyTail found.2) := fun _ => String.append_assoc
    rw [hkey, hkey] at hsame
    exact String.append_right_inj _ |>.mp hsame
  have hrule : one.1 = other.1 := by
    have hbefore := congrArg (beforeChar '\x00') htail
    rwa [beforeChar_keyTail hone, beforeChar_keyTail hother] at hbefore
  rw [hrule] at htail
  exact Prod.ext hrule (keyTail_injective (String.append_right_inj _ |>.mp htail))

theorem buildFindings_perm : (buildFindings r).Perm (findingsDetected r) := by
  rw [buildFindings, findingsDetected, pqcFailureFindings]
  exact (((List.Perm.append_left _ (sortedBy_perm _ _)).append_right _).append_right
    _).append_right _

theorem nodup_alerts_iff (hnames : ∀ name ∈ r.libraries.keys, ':' ∉ name.toList) :
    ((buildFindings r).map alert).Nodup ↔ JudgedOnce r := by
  rw [((buildFindings_perm r).map _).nodup_iff, nodup_findingsDetected_iff r hnames]

theorem notMem_ruleId {finding : Finding} (hfinding : finding ∈ buildFindings r) :
    '\x00' ∉ finding.ruleId.toList := by
  have hall : ∀ ruleId ∈ ruleIds, '\x00' ∉ ruleId.toList := by decide
  exact hall _ (mem_ruleIds r ((mem_buildFindings_iff r).mp hfinding))

/-- What a run hashes. -/
def runKeys (hostname : String) : Set String :=
  { key | ∃ finding ∈ buildFindings r, fingerprintKey hostname (alert finding) = key }

/-- Findings of two runs have one fingerprint only if they have one rule and one subject. -/
theorem findingFingerprint_eq_iff {later : HostReport} {hash : String → String} {hostname : String}
    (hhash : Set.InjOn hash (runKeys r hostname ∪ runKeys later hostname)) {finding other : Finding}
    (hfinding : finding ∈ buildFindings r) (hother : other ∈ buildFindings later) :
    findingFingerprint hash hostname finding = findingFingerprint hash hostname other ↔
      alert finding = alert other := by
  constructor
  · intro hsame
    apply fingerprintKey_inj hostname (notMem_ruleId r hfinding) (notMem_ruleId later hother)
    exact hhash (.inl ⟨finding, hfinding, rfl⟩) (.inr ⟨other, hother, rfl⟩) hsame
  · intro hsame
    rw [findingFingerprint, findingFingerprint, hsame]

/-- **Two findings of a run never share a fingerprint, exactly if nothing is judged twice under one
name.** -/
theorem fingerprints_distinct_iff (hash : String → String) (hostname : String)
    (hhash : Set.InjOn hash (runKeys r hostname))
    (hnames : ∀ name ∈ r.libraries.keys, ':' ∉ name.toList) :
    ((buildFindings r).map (findingFingerprint hash hostname)).Nodup ↔ JudgedOnce r := by
  rw [← nodup_alerts_iff r hnames, List.Nodup, List.Nodup, List.pairwise_map, List.pairwise_map]
  have hboth : Set.InjOn hash (runKeys r hostname ∪ runKeys r hostname) := by
    rwa [Set.union_self]
  apply List.Pairwise.iff_of_mem
  intro one other hone hother
  exact not_congr (findingFingerprint_eq_iff r hboth hone hother)

/-- A host with one Go for two architectures. -/
def twoGoPackages : HostReport where
  librariesAvailable := true
  libraries := Dict.empty.update "nettle" fun _ => { installed := true, pqcCapable := some false }
  packages := ⟨true, [⟨"golang-1.20", some "1.20.6", none⟩, ⟨"golang-1.20", some "1.20.6", none⟩]⟩

theorem fingerprints_twoGoPackages :
    ¬ ((buildFindings twoGoPackages).map (findingFingerprint id "web")).Nodup := by
  rw [fingerprints_distinct_iff twoGoPackages id "web" Function.injective_id.injOn (by decide)]
  intro h
  exact absurd h.packages (by decide)

end Distinct

end PqcReadiness.Findings
