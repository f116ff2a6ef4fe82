import Mathlib.Data.List.ReduceOption
import PqcReadiness.Findings.Software
import PqcReadiness.Gap.Accounting

/-!
# The order of the findings

`build_findings` promises the order of `RULE_SPECS`.  Its sections follow each other in that order,
and the one about software that fails is sorted; but that section also has `pqc-001` of a tree that
was scanned offline, behind all rules for the host.  So the order is kept unless such a tree fires
one of those rules (`buildFindings_order`).
-/

namespace PqcReadiness.Findings

open Lib Gap

/-! ## Sections -/

/-- The finding of a predicate, if there is one, is about this rule. -/
def IsRule (ruleId : String) (found : Option Finding) : Prop :=
  ∀ finding ∈ found, finding.ruleId = ruleId

theorem isRule_none (ruleId : String) : IsRule ruleId none := by
  rintro finding ⟨⟩

theorem isRule_some {ruleId : String} {finding : Finding} (hrule : finding.ruleId = ruleId) :
    IsRule ruleId (some finding) := by
  rintro other ⟨⟩
  exact hrule

theorem isRule_ite {ruleId : String} {condition : Prop} [Decidable condition] {finding : Finding}
    (hrule : finding.ruleId = ruleId) :
    IsRule ruleId (if condition then some finding else none) := by
  split
  · exact isRule_some hrule
  · exact isRule_none ruleId

theorem isRule_map {α : Type} {ruleId : String} {found : Option α} {finding : α → Finding}
    (hrule : ∀ x, (finding x).ruleId = ruleId) : IsRule ruleId (found.map finding) := by
  cases found with
  | none => exact isRule_none ruleId
  | some x => exact isRule_some (hrule x)

/-- A part of the list of rules, from one position on to another. -/
structure Part (findings : List Finding) (start stop : ℕ) : Prop where
  sorted : findings.Pairwise fun first second => ruleIndex first ≤ ruleIndex second
  low : ∀ finding ∈ findings, start ≤ ruleIndex finding
  high : ∀ finding ∈ findings, ruleIndex finding < stop

theorem Part.append {first second : List Finding} {start middle stop : ℕ}
    (hfirst : Part first start middle) (hsecond : Part second middle stop) (hle : start ≤ middle)
    (hle' : middle ≤ stop) : Part (first ++ second) start stop := by
  refine ⟨?_, ?_, ?_⟩
  · rw [List.pairwise_append]
    refine ⟨hfirst.sorted, hsecond.sorted, fun x hx y hy => ?_⟩
    have hx' := hfirst.high x hx
    have hy' := hsecond.low y hy
    omega
  · intro finding hfinding
    rcases List.mem_append.mp hfinding with h | h
    · exact hfirst.low finding h
    · exact hle.trans (hsecond.low finding h)
  · intro finding hfinding
    rcases List.mem_append.mp hfinding with h | h
    · exact (hfirst.high finding h).trans_le hle'
    · exact hsecond.high finding h

/-- Findings of one rule. -/
theorem part_of_rule {findings : List Finding} {ruleId : String}
    (hrule : ∀ finding ∈ findings, finding.ruleId = ruleId) :
    Part findings (ruleIds.idxOf ruleId) (ruleIds.idxOf ruleId + 1) := by
  have hindex : ∀ finding ∈ findings, ruleIndex finding = ruleIds.idxOf ruleId := by
    intro finding hfinding
    rw [ruleIndex, hrule finding hfinding]
  refine ⟨List.pairwise_iff_forall_sublist.mpr ?_, fun x hx => (hindex x hx).ge, fun x hx => ?_⟩
  · intro x y hsublist
    rw [hindex x (hsublist.subset (by simp)), hindex y (hsublist.subset (by simp))]
  · rw [hindex x hx]
    exact Nat.lt_succ_self _

/-- Predicates for rules that stand behind each other. -/
theorem part_reduceOption (before after : List String) {founds : List (Option Finding)}
    {rules : List String} (hfounds : List.Forall₂ IsRule rules founds)
    (hids : ruleIds = before ++ rules ++ after) (hnodup : ruleIds.Nodup) :
    Part founds.reduceOption before.length (before.length + rules.length) := by
  induction hfounds generalizing before with
  | nil => exact ⟨by simp, by simp, by simp⟩
  | @cons ruleId found rules founds hfound _ ih =>
      have hids' : ruleIds = (before ++ [ruleId]) ++ rules ++ after := by
        rw [hids]
        simp
      have hindex : ruleIds.idxOf ruleId = before.length := by
        rw [hids, List.append_assoc, List.idxOf_append_of_notMem, List.cons_append,
          List.idxOf_cons_self, Nat.add_zero]
        intro hmem
        rw [hids', List.append_assoc, List.nodup_append, List.nodup_append] at hnodup
        exact hnodup.1.2.2 ruleId hmem ruleId (List.mem_singleton.mpr rfl) rfl
      have hrest := ih (before ++ [ruleId]) hids'
      rw [List.length_append, List.length_singleton] at hrest
      have hfirst : Part found.toList before.length (before.length + 1) := by
        rw [← hindex]
        exact part_of_rule fun finding hfinding => hfound finding (Option.mem_toList.mp hfinding)
      have hboth := hfirst.append hrest (Nat.le_succ _) (Nat.le_add_right _ _)
      rw [List.length_cons, show before.length + (rules.length + 1) =
        before.length + 1 + rules.length by omega]
      cases found with
      | none => exact hboth
      | some finding => exact hboth

theorem nodup_ruleIds : ruleIds.Nodup := by decide

/-! ## The rules of each predicate -/

section Rules

variable (r : HostReport)

/-- The rules for the host that stand behind `pqc-001`. -/
def hostRest : List (Option Finding) :=
  [conflictFinding r, isaFinding r, trustStoreFinding r, slhDsaFinding r, hsmFinding r,
    fenceFinding r, policyFinding r, signingKeysFinding r, sshdFinding r]

theorem isRule_opensslFinding : IsRule opensslRule (opensslFinding r) := isRule_ite rfl

theorem forall₂_hostRest : List.Forall₂ IsRule ((ruleIds.drop 1).take 9) (hostRest r) := by
  refine .cons (isRule_ite rfl) <| .cons (isRule_ite rfl) <| .cons (isRule_ite rfl) <|
    .cons (isRule_ite rfl) <| .cons (isRule_ite rfl) <| .cons (isRule_ite rfl) <|
    .cons (isRule_ite rfl) <| .cons (isRule_ite rfl) <| .cons (isRule_map fun gap => ?_) .nil
  cases gap <;> rfl

theorem forall₂_survey : List.Forall₂ IsRule (ruleIds.drop 20)
    [bootFinding r, kerberosFinding r, wireguardFinding r, openvpnFinding r, dnssecFinding r] :=
  .cons (isRule_ite rfl) <| .cons (isRule_map fun _ => rfl) <| .cons (isRule_map fun _ => rfl) <|
    .cons (isRule_ite rfl) <| .cons (isRule_map fun _ => rfl) .nil

theorem isRule_capableNotConfigured :
    IsRule "pqc-020-pqc-capable-not-configured" (capableNotConfiguredFinding r) := by
  rw [capableNotConfiguredFinding]
  dsimp only
  split
  · exact isRule_none _
  · exact isRule_some rfl

/-- A finding about a listener. -/
theorem mem_serviceFindings {finding : Finding} (hfinding : finding ∈ serviceFindings r.toScanned) :
    finding.ruleId ∈ [libraryRule, goRule, undeterminedRule] ∧
      ∃ listener ∈ r.listeners, finding.subject = listenerSubject listener := by
  rw [serviceFindings] at hfinding
  split at hfinding
  · obtain ⟨listener, hlistener, hfinding⟩ := List.mem_flatMap.mp hfinding
    rcases List.mem_append.mp hfinding with h | h
    · rw [Option.mem_toList, libraryFinding] at h
      split at h
      · cases h
        exact ⟨List.mem_cons_self, listener, hlistener, rfl⟩
      · split at h <;> cases h
        exact ⟨by simp [undetermined], listener, hlistener, rfl⟩
    · rw [Option.mem_toList, goFinding] at h
      split at h
      · cases h
      · split at h <;> cases h
        exact ⟨by simp, listener, hlistener, rfl⟩
  · cases hfinding

/-- A finding about a library. -/
theorem mem_libraryFindings {finding : Finding} (hfinding : finding ∈ libraryFindings r) :
    finding.ruleId ∈ [cryptoLibraryRule, preStandardRule, undeterminedRule] ∧
      startsWith "library:" finding.subject = true := by
  rw [libraryFindings] at hfinding
  split at hfinding
  · obtain ⟨⟨name, lib⟩, -, hfinding⟩ := List.mem_flatMap.mp hfinding
    rw [probeFindings] at hfinding
    split at hfinding
    · cases hfinding
    · split at hfinding
      · obtain ⟨install, -, h⟩ := List.mem_filterMap.mp hfinding
        have hsubject : startsWith "library:" (install.subject name) = true := by
          rw [Install.subject, String.append_assoc, String.append_assoc]
          exact startsWith_append _ _
        rw [installFinding] at h
        dsimp only at h
        split at h <;> cases h
        · exact ⟨by simp [undetermined], hsubject⟩
        · exact ⟨by simp, hsubject⟩
      · have hsubject : startsWith "library:" ("library:" ++ name) = true := startsWith_append _ _
        rw [Option.mem_toList, scannedFinding] at hfinding
        dsimp only at hfinding
        split at hfinding
        · cases hfinding
          exact ⟨by simp, hsubject⟩
        · cases hfinding
          exact ⟨by simp [undetermined], hsubject⟩
        · split at hfinding <;> cases hfinding
          exact ⟨by simp, hsubject⟩
  · cases hfinding

/-- The finding about a connection. -/
theorem of_connectionFinding {conn : String} {props : List Ike.Proposal} {finding : Finding}
    (hfinding : connectionFinding conn props = some finding) :
    finding.ruleId ∈ [classicalIkeRule, undeterminedRule] ∧ finding.subject = "ipsec:" ++ conn := by
  rw [connectionFinding] at hfinding
  split at hfinding
  · cases hfinding
  · split at hfinding
    · cases hfinding
    · split at hfinding <;> cases hfinding
      · exact ⟨by simp [undetermined], rfl⟩
      · exact ⟨by simp, rfl⟩

theorem isRule_mismatchFinding : IsRule mlkemUnsupportedRule (mismatchFinding r.ipsec) :=
  isRule_map fun _ => rfl

/-- A finding about IPsec. -/
theorem mem_ipsecFindings {finding : Finding} (hfinding : finding ∈ ipsecFindings r) :
    finding.ruleId = mlkemUnsupportedRule ∨
      finding.ruleId ∈ [classicalIkeRule, undeterminedRule] ∧
        startsWith "ipsec:" finding.subject = true := by
  rcases List.mem_append.mp hfinding with h | h
  · exact .inl (isRule_mismatchFinding r finding (Option.mem_toList.mp h))
  · obtain ⟨⟨conn, props⟩, -, h⟩ := List.mem_filterMap.mp h
    obtain ⟨hrule, hsubject⟩ := of_connectionFinding h
    rw [hsubject]
    exact .inr ⟨hrule, startsWith_append _ _⟩

/-- The finding about a package. -/
theorem of_packageFinding {libraries : Dict String ScannedLibrary} {entry : BundledPackage}
    {finding : Finding} (hfinding : packageFinding libraries entry = some finding) :
    finding.ruleId = bundledRule ∧ finding.subject = "package:" ++ entry.package := by
  rw [packageFinding] at hfinding
  split at hfinding
  · split at hfinding <;> cases hfinding
    exact ⟨rfl, rfl⟩
  · split at hfinding
    · cases hfinding
    · split at hfinding
      · split at hfinding <;> cases hfinding
        exact ⟨rfl, rfl⟩
      · cases hfinding

theorem mem_bundledFindings {finding : Finding} (hfinding : finding ∈ bundledFindings r) :
    finding.ruleId = bundledRule := by
  rw [bundledFindings] at hfinding
  split at hfinding
  · obtain ⟨entry, -, h⟩ := List.mem_filterMap.mp hfinding
    exact (of_packageFinding h).1
  · cases hfinding

/-- The kinds of files that may be unreadable. -/
def unreadableKinds : List String := ["dnssec:", "wireguard:", "openvpn:"]

/-- A finding about a file. -/
theorem mem_tunnelFindings {finding : Finding} (hfinding : finding ∈ tunnelFindings r) :
    finding.ruleId = undeterminedRule ∧
      ∃ kind ∈ unreadableKinds, startsWith kind finding.subject = true := by
  have hof : ∀ kind path what, (kind ++ ":") ∈ unreadableKinds →
      ∃ kind' ∈ unreadableKinds,
        startsWith kind' (unreadableFinding kind path what).subject = true :=
    fun kind path what hkind => ⟨kind ++ ":", hkind, startsWith_append _ _⟩
  rw [tunnelFindings] at hfinding
  rcases List.mem_append.mp hfinding with h | h
  · obtain ⟨config, -, rfl⟩ := List.mem_map.mp h
    exact ⟨rfl, hof _ _ _ (by decide)⟩
  · split at h
    · rcases List.mem_append.mp h with h | h
      · obtain ⟨path, -, rfl⟩ := List.mem_map.mp h
        exact ⟨rfl, hof _ _ _ (by decide)⟩
      · obtain ⟨config, -, rfl⟩ := List.mem_map.mp h
        exact ⟨rfl, hof _ _ _ (by decide)⟩
    · cases h

/-- Does the tree have an OpenSSL that is too old? -/
def treeFails : Bool := r.offline && r.rest.openssl.pqcNativeExpected.asBool = some false

theorem offlineOpensslFinding_of_treeFails (hfails : treeFails r = true) :
    ∃ finding, offlineOpensslFinding r = some finding ∧ finding.ruleId = opensslRule := by
  rw [treeFails, Bool.and_eq_true, decide_eq_true_iff] at hfails
  rw [offlineOpensslFinding]
  simp only [hfails.1, hfails.2, Bool.not_true, Bool.false_eq_true, if_false, if_true]
  exact ⟨_, rfl, rfl⟩

theorem offlineOpensslFinding_of_not (hfails : treeFails r = false) {finding : Finding}
    (hfinding : offlineOpensslFinding r = some finding) : finding.ruleId = undeterminedRule := by
  rw [offlineOpensslFinding] at hfinding
  dsimp only at hfinding
  split at hfinding
  · cases hfinding
  · next honline =>
      split at hfinding
      · next hold =>
          rw [treeFails, hold, decide_eq_true rfl, Bool.and_true] at hfails
          rw [hfails] at honline
          exact absurd rfl honline
      · split at hfinding <;> cases hfinding
        rfl

/-- The rules about software that fails. -/
def failureRules : List String := (ruleIds.drop 10).take 8

/-- A finding about software that fails is about one of the rules for it, but for `pqc-001`. -/
theorem mem_failuresFound {finding : Finding} (hfinding : finding ∈ failuresFound r) :
    finding.ruleId ∈ failureRules ∨ treeFails r = true ∧ finding.ruleId = opensslRule := by
  rw [failuresFound] at hfinding
  simp only [List.mem_append] at hfinding
  rcases hfinding with ((((h | h) | h) | h) | h) | h
  · rw [Option.mem_toList] at h
    cases hfails : treeFails r with
    | false =>
        rw [offlineOpensslFinding_of_not r hfails h]
        exact .inl (by decide)
    | true =>
        obtain ⟨other, hother, hrule⟩ := offlineOpensslFinding_of_treeFails r hfails
        rw [hother] at h
        cases h
        exact .inr ⟨rfl, hrule⟩
  · have hrules : ∀ ruleId ∈ [libraryRule, goRule, undeterminedRule], ruleId ∈ failureRules := by
      decide
    exact .inl (hrules _ (mem_serviceFindings r h).1)
  · have hrules : ∀ ruleId ∈ [cryptoLibraryRule, preStandardRule, undeterminedRule],
        ruleId ∈ failureRules := by decide
    exact .inl (hrules _ (mem_libraryFindings r h).1)
  · have hrules : ∀ ruleId ∈ [classicalIkeRule, undeterminedRule], ruleId ∈ failureRules := by
      decide
    rcases mem_ipsecFindings r h with hrule | hrule
    · rw [hrule]
      exact .inl (by decide)
    · exact .inl (hrules _ hrule.1)
  · rw [mem_bundledFindings r h]
    exact .inl (by decide)
  · rw [(mem_tunnelFindings r h).1]
    exact .inl (by decide)

end Rules

/-! ## The whole list -/

section Order

variable (r : HostReport)

/-- The findings in the order in which they are detected. -/
def findingsDetected : List Finding :=
  hostFindings r ++ failuresFound r ++ (capableNotConfiguredFinding r).toList ++
    serviceConfigFindings r ++ surveyFindings r

theorem hostFindings_eq :
    hostFindings r = (opensslFinding r).toList ++ (hostRest r).reduceOption := by
  rw [hostFindings, hostRest]
  cases opensslFinding r <;> rfl

theorem part_hostRest : Part (hostRest r).reduceOption 1 10 :=
  part_reduceOption (ruleIds.take 1) (ruleIds.drop 10) (forall₂_hostRest r) (by decide)
    nodup_ruleIds

theorem part_hostFindings : Part (hostFindings r) 0 10 := by
  rw [hostFindings_eq]
  have hfirst : Part (opensslFinding r).toList 0 1 := by
    have hrule := part_of_rule fun finding hfinding =>
      isRule_opensslFinding r finding (Option.mem_toList.mp hfinding)
    exact hrule
  exact hfirst.append (part_hostRest r) (by decide) (by decide)

theorem part_capableNotConfigured : Part (capableNotConfiguredFinding r).toList 18 19 :=
  part_of_rule fun finding hfinding =>
    isRule_capableNotConfigured r finding (Option.mem_toList.mp hfinding)

theorem part_serviceConfig : Part (serviceConfigFindings r) 19 20 := by
  have hrule : ∀ finding ∈ serviceConfigFindings r, finding.ruleId = configRule := by
    intro finding hfinding
    obtain ⟨item, -, rfl⟩ := List.mem_map.mp hfinding
    rfl
  exact part_of_rule hrule

theorem part_survey : Part (surveyFindings r) 20 25 :=
  part_reduceOption (ruleIds.take 20) [] (forall₂_survey r) (by decide) nodup_ruleIds

theorem part_behind : Part ((capableNotConfiguredFinding r).toList ++ serviceConfigFindings r ++
    surveyFindings r) 18 25 := by
  have hconfig := (part_capableNotConfigured r).append (part_serviceConfig r) (by decide)
    (by decide)
  exact hconfig.append (part_survey r) (by decide) (by decide)

theorem ruleIndex_lt_of_mem_failuresFound {finding : Finding}
    (hfinding : finding ∈ failuresFound r) : ruleIndex finding < 18 := by
  rcases mem_failuresFound r hfinding with h | ⟨-, h⟩
  · have hall : ∀ ruleId ∈ failureRules, ruleIds.idxOf ruleId < 18 := by decide
    exact hall _ h
  · rw [ruleIndex, h]
    decide

theorem le_ruleIndex_of_mem_failuresFound (hfails : treeFails r = false) {finding : Finding}
    (hfinding : finding ∈ failuresFound r) : 10 ≤ ruleIndex finding := by
  rcases mem_failuresFound r hfinding with h | ⟨h, -⟩
  · have hall : ∀ ruleId ∈ failureRules, 10 ≤ ruleIds.idxOf ruleId := by decide
    exact hall _ h
  · rw [hfails] at h
    cases h

/-- Each finding is about a rule of the list. -/
theorem mem_ruleIds {finding : Finding} (hfinding : finding ∈ findingsDetected r) :
    finding.ruleId ∈ ruleIds := by
  have hindex : ruleIndex finding < 25 := by
    rw [findingsDetected, List.append_assoc, List.append_assoc, List.mem_append, List.mem_append,
      ← List.append_assoc] at hfinding
    rcases hfinding with (h | h) | h
    · exact ((part_hostFindings r).high finding h).trans (by decide)
    · exact (ruleIndex_lt_of_mem_failuresFound r h).trans (by decide)
    · exact (part_behind r).high finding h
  exact List.idxOf_lt_length_iff.mp hindex

/-- A stable sort leaves the elements with one key as they are. -/
theorem filter_sortedBy {α : Type} (key : α → ℕ) (k : ℕ) (xs : List α) :
    (sortedBy key xs).filter (fun x => key x = k) = xs.filter fun x => key x = k := by
  induction xs with
  | nil => rfl
  | cons x xs ih =>
      have hinsert : ∀ ys : List α, (ys.orderedInsert (fun x y => key x ≤ key y) x).filter
          (fun y => key y = k) = (x :: ys).filter fun y => key y = k := by
        intro ys
        induction ys with
        | nil => rfl
        | cons y ys ihys =>
            rw [List.orderedInsert]
            by_cases hle : key x ≤ key y
            · rw [if_pos hle]
            · rw [if_neg hle, List.filter_cons, ihys]
              -- The two elements change places, and do not both have the key.
              by_cases hx : key x = k
              · have hy : ¬ key y = k := by omega
                simp [hx, hy]
              · simp [hx, List.filter_cons]
      calc (sortedBy key (x :: xs)).filter (fun y => key y = k)
          = (x :: sortedBy key xs).filter (fun y => key y = k) := hinsert _
        _ = (x :: xs).filter fun y => key y = k := by rw [List.filter_cons, ih, List.filter_cons]

/-- The findings of one rule keep the order in which they are detected. -/
theorem filter_buildFindings (ruleId : String) :
    (buildFindings r).filter (·.ruleId = ruleId) =
      (findingsDetected r).filter (·.ruleId = ruleId) := by
  have hfailures : (pqcFailureFindings r).filter (·.ruleId = ruleId) =
      (failuresFound r).filter (·.ruleId = ruleId) := by
    have hsame : ∀ finding ∈ failuresFound r,
        decide (finding.ruleId = ruleId) = decide (ruleIndex finding = ruleIds.idxOf ruleId) := by
      intro finding hfinding
      refine decide_eq_decide.mpr (List.idxOf_inj (mem_ruleIds r ?_)).symm
      rw [findingsDetected]
      simp only [List.mem_append]
      exact .inl (.inl (.inl (.inr hfinding)))
    rw [List.filter_congr hsame, ← filter_sortedBy, pqcFailureFindings]
    exact List.filter_congr fun finding hfinding => hsame finding (mem_sortedBy.mp hfinding)
  rw [buildFindings, findingsDetected]
  simp only [List.filter_append, hfailures]

theorem mem_buildFindings_iff {finding : Finding} :
    finding ∈ buildFindings r ↔ finding ∈ findingsDetected r := by
  rw [buildFindings, findingsDetected, pqcFailureFindings]
  simp only [List.mem_append, mem_sortedBy]

/-- The sections of the list follow each other in the order of the rules, unless a tree with an old
OpenSSL fires a rule for the host behind `pqc-001`. -/
theorem pairwise_buildFindings_iff :
    (buildFindings r).Pairwise (fun first second => ruleIndex first ≤ ruleIndex second) ↔
      (treeFails r = true → ∀ found ∈ hostRest r, found = none) := by
  have hperm : ∀ finding, finding ∈ pqcFailureFindings r ↔ finding ∈ failuresFound r :=
    fun finding => mem_sortedBy
  have hsplit : buildFindings r = hostFindings r ++ (pqcFailureFindings r ++
      ((capableNotConfiguredFinding r).toList ++ serviceConfigFindings r ++
        surveyFindings r)) := by
    rw [buildFindings]
    simp only [List.append_assoc]
  -- From the failures on, the findings are in order in any report.
  have hfailures : (pqcFailureFindings r ++ ((capableNotConfiguredFinding r).toList ++
      serviceConfigFindings r ++ surveyFindings r)).Pairwise
        fun first second => ruleIndex first ≤ ruleIndex second := by
    refine List.pairwise_append.mpr ⟨pairwise_sortedBy _ _, (part_behind r).sorted, ?_⟩
    intro x hx y hy
    have hx' := ruleIndex_lt_of_mem_failuresFound r ((hperm x).mp hx)
    have hy' := (part_behind r).low y hy
    omega
  rw [hsplit, List.pairwise_append]
  constructor
  · rintro ⟨-, -, hle⟩ hfails found hfound
    obtain ⟨old, hold, hrule⟩ := offlineOpensslFinding_of_treeFails r hfails
    cases found with
    | none => rfl
    | some finding =>
        -- The rule stands behind `pqc-001`, which is found after it.
        have hmem : finding ∈ (hostRest r).reduceOption := List.reduceOption_mem_iff.mpr hfound
        have hlow : 1 ≤ ruleIndex finding := (part_hostRest r).low finding hmem
        have hzero : ruleIndex old = 0 := by
          rw [ruleIndex, hrule]
          decide
        have hbefore := hle finding (by rw [hostFindings_eq]; exact List.mem_append_right _ hmem)
          old (List.mem_append_left _ ((hperm old).mpr (by
            rw [failuresFound]
            simp only [List.mem_append, Option.mem_toList]
            exact .inl (.inl (.inl (.inl (.inl hold)))))))
        omega
  · intro hnone
    refine ⟨(part_hostFindings r).sorted, hfailures, fun x hx y hy => ?_⟩
    rcases List.mem_append.mp hy with hy | hy
    · cases hfails : treeFails r with
      | false =>
          have hx' := (part_hostFindings r).high x hx
          have hy' := le_ruleIndex_of_mem_failuresFound r hfails ((hperm y).mp hy)
          omega
      | true =>
          -- Only `pqc-001` itself can stand before.
          rw [hostFindings_eq, List.mem_append] at hx
          rcases hx with hx | hx
          · rw [ruleIndex, isRule_opensslFinding r x (Option.mem_toList.mp hx)]
            exact (show ruleIds.idxOf opensslRule = 0 by decide) ▸ Nat.zero_le _
          · cases hnone hfails _ (List.reduceOption_mem_iff.mp hx)
    · have hx' := (part_hostFindings r).high x hx
      have hy' := (part_behind r).low y hy
      omega

/-- **Findings stand in the order of the rules, and of one rule in the order of their detection,**
unless a tree with an old OpenSSL fires a rule for the host behind `pqc-001`. -/
theorem buildFindings_order :
    ((buildFindings r).Pairwise (fun first second => ruleIndex first ≤ ruleIndex second) ↔
      (treeFails r = true → ∀ found ∈ hostRest r, found = none)) ∧
    (∀ finding ∈ buildFindings r, finding.ruleId ∈ ruleIds) ∧
    ∀ ruleId, (buildFindings r).filter (·.ruleId = ruleId) =
      (findingsDetected r).filter (·.ruleId = ruleId) := by
  refine ⟨pairwise_buildFindings_iff r, ?_, filter_buildFindings r⟩
  intro finding hfinding
  apply mem_ruleIds r
  exact (mem_buildFindings_iff r).mp hfinding

/-- What `build_findings` promises of its list: the rules stand in the order of `RULE_SPECS`, and the
subjects of each rule in the order in which they are detected. -/
structure InRuleOrder (found detected : List Finding) : Prop where
  rules : (found.map Finding.ruleId).Pairwise fun first second =>
    ruleIds.idxOf first ≤ ruleIds.idxOf second
  subjects : ∀ ruleId, (found.filter (·.ruleId = ruleId)).map Finding.subject =
    (detected.filter (·.ruleId = ruleId)).map Finding.subject

/-- **The promise is kept exactly unless a tree whose OpenSSL is too old fires one of the rules for
the host behind `pqc-001`,** the finding about the tree standing behind theirs. -/
theorem inRuleOrder_iff :
    InRuleOrder (buildFindings r) (findingsDetected r) ↔
      (treeFails r = true → ∀ found ∈ hostRest r, found = none) := by
  rw [← pairwise_buildFindings_iff]
  constructor
  · intro horder
    have hrules := horder.rules
    rw [List.pairwise_map] at hrules
    exact hrules
  · intro hsorted
    constructor
    · rw [List.pairwise_map]
      exact hsorted
    · intro ruleId
      rw [filter_buildFindings]

/-- A tree with OpenSSL 3.0 and a trust store of classical certificates. -/
def oldTree : HostReport where
  rest := { openssl := { pqcNativeExpected := .bool false } }
  offline := true
  trustStore := { available := true, totalCerts := some 140 }

/-- `pqc-001` of the tree stands behind `pqc-004`. -/
theorem oldTree_outOfOrder : ¬ InRuleOrder (buildFindings oldTree) (findingsDetected oldTree) := by
  intro horder
  have hrules : (buildFindings oldTree).map Finding.ruleId =
      ["pqc-004-classical-only-trust-store", opensslRule] := by decide +kernel
  have hsorted := horder.rules
  rw [hrules] at hsorted
  exact absurd hsorted (by decide)

end Order

end PqcReadiness.Findings
