import PqcReadiness.Observations.Join

/-!
# What singles a host out

`_candidates` works on positions in four tables.  Here its result is described by
the hosts themselves: `Evidence` says when a record points to a host in a given
tier, `decisiveTier` is the first tier in which it points to any, and
`candidates_eq` computes the result from these two alone.

The tables only enter through `mem_tierHits`.  Everything after it is about the
host list, which is why the same lemmas serve the attribution theorem here and
the independence of the order of the reports in the fleet rollup.
-/

namespace PqcReadiness.Observations

open Lib Gap

variable {fromIsoFormat : String → Option DateTime} {chars : CharData}

/-! ## Evidence -/

/-- The record points to the host, in a tier of evidence. -/
def Evidence (chars : CharData) (rec : Observation fromIsoFormat) (tier : Tier)
    (entry : HostEntry) : Prop :=
  let name := normaliseName chars entry.hostname
  let fqdn := normaliseName chars (rec.text "fqdn")
  let sni := normaliseName chars (rec.text "sni")
  match tier with
  | .fqdn => fqdn ≠ "" ∧ name = fqdn
  | .sni => sni ≠ "" ∧ name = sni
  | .ip => rec.ip ≠ none ∧
      ∃ ln ∈ entry.listeners, ln.bindScope = some .specific ∧ ln.address = rec.ip
  | .shortName => name ≠ "" ∧
      (fqdn ≠ "" ∧ beforeChar '.' name = beforeChar '.' fqdn ∨
        sni ≠ "" ∧ beforeChar '.' name = beforeChar '.' sni)
  | .certificate => certificateKey chars rec ≠ "" ∧ certificateKey chars rec ∈ entry.certSha256

instance (rec : Observation fromIsoFormat) (tier : Tier) :
    DecidablePred (Evidence chars rec tier) := fun _ =>
  match tier with
  | .fqdn => inferInstanceAs (Decidable (_ ∧ _))
  | .sni => inferInstanceAs (Decidable (_ ∧ _))
  | .ip => inferInstanceAs (Decidable (_ ∧ _))
  | .shortName => inferInstanceAs (Decidable (_ ∧ _))
  | .certificate => inferInstanceAs (Decidable (_ ∧ _))

/-- The tiers in the order they are tried. -/
def Tier.all : List Tier := [fqdn, sni, ip, shortName, certificate]

/-- The first tier in which the record points to any host. -/
def decisiveTier (chars : CharData) (rec : Observation fromIsoFormat) (hosts : List HostEntry) :
    Option Tier :=
  Tier.all.find? fun tier => hosts.any fun entry => Evidence chars rec tier entry

/-! ## The tables hold the evidence -/

section Tables

variable (index : HostIndex chars) (rec : Observation fromIsoFormat)

theorem mem_certHosts (i : ℕ) :
    i ∈ certHosts index rec ↔
      ∃ entry, index.hosts[i]? = some entry ∧ Evidence chars rec .certificate entry := by
  unfold certHosts
  dsimp only [Evidence]
  split
  case isTrue hcert =>
    rw [List.mem_dedup, Postings.mem_lookup]
    simp [hcert]
  case isFalse hcert => simp [not_not.mp hcert]

theorem mem_nameKeys {entry : HostEntry} {name : String} (hname : name ≠ "") :
    name ∈ nameKeys chars entry ↔ normaliseName chars entry.hostname = name := by
  unfold nameKeys
  dsimp only
  split
  case isTrue => simp [eq_comm]
  case isFalse hempty => simpa [not_not.mp hempty] using hname.symm

theorem mem_shortNames (short : String) :
    short ∈ shortNames chars rec ↔
      (normaliseName chars (rec.text "fqdn") ≠ "" ∧
          beforeChar '.' (normaliseName chars (rec.text "fqdn")) = short) ∨
        (normaliseName chars (rec.text "sni") ≠ "" ∧
          beforeChar '.' (normaliseName chars (rec.text "sni")) = short) := by
  simp [shortNames]
  constructor
  · rintro ⟨name, ⟨rfl | rfl, hname⟩, rfl⟩
    · exact Or.inl ⟨hname, rfl⟩
    · exact Or.inr ⟨hname, rfl⟩
  · rintro (⟨hname, rfl⟩ | ⟨hname, rfl⟩)
    · exact ⟨_, ⟨Or.inl rfl, hname⟩, rfl⟩
    · exact ⟨_, ⟨Or.inr rfl, hname⟩, rfl⟩

theorem mem_ipKeys {entry : HostEntry} {ip : String} (hip : ip ≠ "") :
    ip ∈ ipKeys entry ↔
      ∃ ln ∈ entry.listeners, ln.bindScope = some .specific ∧ ln.address = some ip := by
  unfold ipKeys
  simp only [List.mem_filterMap, List.mem_filter, decide_eq_true_eq, Option.filter_eq_some_iff]
  constructor
  · rintro ⟨ln, ⟨hln, hscope⟩, haddress, -⟩
    exact ⟨ln, hln, hscope, haddress⟩
  · rintro ⟨ln, hln, hscope, haddress⟩
    exact ⟨ln, ⟨hln, hscope⟩, haddress, by simpa using hip⟩

theorem Observation.ip_ne_empty {ip : String} (hip : rec.ip = some ip) : ip ≠ "" := by
  have hfilter := (Option.filter_eq_some_iff.mp hip).2
  simpa using hfilter

/-- A tier's table holds the hosts that the record points to. -/
theorem mem_tierHits (tier : Tier) (i : ℕ) :
    i ∈ tierHits index rec tier ↔
      ∃ entry, index.hosts[i]? = some entry ∧ Evidence chars rec tier entry := by
  have hname : ∀ name, i ∈ (if name ≠ "" then index.byName.lookup name else []) ↔
      ∃ entry, index.hosts[i]? = some entry ∧
        name ≠ "" ∧ normaliseName chars entry.hostname = name := by
    intro name
    split
    case isTrue hnonempty => simp [Postings.mem_lookup, mem_nameKeys hnonempty, hnonempty]
    case isFalse hempty => simp [not_not.mp hempty]
  cases tier with
  | fqdn => exact hname _
  | sni => exact hname _
  | ip =>
      unfold tierHits
      dsimp only [Evidence]
      cases hip : rec.ip with
      | none => simp
      | some ip => simp [Postings.mem_lookup, mem_ipKeys (rec.ip_ne_empty hip)]
  | shortName =>
      unfold tierHits
      dsimp only [Evidence]
      rw [mem_sortedBy, List.mem_dedup, List.mem_flatMap]
      simp only [mem_shortNames, Postings.mem_lookup]
      constructor
      · rintro ⟨short, hshort, entry, hentry, hkey⟩
        refine ⟨entry, hentry, ?_⟩
        unfold shortKeys at hkey
        dsimp only at hkey
        split at hkey
        case isTrue hnonempty =>
          obtain rfl := List.mem_singleton.mp hkey
          refine ⟨hnonempty, hshort.imp ?_ ?_⟩ <;> exact fun h => ⟨h.1, h.2.symm⟩
        case isFalse => exact absurd hkey (by simp)
      · rintro ⟨entry, hentry, hnonempty, hshort⟩
        refine ⟨beforeChar '.' (normaliseName chars entry.hostname), ?_, entry, hentry, ?_⟩
        · refine hshort.imp ?_ ?_ <;> exact fun h => ⟨h.1, h.2.symm⟩
        · simp [shortKeys, hnonempty]
  | certificate =>
      unfold tierHits
      rw [mem_sortedBy]
      exact mem_certHosts index rec i

end Tables

/-! ## The result in terms of the hosts -/

/-- What a tier that points to a host decides. -/
def tierOutcome (chars : CharData) (rec : Observation fromIsoFormat) (hosts : List HostEntry)
    (tier : Tier) : List ℕ × Option String × List ℕ :=
  let hits := hosts.findIdxs fun entry => Evidence chars rec tier entry
  let narrowed := hosts.findIdxs fun entry =>
    decide (Evidence chars rec tier entry) && decide (Evidence chars rec .certificate entry)
  if hits.length = 1 then (hits, some tier.name, [])
  else if narrowed.length = 1 ∧ tier ≠ .certificate then
    (narrowed, some (tier.name ++ "+certificate"), [])
  else ([], none, hits)

section Candidates

variable (index : HostIndex chars) (rec : Observation fromIsoFormat)

theorem sortedHits_eq (tier : Tier) :
    sortedBy id (tierHits index rec tier).dedup =
      index.hosts.findIdxs fun entry => Evidence chars rec tier entry :=
  sortedSet_eq_findIdxs fun i => by simpa using mem_tierHits index rec tier i

theorem narrowed_eq (tier : Tier) :
    (index.hosts.findIdxs fun entry => Evidence chars rec tier entry).filter
        (fun i => decide (i ∈ certHosts index rec)) =
      index.hosts.findIdxs fun entry =>
        decide (Evidence chars rec tier entry) && decide (Evidence chars rec .certificate entry) :=
  filter_findIdxs fun i => by simpa using mem_certHosts index rec i

theorem findIdxs_ne_nil_iff (chars : CharData) (tier : Tier) (hosts : List HostEntry) :
    (hosts.findIdxs fun entry => Evidence chars rec tier entry) ≠ [] ↔
      hosts.any fun entry => Evidence chars rec tier entry := by
  rw [Ne, List.findIdxs_eq_nil_iff, List.any_eq_true]
  simp

/-- The loop stops at the first tier that points to a host. -/
theorem firstTier_eq (tiers : List Tier) :
    firstTier (tierHits index rec) (certHosts index rec) tiers =
      match tiers.find? fun tier => index.hosts.any fun entry => Evidence chars rec tier entry with
      | none => ([], none, [])
      | some tier => tierOutcome chars rec index.hosts tier := by
  induction tiers with
  | nil => rfl
  | cons tier rest ih =>
      have hany := findIdxs_ne_nil_iff rec chars tier index.hosts
      rw [firstTier]
      simp only [sortedHits_eq, narrowed_eq]
      by_cases hfound : index.hosts.any fun entry => Evidence chars rec tier entry
      · have hpos : 0 < (index.hosts.findIdxs fun entry => Evidence chars rec tier entry).length :=
          List.length_pos_iff.mpr (hany.mpr hfound)
        simp only [List.find?_cons, hfound]
        dsimp only [tierOutcome]
        by_cases hone : (index.hosts.findIdxs fun entry => Evidence chars rec tier entry).length = 1
        · rw [if_pos hone, if_pos hone]
        · rw [if_neg hone, if_neg hone, if_pos (by omega)]
      · have hnil : (index.hosts.findIdxs fun entry => Evidence chars rec tier entry) = [] := by
          by_contra hne
          exact hfound (hany.mp hne)
        rw [Bool.not_eq_true] at hfound
        simp only [List.find?_cons, hfound]
        rw [hnil, ← ih]
        rfl

theorem candidates_eq :
    candidates index rec =
      match decisiveTier chars rec index.hosts with
      | none => ([], none, [])
      | some tier => tierOutcome chars rec index.hosts tier :=
  firstTier_eq index rec Tier.all

end Candidates

/-! ## When a tier settles on a host -/

section Outcome

variable {rec : Observation fromIsoFormat} {hosts : List HostEntry} {tier : Tier}

/-- The record points to the host at a position. -/
def PointsTo (chars : CharData) (rec : Observation fromIsoFormat) (hosts : List HostEntry)
    (tier : Tier) (i : ℕ) : Prop :=
  ∃ entry, hosts[i]? = some entry ∧ Evidence chars rec tier entry

/-- The evidence of a tier singles out one host: it points to no other, or it
points to several of which one alone has the certificate. -/
def SinglesOut (chars : CharData) (rec : Observation fromIsoFormat) (hosts : List HostEntry)
    (tier : Tier) (h : ℕ) : Prop :=
  (∀ i, PointsTo chars rec hosts tier i ↔ i = h) ∨
    tier ≠ .certificate ∧
      (∃ i j, i ≠ j ∧ PointsTo chars rec hosts tier i ∧ PointsTo chars rec hosts tier j) ∧
      ∀ i, PointsTo chars rec hosts tier i ∧ PointsTo chars rec hosts .certificate i ↔ i = h

theorem hits_eq_singleton_iff {h : ℕ} :
    (hosts.findIdxs fun entry => Evidence chars rec tier entry) = [h] ↔
      ∀ i, PointsTo chars rec hosts tier i ↔ i = h := by
  rw [findIdxs_eq_singleton_iff]
  simp [PointsTo]

theorem narrowed_eq_singleton_iff {h : ℕ} :
    (hosts.findIdxs fun entry =>
        decide (Evidence chars rec tier entry) && decide (Evidence chars rec .certificate entry)) =
      [h] ↔
      ∀ i, PointsTo chars rec hosts tier i ∧ PointsTo chars rec hosts .certificate i ↔ i = h := by
  rw [findIdxs_eq_singleton_iff]
  have hboth : ∀ i, (∃ entry, hosts[i]? = some entry ∧ (decide (Evidence chars rec tier entry) &&
      decide (Evidence chars rec .certificate entry)) = true) ↔
        PointsTo chars rec hosts tier i ∧ PointsTo chars rec hosts .certificate i := by
    intro i
    unfold PointsTo
    cases hosts[i]? <;> simp
  simp only [hboth]

theorem mem_hits_iff (i : ℕ) :
    i ∈ (hosts.findIdxs fun entry => Evidence chars rec tier entry) ↔
      PointsTo chars rec hosts tier i := by
  rw [mem_findIdxs_iff]
  simp [PointsTo]

/-- A tier that points to a host returns the one it singles out, and otherwise
all that it points to. -/
theorem tierOutcome_spec
    (hnil : (hosts.findIdxs fun entry => Evidence chars rec tier entry) ≠ []) :
    (∀ h, (tierOutcome chars rec hosts tier).1 = [h] ↔ SinglesOut chars rec hosts tier h) ∧
      (∀ h, (tierOutcome chars rec hosts tier).1 = [h] →
        (tierOutcome chars rec hosts tier).2.2 = []) ∧
      ((∀ h, ¬ SinglesOut chars rec hosts tier h) →
        (tierOutcome chars rec hosts tier).1 = [] ∧
          (tierOutcome chars rec hosts tier).2.2 =
            hosts.findIdxs fun entry => Evidence chars rec tier entry) := by
  unfold tierOutcome
  dsimp only
  by_cases hone : (hosts.findIdxs fun entry => Evidence chars rec tier entry).length = 1
  · rw [if_pos hone]
    obtain ⟨only, honly⟩ := List.length_eq_one_iff.mp hone
    have hsingle := hits_eq_singleton_iff.mp honly
    have hout : ∀ h, (hosts.findIdxs fun entry => Evidence chars rec tier entry) = [h] ↔
        SinglesOut chars rec hosts tier h := by
      intro h
      rw [hits_eq_singleton_iff]
      refine ⟨Or.inl, ?_⟩
      rintro (hall | ⟨-, ⟨i, j, hij, hi, hj⟩, -⟩)
      · exact hall
      · exact absurd (((hsingle i).mp hi).trans ((hsingle j).mp hj).symm) hij
    exact ⟨hout, fun _ _ => rfl, fun hnone => absurd ((hout only).mp honly) (hnone only)⟩
  · rw [if_neg hone]
    have hseveral := exists_pair_of_length_ne_one List.nodup_findIdxs hnil hone
    simp only [mem_hits_iff] at hseveral
    have hnotLeft : ∀ h, ¬ ∀ i, PointsTo chars rec hosts tier i ↔ i = h := by
      intro h hall
      rw [← hits_eq_singleton_iff] at hall
      exact hone (by rw [hall]; rfl)
    by_cases hnarrow : (hosts.findIdxs fun entry => decide (Evidence chars rec tier entry) &&
        decide (Evidence chars rec .certificate entry)).length = 1 ∧ tier ≠ .certificate
    · rw [if_pos hnarrow]
      obtain ⟨only, honly⟩ := List.length_eq_one_iff.mp hnarrow.1
      have hout : ∀ h, (hosts.findIdxs fun entry => decide (Evidence chars rec tier entry) &&
          decide (Evidence chars rec .certificate entry)) = [h] ↔
            SinglesOut chars rec hosts tier h := by
        intro h
        rw [narrowed_eq_singleton_iff]
        refine ⟨fun hall => Or.inr ⟨hnarrow.2, hseveral, hall⟩, ?_⟩
        rintro (hall | ⟨-, -, hall⟩)
        · exact absurd hall (hnotLeft h)
        · exact hall
      exact ⟨hout, fun _ _ => rfl, fun hnone => absurd ((hout only).mp honly) (hnone only)⟩
    · rw [if_neg hnarrow]
      refine ⟨fun h => iff_of_false (by simp) ?_, fun h hh => absurd hh (by simp),
        fun _ => ⟨rfl, rfl⟩⟩
      rintro (hall | ⟨htier, -, hall⟩)
      · exact hnotLeft h hall
      · rw [← narrowed_eq_singleton_iff] at hall
        exact hnarrow ⟨by rw [hall]; rfl, htier⟩

end Outcome

/-! ## The socket of a matched record -/

theorem normaliseIp_ne_empty {text ip : String} (hip : normaliseIp text = some ip) : ip ≠ "" := by
  obtain ⟨addr, hparse, rfl⟩ := Option.map_eq_some_iff.mp hip
  have htext := IpAddress.toText_ne_empty hparse
  split
  case h_1 octets hmapped =>
    refine IpAddress.quadText_ne_empty ?_
    unfold IpAddress.mapped at hmapped
    split at hmapped
    case h_1 =>
      obtain rfl := Option.some.inj hmapped
      simp
    case h_2 => exact absurd hmapped (by simp)
  case h_2 => exact htext

/-- The record's address is its `ip`, normalised. -/
theorem Observation.ip_eq (rec : Observation fromIsoFormat) :
    rec.ip = (rec.text? "ip").bind normaliseIp := by
  have hempty : normaliseIp "" = none := by decide +kernel
  unfold Observation.ip
  cases htext : rec.text? "ip" with
  | none => rfl
  | some text =>
      by_cases hblank : text = ""
      · simp [Option.filter_some, hblank, hempty]
      · cases hip : normaliseIp text with
        | none => simp [Option.filter_some, hblank, hip]
        | some ip => simp [Option.filter_some, hblank, hip, normaliseIp_ne_empty hip]

theorem pickListener_spec {entry : HostEntry} {rec : Observation fromIsoFormat}
    {ln : CompactListener} (hpick : (pickListener entry rec).1 = some ln) :
    ln ∈ entry.listeners ∧ reachable rec ln := by
  have hmem : ln ∈ entry.listeners.filter (reachable rec) := by
    unfold pickListener at hpick
    split at hpick
    case h_1 => exact absurd hpick (by simp)
    case h_2 first rest hhits =>
      rw [hhits]
      dsimp only at hpick
      split at hpick
      case h_1 inHost _ hns =>
        obtain rfl := Option.some.inj hpick
        have hfound : inHost ∈ (first :: rest).filter fun ln => ln.networkNamespace = some .host := by
          rw [hns]
          exact List.mem_cons_self ..
        exact (List.mem_filter.mp hfound).1
      case h_2 =>
        obtain rfl := Option.some.inj hpick
        exact List.mem_cons_self ..
  exact List.mem_filter.mp hmem

section Matched

variable {index : HostIndex chars} {rec : Observation fromIsoFormat} {tooOld : ℕ → Bool}

/-- The join reads the first of the matched hosts, and there is no second one. -/
theorem candidates_eq_singleton {h : ℕ} (hhead : (candidates index rec).1.head? = some h) :
    (candidates index rec).1 = [h] := by
  have hone : ∀ {hits : List ℕ}, hits.length = 1 → hits.head? = some h → hits = [h] := by
    intro hits hlength hhead
    obtain ⟨only, rfl⟩ := List.length_eq_one_iff.mp hlength
    simpa using hhead
  rw [candidates_eq] at hhead ⊢
  split at hhead
  case h_1 => exact absurd hhead (by simp)
  case h_2 tier _ =>
    unfold tierOutcome at hhead ⊢
    dsimp only at hhead ⊢
    split at hhead
    case isTrue hlength =>
      rw [if_pos hlength]
      exact hone hlength hhead
    case isFalse hlength =>
      rw [if_neg hlength]
      split at hhead
      case isTrue hnarrow =>
        rw [if_pos hnarrow]
        exact hone hnarrow.1 hhead
      case isFalse => exact absurd hhead (by simp)

theorem socketStatus_matched {entry : HostEntry} (hmatched : (socketStatus entry rec).1 = .matched) :
    ∃ ln count, (socketStatus entry rec).2.1 = some (ln, count) ∧
      (pickListener entry rec).1 = some ln := by
  unfold socketStatus at hmatched ⊢
  split at hmatched
  case isTrue hscan =>
    rw [if_pos hscan]
    rcases hpick : pickListener entry rec with ⟨found, count, note⟩
    rw [hpick] at hmatched
    cases found with
    | none => cases hservice : entry.serviceScan <;> simp [hservice] at hmatched
    | some ln => exact ⟨ln, count, rfl, rfl⟩
  case isFalse => exact absurd hmatched (by decide)

theorem attributed_status (basis : Option String) (entry : HostEntry) :
    (attributed tooOld chars basis entry rec).status = (socketStatus entry rec).1 := by
  unfold attributed
  dsimp only
  split <;> rfl

theorem attributed_listener (basis : Option String) (entry : HostEntry) :
    (attributed tooOld chars basis entry rec).listener = (socketStatus entry rec).2.1 := by
  unfold attributed
  dsimp only
  split <;> rfl

theorem attributed_host (basis : Option String) (entry : HostEntry) :
    (attributed tooOld chars basis entry rec).host = some entry.hostname := by
  unfold attributed
  dsimp only
  split <;> rfl

/-- A record that has a host is attributed to the one candidate. -/
theorem matchRecord_cases (tooOld : ℕ → Bool) (index : HostIndex chars)
    (rec : Observation fromIsoFormat) :
    ((matchRecord tooOld index rec).status = .ambiguous ∨
        (matchRecord tooOld index rec).status = .unmatchedHost) ∧
        (matchRecord tooOld index rec).host = none ∨
      ∃ h entry, (candidates index rec).1 = [h] ∧ index.hosts[h]? = some entry ∧
        matchRecord tooOld index rec =
          attributed tooOld chars (candidates index rec).2.1 entry rec := by
  rcases hfound : candidates index rec with ⟨hits, basis, ambiguous⟩
  by_cases hambiguous : ambiguous ≠ []
  · have hmatch : (matchRecord tooOld index rec).status = .ambiguous ∧
        (matchRecord tooOld index rec).host = none := by
      simp only [matchRecord, hfound, if_pos hambiguous]
      exact ⟨trivial, rfl⟩
    exact Or.inl ⟨Or.inl hmatch.1, hmatch.2⟩
  · cases hentry : hits.head?.bind (index.hosts[·]?) with
    | none =>
        have hmatch : matchRecord tooOld index rec = newMatch chars rec := by
          simp only [matchRecord, hfound, if_neg hambiguous, hentry]
        rw [hmatch]
        exact Or.inl ⟨Or.inr rfl, rfl⟩
    | some entry =>
        have hmatch : matchRecord tooOld index rec = attributed tooOld chars basis entry rec := by
          simp only [matchRecord, hfound, if_neg hambiguous, hentry]
        obtain ⟨h, hhead, hget⟩ := Option.bind_eq_some_iff.mp hentry
        have hsingle : (candidates index rec).1 = [h] := by
          refine candidates_eq_singleton ?_
          rw [hfound]
          exact hhead
        rw [hfound] at hsingle
        exact Or.inr ⟨h, entry, hsingle, hget, hmatch⟩

end Matched

/-! ## Attribution -/

section Reports

variable (tooOld : ℕ → Bool) (reports : List Report) (rec : Observation fromIsoFormat)

theorem decisiveTier_eq_none_iff (hosts : List HostEntry) :
    decisiveTier chars rec hosts = none ↔ ∀ tier i, ¬ PointsTo chars rec hosts tier i := by
  have hmem : ∀ tier, tier ∈ Tier.all := by
    intro tier
    cases tier <;> decide
  unfold decisiveTier
  rw [List.find?_eq_none]
  constructor
  · rintro hnone tier i ⟨entry, hentry, hpoints⟩
    refine hnone tier (hmem tier) ?_
    rw [List.any_eq_true]
    exact ⟨entry, List.mem_of_getElem? hentry, by simpa using hpoints⟩
  · intro hnone tier _ hany
    obtain ⟨entry, hentry, hpoints⟩ := List.any_eq_true.mp hany
    obtain ⟨i, hi⟩ := List.mem_iff_getElem?.mp hentry
    exact hnone tier i ⟨entry, hi, by simpa using hpoints⟩

theorem hits_ne_nil_of_decisiveTier {hosts : List HostEntry} {tier : Tier}
    (htier : decisiveTier chars rec hosts = some tier) :
    (hosts.findIdxs fun entry => Evidence chars rec tier entry) ≠ [] := by
  rw [findIdxs_ne_nil_iff]
  have hany := List.find?_some (p := fun tier =>
    hosts.any fun entry => decide (Evidence chars rec tier entry)) htier
  exact hany

/-- A matched record's socket is one of its host, on its port and transport, and
open to the network at its address. -/
theorem matched_listener
    (hmatched : (matchRecord tooOld (HostIndex.ofReports chars fromIsoFormat reports)
      rec).status = .matched) :
    ∃ h report listener count,
      (candidates (HostIndex.ofReports chars fromIsoFormat reports) rec).1 = [h] ∧
        reports[h]? = some report ∧
        (matchRecord tooOld (HostIndex.ofReports chars fromIsoFormat reports) rec).host =
          some report.hostname ∧
        listener ∈ report.serviceCryptoLinkage.listeners ∧
        (matchRecord tooOld (HostIndex.ofReports chars fromIsoFormat reports)
          rec).listener = some (compactListener listener, count) ∧
        reachable rec (compactListener listener) := by
  rcases matchRecord_cases tooOld (HostIndex.ofReports chars fromIsoFormat reports) rec with
    ⟨hstatus | hstatus, -⟩ | ⟨h, entry, hsingle, hentry, hmatch⟩
  · exact absurd (hmatched.symm.trans hstatus) (by decide)
  · exact absurd (hmatched.symm.trans hstatus) (by decide)
  · rw [hmatch, attributed_status] at hmatched
    obtain ⟨ln, count, hlistener, hpick⟩ := socketStatus_matched hmatched
    obtain ⟨hmem, hreach⟩ := pickListener_spec hpick
    rw [HostIndex.hosts_ofReports, List.getElem?_map, Option.map_eq_some_iff] at hentry
    obtain ⟨report, hreport, rfl⟩ := hentry
    have hln : ∃ listener ∈ report.serviceCryptoLinkage.listeners,
        compactListener listener = ln := by
      unfold hostEntry at hmem
      dsimp only at hmem
      split at hmem
      case isTrue => exact List.mem_map.mp hmem
      case isFalse => exact absurd hmem (by simp)
    obtain ⟨listener, hmember, rfl⟩ := hln
    refine ⟨h, report, listener, count, hsingle, hreport, ?_, hmember, ?_, hreach⟩
    · rw [hmatch, attributed_host]
      rfl
    · rw [hmatch, attributed_listener, hlistener]

theorem reachable_iff (listener : Listener) :
    reachable rec (compactListener listener) ↔
      listener.protocol = some rec.protocol.transport ∧ listener.port = some rec.port ∧
        (listener.bindScope = some .any ∨ listener.bindScope = some .specific) ∧
        ∀ ip, (rec.text? "ip").bind normaliseIp = some ip → listener.bindScope = some .specific →
          listener.address.bind normaliseIp = some ip := by
  rw [← rec.ip_eq, ← rec.transport_eq]
  unfold reachable compactListener
  cases rec.ip <;> simp [and_assoc]
  tauto

/-- **A record is attributed to a host only when the evidence singles it out.**
In the first tier that points to any host, the result is the host that the tier
singles out; without one, it is the whole tier as ambiguous; and it is nothing
when no tier points to a host.  A matched record's socket belongs to that host,
is on the record's port and its protocol's transport, and is a wildcard bind or
a specific one that is not on another address. -/
theorem attribution_singles_out (tooOld : ℕ → Bool) (reports : List Report)
    (rec : Observation fromIsoFormat) :
    let index := HostIndex.ofReports chars fromIsoFormat reports
    let hosts := reports.map (hostEntry chars fromIsoFormat)
    let found := candidates index rec
    (∀ h, found.1 = [h] ↔
        ∃ tier, decisiveTier chars rec hosts = some tier ∧ SinglesOut chars rec hosts tier h) ∧
      (∀ h, found.1 = [h] → found.2.2 = []) ∧
      (∀ tier, decisiveTier chars rec hosts = some tier →
        (∀ h, ¬ SinglesOut chars rec hosts tier h) →
          found.1 = [] ∧ ∀ i, i ∈ found.2.2 ↔ PointsTo chars rec hosts tier i) ∧
      ((∀ tier i, ¬ PointsTo chars rec hosts tier i) → found = ([], none, [])) ∧
      ((matchRecord tooOld index rec).status = .matched →
        ∃ h report listener count, found.1 = [h] ∧ reports[h]? = some report ∧
          (matchRecord tooOld index rec).host = some report.hostname ∧
          listener ∈ report.serviceCryptoLinkage.listeners ∧
          (matchRecord tooOld index rec).listener = some (compactListener listener, count) ∧
          listener.protocol = some rec.protocol.transport ∧ listener.port = some rec.port ∧
          (listener.bindScope = some .any ∨ listener.bindScope = some .specific) ∧
          ∀ ip, (rec.text? "ip").bind normaliseIp = some ip →
            listener.bindScope = some .specific → listener.address.bind normaliseIp = some ip) := by
  intro index hosts found
  have hfound : found = match decisiveTier chars rec hosts with
      | none => ([], none, [])
      | some tier => tierOutcome chars rec hosts tier := by
    rw [show hosts = index.hosts from (HostIndex.hosts_ofReports fromIsoFormat reports).symm]
    exact candidates_eq index rec
  refine ⟨?_, ?_, ?_, ?_, ?_⟩
  · intro h
    cases htier : decisiveTier chars rec hosts with
    | none => simp [hfound, htier]
    | some tier =>
        have hspec := tierOutcome_spec (hits_ne_nil_of_decisiveTier rec htier)
        simp [hfound, htier, hspec.1 h]
  · intro h hh
    cases htier : decisiveTier chars rec hosts with
    | none => simp [hfound, htier]
    | some tier =>
        have hspec := tierOutcome_spec (hits_ne_nil_of_decisiveTier rec htier)
        rw [hfound, htier] at hh ⊢
        exact hspec.2.1 h hh
  · intro tier htier hnone
    have hspec := tierOutcome_spec (hits_ne_nil_of_decisiveTier rec htier)
    rw [hfound, htier]
    obtain ⟨hnil, hall⟩ := hspec.2.2 hnone
    refine ⟨hnil, ?_⟩
    intro i
    rw [hall, mem_hits_iff]
  · intro hnone
    rw [hfound, (decisiveTier_eq_none_iff rec hosts).mpr hnone]
  · intro hmatched
    obtain ⟨h, report, listener, count, hsingle, hreport, hhost, hmember, hlistener, hreach⟩ :=
      matched_listener tooOld reports rec hmatched
    exact ⟨h, report, listener, count, hsingle, hreport, hhost, hmember, hlistener,
      (reachable_iff rec listener).mp hreach⟩

end Reports

end PqcReadiness.Observations
