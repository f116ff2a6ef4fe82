import PqcReadiness.Bom.Builds
import PqcReadiness.Bom.Libraries

/-!
# Joining the CBOM with the SBOM

A library component of the CBOM that comes from a row of `bundled_crypto` should have the purl of a
component of the SBOM.  A row with what its reader knows of a package finds a purl in the index.  A
probed rpm database is scanned for names and versions; there a row finds a purl if these name a
build, and is given a purl of its own otherwise (`purl_join_iff`).
-/

namespace PqcReadiness.Bom

open PqcReadiness.Lib PqcReadiness.Packages

variable {lower : String → String} {context : Context} {inventory : List Listed}
  {host : PackageHost}

/-! ## The components of the SBOM -/

section Components

theorem startsWith_append (first rest : String) : startsWith first (first ++ rest) = true := by
  rw [startsWith, String.toList_append]
  exact List.isPrefixOf_iff_prefix.mpr (List.prefix_append _ _)

/-- The reference of a component names its purl. -/
theorem refOf_inj {purl other name name' : String} (hpurl : WithoutHash purl)
    (hother : WithoutHash other) (hsame : refOf purl name = refOf other name') : purl = other := by
  have hlists := congrArg String.toList hsame
  unfold refOf at hlists
  split at hlists
  · split at hlists
    · rw [String.toList_append, String.toList_append, String.toList_append, String.toList_append,
        List.append_assoc, List.append_assoc] at hlists
      exact String.toList_inj.mp (append_cons_inj hpurl hother hlists).1
    · refine absurd ?_ hother
      rw [← hlists, String.toList_append, String.toList_append]
      exact List.mem_append_left _ (List.mem_append_right _ List.mem_cons_self)
  · split at hlists
    · refine absurd ?_ hpurl
      rw [hlists, String.toList_append, String.toList_append]
      exact List.mem_append_left _ (List.mem_append_right _ List.mem_cons_self)
    · exact String.toList_inj.mp hlists

/-- The components are those of some packages. -/
structure Lists (lower : String → String) (context : Context) (state : SbomState)
    (inventory : List Listed) : Prop where
  sound : ∀ ref component, state.components.get? ref = some component →
    ∃ pkg ∈ inventory, ∃ purl, packagePurl lower context pkg = some purl ∧
      component.purl = some purl ∧ ref = refOf purl pkg.name
  complete : ∀ pkg ∈ inventory, pkg.name ≠ "gpg-pubkey" → ∀ purl,
    packagePurl lower context pkg = some purl →
      (state.components.get? (refOf purl pkg.name)).isSome

theorem sbomTurn_lists {state : SbomState} (hlists : Lists lower context state inventory)
    (pkg : Listed) :
    Lists lower context (sbomTurn lower context state pkg) (inventory ++ [pkg]) := by
  have hkeep : ∀ {next : SbomState}, next.components = state.components →
      (pkg.name ≠ "gpg-pubkey" → packagePurl lower context pkg = none) →
        Lists lower context next (inventory ++ [pkg]) := by
    intro next hnext hnone
    refine ⟨fun ref component hget => ?_, fun other hother hname purl hpurl => ?_⟩
    · rw [hnext] at hget
      obtain ⟨first, hfirst, hsame⟩ := hlists.sound ref component hget
      exact ⟨first, List.mem_append_left _ hfirst, hsame⟩
    · rw [hnext]
      rcases List.mem_append.mp hother with hother | hother
      · exact hlists.complete other hother hname purl hpurl
      · rw [List.mem_singleton.mp hother] at hname hpurl
        rw [hnone hname] at hpurl
        cases hpurl
  unfold sbomTurn
  split
  · next hkey => exact hkeep rfl fun hne => absurd hkey hne
  · next hkey =>
      cases hpurl : packagePurl lower context pkg with
      | none => exact hkeep rfl fun _ => hpurl
      | some purl =>
          dsimp only
          refine ⟨fun ref component hget => ?_, fun other hother hname found hfound => ?_⟩
          · rw [Dict.get?_update] at hget
            split at hget
            · next href =>
                cases hold : state.components.get? (refOf purl pkg.name) with
                | none =>
                    rw [hold] at hget
                    obtain rfl := Option.some.inj hget
                    exact ⟨pkg, List.mem_append_right _ (List.mem_singleton.mpr rfl), purl, hpurl,
                      rfl, href⟩
                | some old =>
                    rw [hold] at hget
                    obtain rfl := Option.some.inj hget
                    obtain ⟨first, hfirst, other, hother, hcomponent, hsame⟩ :=
                      hlists.sound _ _ hold
                    exact ⟨first, List.mem_append_left _ hfirst, other, hother, hcomponent,
                      href.trans hsame⟩
            · obtain ⟨first, hfirst, hsame⟩ := hlists.sound ref component hget
              exact ⟨first, List.mem_append_left _ hfirst, hsame⟩
          · rw [Dict.get?_update]
            split
            · rfl
            · next hne =>
                rcases List.mem_append.mp hother with hother | hother
                · exact hlists.complete other hother hname found hfound
                · obtain rfl := List.mem_singleton.mp hother
                  obtain rfl := Option.some.inj (hpurl.symm.trans hfound)
                  exact absurd rfl hne

theorem foldl_sbomTurn (inventory : List Listed) :
    Lists lower context (inventory.foldl (sbomTurn lower context) {}) inventory := by
  induction inventory using List.reverseRecOn with
  | nil => exact ⟨nofun, nofun⟩
  | append_singleton inventory pkg ih =>
      rw [List.foldl_append, List.foldl_cons, List.foldl_nil]
      exact sbomTurn_lists ih pkg

/-- The purls of an SBOM. -/
def Sbom.HasPurl (sbom : Sbom) (purl : String) : Prop :=
  ∃ component ∈ sbom.components, component.purl = some purl

instance (sbom : Sbom) (purl : String) : Decidable (sbom.HasPurl purl) :=
  inferInstanceAs (Decidable (∃ component ∈ sbom.components, component.purl = some purl))

theorem hasPurl_of_mem (facts : HostFacts) {pkg : Listed} {purl : String}
    (hpkg : pkg ∈ installedPackages host context.osRelease.family)
    (hname : pkg.name ≠ "gpg-pubkey") (hpurl : packagePurl lower context pkg = some purl) :
    (buildSbom lower context host facts).HasPurl purl := by
  have hlists := @foldl_sbomTurn lower context
    (installedPackages host context.osRelease.family)
  obtain ⟨component, hget⟩ :=
    Option.isSome_iff_exists.mp (hlists.complete pkg hpkg hname purl hpurl)
  obtain ⟨other, -, found, hfound, hcomponent, href⟩ := hlists.sound _ _ hget
  have hsame : purl = found :=
    refOf_inj (withoutHash_packagePurl hpurl) (withoutHash_packagePurl hfound) href
  refine ⟨component, List.mem_cons_of_mem _ (List.mem_map.mpr
    ⟨(refOf purl pkg.name, component), ?_, rfl⟩), ?_⟩
  · exact mem_sortedBy.mpr ((Dict.mem_entries_iff _).mpr hget)
  · rw [hcomponent, hsame]

theorem mem_of_hasPurl {facts : HostFacts} {purl : String}
    (hpurl : (buildSbom lower context host facts).HasPurl purl) :
    ∃ pkg ∈ installedPackages host context.osRelease.family,
      packagePurl lower context pkg = some purl := by
  obtain ⟨component, hmem, hcomponent⟩ := hpurl
  have hlists := @foldl_sbomTurn lower context
    (installedPackages host context.osRelease.family)
  rcases List.mem_cons.mp hmem with rfl | hmem
  · cases hcomponent
  · obtain ⟨⟨ref, other⟩, hentry, rfl⟩ := List.mem_map.mp hmem
    have hget := (Dict.mem_entries_iff _).mp (mem_sortedBy.mp hentry)
    obtain ⟨pkg, hpkg, found, hfound, hsame, -⟩ := hlists.sound _ _ hget
    obtain rfl := Option.some.inj (hsame.symm.trans hcomponent)
    exact ⟨pkg, hpkg, hfound⟩

end Components

/-! ## The rows -/

section Rows

variable {row : BundledRow} {family : String}

/-- No pattern names the signing keys. -/
theorem matchesName_gpgPubkey {pattern : Pattern} (hpattern : pattern ∈ patternsOf family) :
    pattern.matchesName "gpg-pubkey" = false := by
  have hall : ∀ entry ∈ bundledCryptoByFamily, ∀ pattern ∈ entry.2,
      pattern.matchesName "gpg-pubkey" = false := by decide +kernel
  unfold patternsOf at hpattern
  cases hfind : find family bundledCryptoByFamily with
  | none =>
      rw [hfind] at hpattern
      cases hpattern
  | some patterns =>
      rw [hfind] at hpattern
      exact hall _ (mem_of_find_eq_some hfind) pattern hpattern

/-- A row is that of a package of the inventory. -/
theorem mem_classifyBundledCrypto {pkgs : List Package}
    (hrow : row ∈ classifyBundledCrypto pkgs family) :
    ∃ pkg ∈ pkgs, pkg.name ≠ "gpg-pubkey" ∧ ∃ hint, row = rowOf pkg hint := by
  have hfold : ∀ state : ClassifyState,
      row ∈ (pkgs.foldl (classifyTurn (patternsOf family)) state).out → row ∈ state.out ∨
        ∃ pkg ∈ pkgs, pkg.name ≠ "gpg-pubkey" ∧ ∃ hint, row = rowOf pkg hint := by
    clear hrow
    induction pkgs with
    | nil => exact fun state hmem => Or.inl hmem
    | cons pkg rest ih =>
        intro state hmem
        rcases ih _ hmem with hmem | ⟨other, hother, hrow⟩
        · unfold classifyTurn at hmem
          split at hmem
          · exact Or.inl hmem
          · split at hmem
            · exact Or.inl hmem
            · next pattern hfind =>
                rcases List.mem_append.mp hmem with hmem | hmem
                · exact Or.inl hmem
                · refine Or.inr ⟨pkg, List.mem_cons_self, fun hname => ?_, pattern.hint,
                    List.mem_singleton.mp hmem⟩
                  have hmatch := List.find?_some hfind
                  rw [hname, matchesName_gpgPubkey (List.mem_of_find?_eq_some hfind)] at hmatch
                  cases hmatch
        · exact Or.inr ⟨other, List.mem_cons_of_mem _ hother, hrow⟩
  rcases hfold {} hrow with hmem | hrow
  · cases hmem
  · exact hrow

/-- The host has an rpm database, and no reader for its family. -/
structure ProbedRpm (context : Context) (host : PackageHost) (pkgs : List Package) : Prop where
  family : context.osRelease.family ∉ plannedFamilies
  located : host.rpmdbLocated = true
  rpm : host.rpm = some pkgs

theorem ProbedRpm.probe {pkgs : List Package} (hprobed : ProbedRpm context host pkgs) :
    probePackageDb host =
      some ⟨.rpm, pkgs.map fun pkg => { name := pkg.name, version := pkg.version }⟩ := by
  unfold probePackageDb
  rw [if_pos hprobed.located, hprobed.rpm]
  rfl

theorem probePackageDb_rpm {found : ProbedDb} (hfound : probePackageDb host = some found)
    (hkind : found.kind = .rpm) : ∃ pkgs, host.rpmdbLocated = true ∧ host.rpm = some pkgs := by
  have hother : ∀ kind, kind ≠ DbKind.rpm →
      (host.readDb kind).map (ProbedDb.mk kind) ≠ some found := by
    intro kind hne hsome
    obtain ⟨pkgs, -, rfl⟩ := Option.map_eq_some_iff.mp hsome
    exact hne hkind
  unfold probePackageDb at hfound
  simp only [Option.or_eq_some_iff, hother .debian (by decide), hother .alpine (by decide),
    hother .opkg (by decide), hother .arch (by decide), and_false, or_false] at hfound
  split at hfound
  · next hlocated =>
      obtain ⟨pkgs, hrpm, rfl⟩ := Option.map_eq_some_iff.mp hfound
      exact ⟨pkgs, hlocated, hrpm⟩
  · cases hfound

theorem not_probed_of_family {family : String} (hfamily : family ∉ plannedFamilies) :
    family ≠ "rhel" ∧ family ≠ "suse" ∧ prefixedDb family = none ∧ dbByFamily family = none := by
  unfold plannedFamilies at hfamily
  simp only [List.mem_cons, List.not_mem_nil, or_false, not_or] at hfamily
  obtain ⟨hrhel, hsuse, hdebian, harch, halpine⟩ := hfamily
  refine ⟨hrhel, hsuse, ?_, ?_⟩
  · simp [prefixedDb, find, Ne.symm hdebian, Ne.symm harch, Ne.symm halpine]
  · simp [dbByFamily, find, Ne.symm hrhel, Ne.symm hsuse, Ne.symm hdebian, Ne.symm harch,
      Ne.symm halpine]

theorem installedPackages_probed (hfamily : family ∉ plannedFamilies) :
    installedPackages host family = probedPackages host := by
  obtain ⟨hrhel, hsuse, hprefixed, -⟩ := not_probed_of_family hfamily
  unfold installedPackages
  rw [if_neg (not_or.mpr ⟨hrhel, hsuse⟩), hprefixed, ite_self]
  dsimp only
  rw [if_pos hfamily]

theorem scanPackages_probed (hfamily : family ∉ plannedFamilies) :
    scanPackages host family = scanProbedPackages host := by
  obtain ⟨hrhel, hsuse, hprefixed, -⟩ := not_probed_of_family hfamily
  unfold scanPackages
  rw [if_neg (not_or.mpr ⟨hrhel, hsuse⟩), hprefixed, ite_self]
  dsimp only
  rw [if_pos hfamily]

theorem ProbedRpm.installed {pkgs : List Package} (hprobed : ProbedRpm context host pkgs) :
    installedPackages host context.osRelease.family = listed (some .rpm) pkgs := by
  rw [installedPackages_probed hprobed.family, probedPackages, hprobed.probe, hprobed.rpm]
  rfl

/-- The package of a row, and its database. -/
structure RowOf (context : Context) (host : PackageHost) (row : BundledRow) (pkg : Listed) :
    Prop where
  mem : pkg ∈ installedPackages host context.osRelease.family
  name : pkg.name ≠ "gpg-pubkey"
  eq : ∃ hint, row = rowOf pkg.toPackage hint
  db : pkg.db = if (dbByFamily context.osRelease.family).isNone then
    (probePackageDb host).map ProbedDb.kind else none

theorem rowOf_listed {pkgs : List Package} {db : Option DbKind}
    (hinstalled : installedPackages host context.osRelease.family = listed db pkgs)
    (hdb : db = if (dbByFamily context.osRelease.family).isNone then
      (probePackageDb host).map ProbedDb.kind else none)
    (hrow : row ∈ classifyBundledCrypto pkgs family) : ∃ pkg, RowOf context host row pkg := by
  obtain ⟨pkg, hpkg, hname, hint, rfl⟩ := mem_classifyBundledCrypto hrow
  refine ⟨{ toPackage := pkg, db := db }, ?_, hname, ⟨hint, rfl⟩, hdb⟩
  rw [hinstalled]
  exact List.mem_map.mpr ⟨pkg, hpkg, rfl⟩

/-- A row of a probed rpm database is a name and a version. -/
theorem mem_bundledRows_probed {pkgs : List Package} (hprobed : ProbedRpm context host pkgs)
    (hrow : row ∈ bundledRows context host) :
    ∃ pkg ∈ pkgs, pkg.name ≠ "gpg-pubkey" ∧
      ∃ hint, row = rowOf { name := pkg.name, version := pkg.version } hint := by
  unfold bundledRows at hrow
  rw [scanPackages_probed hprobed.family, scanProbedPackages, hprobed.probe] at hrow
  obtain ⟨named, hnamed, hname, hint, rfl⟩ := mem_classifyBundledCrypto hrow
  obtain ⟨pkg, hpkg, rfl⟩ := List.mem_map.mp hnamed
  exact ⟨pkg, hpkg, hname, hint, rfl⟩

/-- A row is that of a package, but for the rows of a probed rpm database. -/
theorem mem_bundledRows (hrow : row ∈ bundledRows context host) :
    (∃ pkg, RowOf context host row pkg) ∨ ∃ pkgs, ProbedRpm context host pkgs := by
  obtain ⟨scan, hscan, hrow⟩ : ∃ scan, scanPackages host context.osRelease.family = some scan ∧
      row ∈ scan.bundledCrypto := by
    unfold bundledRows at hrow
    cases hscan : scanPackages host context.osRelease.family with
    | none =>
        rw [hscan] at hrow
        cases hrow
    | some scan =>
        rw [hscan] at hrow
        exact ⟨scan, rfl, hrow⟩
  by_cases hfamily : context.osRelease.family ∈ plannedFamilies
  · have hdb : (dbByFamily context.osRelease.family).isNone = false := by
      have hall : ∀ family ∈ plannedFamilies, (dbByFamily family).isNone = false := by decide
      exact hall _ hfamily
    refine Or.inl ?_
    have hlisted : ∀ found : Option (List Package),
        found.map (scanOf · context.osRelease.family) = some scan →
        installedPackages host context.osRelease.family = listed none (found.getD []) →
          ∃ pkg, RowOf context host row pkg := by
      intro found hfound hinstalled
      obtain ⟨pkgs, rfl, rfl⟩ := Option.map_eq_some_iff.mp hfound
      exact rowOf_listed hinstalled (by rw [hdb]; rfl) hrow
    unfold scanPackages at hscan
    split at hscan
    · next hrpm =>
        refine hlisted _ hscan ?_
        unfold installedPackages
        rw [if_pos hrpm]
    · next hrpm =>
        split at hscan
        · next kind hkind =>
            refine hlisted _ hscan ?_
            unfold installedPackages
            rw [if_neg hrpm, hkind]
        · next hkind =>
            split at hscan
            · refine hlisted _ hscan ?_
              unfold installedPackages
              rw [if_neg hrpm, hkind]
              dsimp only
              rw [if_neg (not_not.mpr hfamily)]
            · cases hscan
  · have hdb := (not_probed_of_family hfamily).2.2.2
    rw [scanPackages_probed hfamily] at hscan
    obtain ⟨found, hfound, rfl⟩ := Option.map_eq_some_iff.mp hscan
    by_cases hkind : found.kind = .rpm
    · right
      obtain ⟨pkgs, hlocated, hrpm⟩ := probePackageDb_rpm hfound hkind
      exact ⟨pkgs, hfamily, hlocated, hrpm⟩
    · left
      refine @rowOf_listed _ _ _ _ _ (some found.kind) ?_ ?_ hrow
      · rw [installedPackages_probed hfamily, probedPackages, hfound]
        dsimp only
        rw [if_neg hkind]
      · rw [hdb, hfound]
        rfl

end Rows

/-! ## The purls of the rows -/

section RowPurls

variable {row : BundledRow} {purl : String}

theorem fullVersion_present (version : String) (release : Option String) :
    fullVersion version (present (present release)) = fullVersion version release := by
  have hpresent : present (present (present release)) = present release := by
    simp [present, Option.filter_filter]
  unfold fullVersion
  rw [hpresent]

/-- Without a recipe, a package has no purl where one of its name and version has none. -/
theorem packagePurl_eq_none {pkg other : Listed} (hnone : packagePurl lower context pkg = none)
    (hname : other.name = pkg.name) (hversion : other.version = pkg.version)
    (hdb : other.db.or (dbByFamily context.osRelease.family) =
      pkg.db.or (dbByFamily context.osRelease.family))
    (hrecipe : other.sourcerpm = none) : packagePurl lower context other = none := by
  unfold packagePurl at hnone ⊢
  rw [hdb, hname, hversion]
  cases hkind : pkg.db.or (dbByFamily context.osRelease.family) with
  | none => rfl
  | some kind =>
      rw [hkind] at hnone
      dsimp only at hnone ⊢
      split at hnone
      · next hempty => rw [if_pos hempty]
      · next hempty =>
          rw [if_neg hempty, yoctoPurl_of_none hrecipe, ite_self]
          split at hnone
          · cases hnone
          · split at hnone
            · cases hnone
            · next hopkg =>
                rw [if_neg hopkg]
                cases hptype : purlTypeByDb kind with
                | none => rfl
                | some ptype =>
                    cases hvendor : context.vendor with
                    | none => rfl
                    | some vendor =>
                        rw [hptype, hvendor] at hnone
                        cases hnone

/-- The purl of a row of a package is that of a package of its name. -/
theorem sbomPurl_packageFields {pkg : Listed} (hpkg : RowOf context host row pkg)
    (hpurl : sbomPurl lower context host (packageFields row) = some purl) :
    ∃ other ∈ installedPackages host context.osRelease.family, other.name ≠ "gpg-pubkey" ∧
      packagePurl lower context other = some purl := by
  obtain ⟨hint, rfl⟩ := hpkg.eq
  unfold sbomPurl at hpurl
  split at hpurl
  · cases hpurl
  · split at hpurl
    · next found hget =>
        obtain rfl := Option.some.inj hpurl
        rcases get?_purlIndex hget with
          ⟨other, hother, hkey, hsome⟩ | ⟨⟨other, hother, hkey, hsome⟩, -⟩
        · refine ⟨other, hother, ?_, hsome⟩
          rw [show other.name = pkg.name from congrArg Prod.fst hkey]
          exact hpkg.name
        · refine ⟨other, hother, ?_, hsome⟩
          rw [show other.name = pkg.name from congrArg Prod.fst hkey]
          exact hpkg.name
    · next hget =>
        -- The index does not have the package, which has no purl then.
        have hkey : pkg.key = (pkg.name, fullVersion pkg.version (present (present pkg.release))) :=
          by rw [fullVersion_present]; rfl
        have hnone := (purlIndex_none hget).1 pkg hpkg.mem hkey
        have hdb := hpkg.db
        split at hpurl
        · next hprobed =>
            rw [if_pos hprobed.2] at hdb
            refine absurd (hpurl.symm.trans (packagePurl_eq_none hnone rfl rfl ?_ rfl)) (by rintro ⟨⟩)
            rw [hdb]
        · next hprobed =>
            have hfamily : ¬ (dbByFamily context.osRelease.family).isNone = true :=
              fun hnone => hprobed ⟨rfl, hnone⟩
            rw [if_neg hfamily] at hdb
            refine absurd (hpurl.symm.trans (packagePurl_eq_none hnone rfl rfl ?_ rfl)) (by rintro ⟨⟩)
            rw [hdb]
            rfl

end RowPurls

/-! ## Probed rpm databases -/

section Probed

variable {pkgs : List Package} {row : BundledRow} {vendor : String}

/-- The version of a row names a build: it is all of the version of a package, or the packages of
that version are of one build. -/
def NamesBuild (context : Context) (pkgs : List Package) (row : BundledRow) : Prop :=
  (∃ pkg ∈ pkgs, pkg.name = row.package ∧ pkg.version ≠ "" ∧
      fullVersion pkg.version pkg.release = row.version) ∨
    ∀ pkg ∈ pkgs, ∀ other ∈ pkgs, pkg.name = row.package → pkg.version = row.version →
      other.name = row.package → other.version = row.version → SameBuild context pkg other

/-- The package that is left of a row of a probed rpm database. -/
def namedRpm (row : BundledRow) : Listed := { packageFields row with db := some .rpm }

/-- The purl of a row that is a name and a version. -/
theorem sbomPurl_probed (hprobed : ProbedRpm context host pkgs) (hname : row.package ≠ "")
    (hversion : row.version ≠ "") (hrelease : row.release = none) :
    sbomPurl lower context host (packageFields row) =
      ((purlIndex lower context (listed (some .rpm) pkgs)).get? (row.package, row.version)).or
        (packagePurl lower context (namedRpm row)) := by
  have hfull : fullVersion row.version (present row.release) = row.version := by
    rw [hrelease]
    rfl
  have hfamily := (not_probed_of_family hprobed.family).2.2.2
  have hempty : ¬ ((packageFields row).name = "" ∨ (packageFields row).version = "") :=
    not_or.mpr ⟨hname, hversion⟩
  unfold sbomPurl
  rw [if_neg hempty, hprobed.installed, hprobed.probe, hfamily]
  rw [show ((packageFields row).name, fullVersion (packageFields row).version
    (packageFields row).release) = (row.package, row.version) from Prod.ext rfl hfull]
  cases Dict.get? (purlIndex lower context (listed (some .rpm) pkgs))
      (row.package, row.version) with
  | some purl => rfl
  | none => rfl

/-- The index has the purl of a name and a version exactly if these name a build. -/
theorem isSome_purlIndex_iff (hvendor : context.vendor = some vendor) (hname : row.package ≠ "")
    (hversion : row.version ≠ "")
    (hmem : ∃ pkg ∈ pkgs, pkg.name = row.package ∧ pkg.version = row.version) :
    ((purlIndex lower context (listed (some .rpm) pkgs)).get? (row.package, row.version)).isSome ↔
      NamesBuild context pkgs row := by
  have hlisted : ∀ {pkg}, pkg ∈ listed (some .rpm) pkgs →
      pkg.toPackage ∈ pkgs ∧ pkg.db = some .rpm := by
    intro pkg hpkg
    obtain ⟨plain, hplain, rfl⟩ := List.mem_map.mp hpkg
    exact ⟨hplain, rfl⟩
  have hrpm : ∀ {pkg}, pkg ∈ pkgs → rpmOf pkg ∈ listed (some .rpm) pkgs :=
    fun hpkg => List.mem_map.mpr ⟨_, hpkg, rfl⟩
  have hpurl : ∀ {pkg : Package}, pkg.name = row.package → pkg.version ≠ "" →
      ∃ purl, packagePurl lower context (rpmOf pkg) = some purl :=
    fun hpkg hversion => ⟨_, packagePurl_rpm hvendor rfl (hpkg.trans_ne hname) hversion⟩
  constructor
  · intro hsome
    obtain ⟨purl, hget⟩ := Option.isSome_iff_exists.mp hsome
    rcases get?_purlIndex hget with ⟨pkg, hpkg, hkey, hpkgPurl⟩ | ⟨-, hone⟩
    · refine Or.inl ⟨pkg.toPackage, (hlisted hpkg).1, congrArg Prod.fst hkey, ?_,
        congrArg Prod.snd hkey⟩
      intro hempty
      rw [packagePurl, (hlisted hpkg).2] at hpkgPurl
      simp only [Option.or, hempty, or_true, if_pos, reduceCtorEq] at hpkgPurl
    · refine Or.inr fun pkg hpkg other hother hpkgName hpkgVersion hotherName hotherVersion => ?_
      obtain ⟨first, hfirst⟩ := hpurl hpkgName (hpkgVersion.trans_ne hversion)
      obtain ⟨second, hsecond⟩ := hpurl hotherName (hotherVersion.trans_ne hversion)
      have hpkgOne := hone _ (hrpm hpkg) (Prod.ext hpkgName hpkgVersion) first hfirst
      have hotherOne := hone _ (hrpm hother) (Prod.ext hotherName hotherVersion) second hsecond
      have hsame :
          packagePurl lower context (rpmOf pkg) = packagePurl lower context (rpmOf other) := by
        rw [hfirst, hsecond, hpkgOne, hotherOne]
      exact (packagePurl_eq_iff hvendor (hpkgName.trans_ne hname) (hpkgVersion.trans_ne hversion)
        (hotherName.trans hpkgName.symm) (hotherVersion.trans hpkgVersion.symm)).mp hsame
  · intro hnames
    by_contra hnone
    rw [Bool.not_eq_true, Option.isSome_eq_false_iff, Option.isNone_iff_eq_none] at hnone
    obtain ⟨hexact, hmany⟩ := purlIndex_none hnone
    rcases hnames with ⟨pkg, hpkg, hpkgName, hpkgVersion, hfull⟩ | hbuild
    · obtain ⟨purl, hsome⟩ := hpurl hpkgName hpkgVersion
      cases (hexact _ (hrpm hpkg) (Prod.ext hpkgName hfull)).symm.trans hsome
    · obtain ⟨pkg, hpkg, hpkgName, hpkgVersion⟩ := hmem
      obtain ⟨purl, hsome⟩ := hpurl hpkgName (hpkgVersion.trans_ne hversion)
      refine hmany ⟨purl, ⟨_, hrpm hpkg, Prod.ext hpkgName hpkgVersion, hsome⟩, ?_⟩
      intro tagged htagged hkey found hfound
      obtain ⟨other, hother, rfl⟩ := List.mem_map.mp htagged
      have hotherName : other.name = row.package := congrArg Prod.fst hkey
      have hotherVersion : other.version = row.version := congrArg Prod.snd hkey
      have hsame := (@packagePurl_eq_iff lower _ _ _ _ hvendor (hpkgName.trans_ne hname)
        (hpkgVersion.trans_ne hversion) (hotherName.trans hpkgName.symm)
        (hotherVersion.trans hpkgVersion.symm)).mpr
          (hbuild pkg hpkg other hother hpkgName hpkgVersion hotherName hotherVersion)
      rw [hsome, rpmOf, hfound] at hsame
      exact (Option.some.inj hsame).symm

end Probed

/-! ## The library components -/

section Libraries

variable {rows : List BundledRow} {libs : Dict String LibraryComponent} {row : BundledRow}

theorem get?_setdefault {κ ν : Type*} [DecidableEq κ] {d : Dict κ ν} {key other : κ}
    {value found : ν} (hget : (d.update key (·.getD value)).get? other = some found) :
    d.get? other = some found ∨ other = key ∧ d.get? key = none ∧ found = value := by
  rw [Dict.get?_update] at hget
  split at hget
  · next hkey =>
      subst hkey
      cases hold : d.get? other with
      | none =>
          rw [hold] at hget
          exact Or.inr ⟨rfl, rfl, (Option.some.inj hget).symm⟩
      | some old =>
          rw [hold] at hget
          exact Or.inl hget
  · exact Or.inl hget

/-- A row gives a purl. -/
structure GivesPurl (lower : String → String) (context : Context) (host : PackageHost)
    (row : BundledRow) (purl : String) : Prop where
  package : row.package ≠ ""
  version : row.version ≠ ""
  purl : sbomPurl lower context host (packageFields row) = some purl

/-- The components are those of probed stacks, and those of some rows. -/
structure Emits (lower : String → String) (context : Context) (host : PackageHost)
    (libs : Dict String LibraryComponent) (rows : List BundledRow) : Prop where
  key : ∀ purl component, libs.get? purl = some component → component.purl = purl
  stack : ∀ purl component, libs.get? purl = some component → component.basis = .probedStack →
    startsWith "pkg:generic/" purl = true
  row : ∀ purl component, libs.get? purl = some component →
    component.basis = .bundledCryptoPackage → ∃ row ∈ rows, GivesPurl lower context host row purl
  complete : ∀ row ∈ rows, ∀ purl, GivesPurl lower context host row purl → (libs.get? purl).isSome

theorem assetTurn_emits {state : LibraryState} (asset : CryptoAsset)
    (hemits : Emits lower context host state.libs []) :
    Emits lower context host (assetTurn state asset).libs [] := by
  unfold assetTurn
  split
  · exact hemits
  · refine ⟨fun purl component hget => ?_, fun purl component hget hbasis => ?_,
      fun purl component hget hbasis => ?_, nofun⟩
    · rcases get?_setdefault hget with hold | ⟨rfl, -, rfl⟩
      · exact hemits.key purl component hold
      · rfl
    · rcases get?_setdefault hget with hold | ⟨rfl, -, rfl⟩
      · exact hemits.stack purl component hold hbasis
      · rw [String.append_assoc, String.append_assoc]
        exact startsWith_append _ _
    · rcases get?_setdefault hget with hold | ⟨-, -, rfl⟩
      · exact hemits.row purl component hold hbasis
      · cases hbasis

theorem rowTurn_emits (row : BundledRow) (hemits : Emits lower context host libs rows) :
    Emits lower context host (rowTurn lower context host libs row) (rows ++ [row]) := by
  have hrow : ∀ {purl}, (∃ row ∈ rows, GivesPurl lower context host row purl) →
      ∃ other ∈ rows ++ [row], GivesPurl lower context host other purl :=
    fun ⟨other, hother, hpurl⟩ => ⟨other, List.mem_append_left _ hother, hpurl⟩
  have hkeep : (∀ purl, ¬ GivesPurl lower context host row purl) →
      Emits lower context host libs (rows ++ [row]) := by
    intro hnone
    refine ⟨hemits.key, hemits.stack,
      fun purl component hget hbasis => hrow (hemits.row purl component hget hbasis),
      fun other hother purl hpurl => ?_⟩
    rcases List.mem_append.mp hother with hother | hother
    · exact hemits.complete other hother purl hpurl
    · rw [List.mem_singleton.mp hother] at hpurl
      exact absurd hpurl (hnone purl)
  unfold rowTurn
  split
  · next hempty => exact hkeep fun purl hpurl => hempty.elim hpurl.package hpurl.version
  · next hempty =>
      rw [not_or] at hempty
      split
      · next hnone => exact hkeep fun purl hpurl => absurd (hnone.symm.trans hpurl.purl) nofun
      · next purl hsome =>
          refine ⟨fun other component hget => ?_, fun other component hget hbasis => ?_,
            fun other component hget hbasis => ?_, fun other hother found hfound => ?_⟩
          · rcases get?_setdefault hget with hold | ⟨rfl, -, rfl⟩
            · exact hemits.key other component hold
            · rfl
          · rcases get?_setdefault hget with hold | ⟨-, -, rfl⟩
            · exact hemits.stack other component hold hbasis
            · cases hbasis
          · rcases get?_setdefault hget with hold | ⟨rfl, -, -⟩
            · exact hrow (hemits.row other component hold hbasis)
            · exact ⟨row, List.mem_append_right _ (List.mem_singleton.mpr rfl), hempty.1,
                hempty.2, hsome⟩
          · rw [Dict.get?_update]
            split
            · rfl
            · next hne =>
                rcases List.mem_append.mp hother with hother | hother
                · exact hemits.complete other hother found hfound
                · rw [List.mem_singleton.mp hother] at hfound
                  exact absurd (Option.some.inj (hfound.purl.symm.trans hsome)) hne

/-- The components of a run over the assets and the rows. -/
theorem libraryComponents_emits (assets : List CryptoAsset) (rows : List BundledRow) :
    Emits lower context host (libraryComponents lower context host assets rows).libs rows := by
  have hassets : ∀ state : LibraryState, Emits lower context host state.libs [] →
      Emits lower context host (assets.foldl assetTurn state).libs [] := by
    induction assets with
    | nil => exact fun state hemits => hemits
    | cons asset rest ih => exact fun state hemits => ih _ (assetTurn_emits asset hemits)
  have hstart := hassets {} ⟨nofun, nofun, nofun, nofun⟩
  unfold libraryComponents
  dsimp only
  induction rows using List.reverseRecOn with
  | nil => exact hstart
  | append_singleton rows row ih =>
      rw [List.foldl_append, List.foldl_cons, List.foldl_nil]
      exact rowTurn_emits row ih

theorem not_gives_of_vendor (hvendor : context.vendor = none) {pkgs : List Package}
    {purl : String} (hprobed : ProbedRpm context host pkgs)
    (hrow : row ∈ bundledRows context host) : ¬ GivesPurl lower context host row purl := by
  intro hpurl
  obtain ⟨pkg, hpkg, -, hint, rfl⟩ := mem_bundledRows_probed hprobed hrow
  have hsome := hpurl.purl
  rw [sbomPurl_probed hprobed hpurl.package hpurl.version rfl,
    packagePurl_rpm_none hvendor rfl, Option.or_none] at hsome
  have hnone : ∀ other ∈ listed (some .rpm) pkgs, packagePurl lower context other = none := by
    intro other hother
    obtain ⟨plain, -, rfl⟩ := List.mem_map.mp hother
    exact packagePurl_rpm_none hvendor rfl
  rcases get?_purlIndex hsome with ⟨other, hother, -, hfound⟩ | ⟨⟨other, hother, -, hfound⟩, -⟩
  · cases (hnone other hother).symm.trans hfound
  · cases (hnone other hother).symm.trans hfound

/-- The purl of a row of a probed rpm database is in the SBOM exactly if the row names a build. -/
theorem hasPurl_probed_iff (facts : HostFacts) {pkgs : List Package} {vendor : String}
    (hprobed : ProbedRpm context host pkgs) (hvendor : context.vendor = some vendor)
    (hrow : row ∈ bundledRows context host) (hname : row.package ≠ "")
    (hversion : row.version ≠ "") :
    ∃ purl, GivesPurl lower context host row purl ∧
      ((buildSbom lower context host facts).HasPurl purl ↔ NamesBuild context pkgs row) ∧
      (startsWith "pkg:generic/" purl = true → NamesBuild context pkgs row) := by
  obtain ⟨pkg, hpkg, hkeys, hint, hrowOf⟩ := mem_bundledRows_probed hprobed hrow
  have hpackage : pkg.name = row.package := by rw [hrowOf]; rfl
  have hmem : ∃ pkg ∈ pkgs, pkg.name = row.package ∧ pkg.version = row.version :=
    ⟨pkg, hpkg, hpackage, by rw [hrowOf]; rfl⟩
  have hrelease : row.release = none := by rw [hrowOf]; rfl
  have hbuild := @isSome_purlIndex_iff lower context pkgs row vendor hvendor hname hversion hmem
  have hprobe := @sbomPurl_probed lower context host pkgs row hprobed hname hversion hrelease
  cases hget : (purlIndex lower context (listed (some .rpm) pkgs)).get?
      (row.package, row.version) with
  | some purl =>
      rw [hget] at hbuild hprobe
      have hfound : ∃ other ∈ listed (some .rpm) pkgs, other.name = row.package ∧
          packagePurl lower context other = some purl := by
        rcases get?_purlIndex hget with
          ⟨other, hother, hkey, hsome⟩ | ⟨⟨other, hother, hkey, hsome⟩, -⟩
        · exact ⟨other, hother, congrArg Prod.fst hkey, hsome⟩
        · exact ⟨other, hother, congrArg Prod.fst hkey, hsome⟩
      obtain ⟨other, hother, hsame, hsome⟩ := hfound
      have hhas : (buildSbom lower context host facts).HasPurl purl := by
        refine hasPurl_of_mem facts ?_ ((hsame.trans hpackage.symm).trans_ne hkeys) hsome
        rwa [hprobed.installed]
      exact ⟨purl, ⟨hname, hversion, hprobe⟩, iff_of_true hhas (hbuild.mp rfl),
        fun _ => hbuild.mp rfl⟩
  | none =>
      rw [hget] at hbuild hprobe
      have hnot : ¬ NamesBuild context pkgs row := fun hnames => absurd (hbuild.mpr hnames) nofun
      have hrecipe : recipe context (namedRpm row).toPackage = none := by
        have hempty : srpmOf "" = none := by decide +kernel
        unfold recipe
        split
        · exact hempty
        · rfl
      have hnamed := @packagePurl_rpm lower context vendor (namedRpm row) hvendor rfl hname hversion
      rw [hrecipe, Option.map_none, Option.getD_none] at hnamed
      refine ⟨typedPurl lower context "rpm" vendor (namedRpm row),
        ⟨hname, hversion, hprobe.trans hnamed⟩, iff_of_false ?_ hnot, ?_⟩
      · -- A package with that purl would be in the index.
        intro hpurl
        obtain ⟨other, hother, hsome⟩ := mem_of_hasPurl hpurl
        rw [hprobed.installed] at hother
        obtain ⟨plain, hplain, rfl⟩ := List.mem_map.mp hother
        have hkey := key_of_packagePurl hvendor rfl hsome
        have hfull : fullVersion row.version (present row.release) = row.version := by
          rw [hrelease]
          rfl
        have hnone := (purlIndex_none hget).1 _ hother
          (hkey.trans (Prod.ext rfl hfull))
        cases hnone.symm.trans hsome
      · intro hgeneric
        rw [startsWith, toList_typedPurl] at hgeneric
        simp at hgeneric

/-- The purls of the rows are in the SBOM exactly if those of a probed rpm database name builds. -/
theorem purl_join_iff (lower : String → String) (context : Context) (host : PackageHost)
    (assets : List CryptoAsset) (facts : HostFacts) :
    (∀ component ∈ hostLibraries lower context host assets,
        component.basis = .bundledCryptoPackage →
          (buildSbom lower context host facts).HasPurl component.purl) ↔
      ∀ pkgs, ProbedRpm context host pkgs → context.vendor ≠ none →
        ∀ row ∈ bundledRows context host, row.package ≠ "" → row.version ≠ "" →
          NamesBuild context pkgs row := by
  have hemits := @libraryComponents_emits lower context host assets (bundledRows context host)
  constructor
  · intro hjoin pkgs hprobed hvendor row hrow hname hversion
    obtain ⟨vendor, hvendor⟩ := Option.ne_none_iff_exists'.mp hvendor
    obtain ⟨purl, hpurl, hiff, hgeneric⟩ := @hasPurl_probed_iff lower context host row facts pkgs
      vendor hprobed hvendor hrow hname hversion
    obtain ⟨component, hget⟩ :=
      Option.isSome_iff_exists.mp (hemits.complete row hrow purl hpurl)
    cases hbasis : component.basis with
    | probedStack => exact hgeneric (hemits.stack purl component hget hbasis)
    | bundledCryptoPackage =>
        refine hiff.mp ?_
        rw [← hemits.key purl component hget]
        exact hjoin component ((Dict.mem_values_iff _).mpr ⟨purl, hget⟩) hbasis
  · intro hbuilds component hcomponent hbasis
    obtain ⟨purl, hget⟩ := (Dict.mem_values_iff _).mp hcomponent
    obtain ⟨row, hrow, hpurl⟩ := hemits.row purl component hget hbasis
    rw [hemits.key purl component hget]
    rcases mem_bundledRows hrow with ⟨pkg, hpkg⟩ | ⟨pkgs, hprobed⟩
    · obtain ⟨other, hother, hname, hsome⟩ := sbomPurl_packageFields hpkg hpurl.purl
      exact hasPurl_of_mem facts hother hname hsome
    · cases hvendor : context.vendor with
      | none => exact absurd hpurl (not_gives_of_vendor hvendor hprobed hrow)
      | some vendor =>
          obtain ⟨found, hfound, hiff, -⟩ := @hasPurl_probed_iff lower context host row facts pkgs
            vendor hprobed hvendor hrow hpurl.package hpurl.version
          obtain rfl := Option.some.inj (hfound.purl.symm.trans hpurl.purl)
          refine hiff.mpr ?_
          exact hbuilds pkgs hprobed (by rw [hvendor]; exact nofun) row hrow hpurl.package
            hpurl.version

/-- A host of no known family, with one package for two architectures. -/
def twoArchitectures : PackageHost where
  hasPrefix := false
  rpmdbLocated := true
  rpm := some
    [{ name := "nodejs", version := "1.0", release := some "1", arch := some "x86_64" },
      { name := "nodejs", version := "1.0", release := some "1", arch := some "i686" }]
  readDb := fun _ => none
  runTool := fun _ => none
  onPath := fun _ => false

/-- What is known of it. -/
def acmeContext : Context where
  osRelease := { id := some "acme", versionId := some "1" }

/-- The CBOM has `pkg:rpm/acme/nodejs@1.0?distro=acme-1`, without a release or an architecture. -/
theorem not_purl_join_twoArchitectures :
    ¬ ∀ component ∈ hostLibraries id acmeContext twoArchitectures [],
      component.basis = .bundledCryptoPackage →
        (buildSbom id acmeContext twoArchitectures {}).HasPurl component.purl := by
  decide +kernel

end Libraries

end PqcReadiness.Bom
