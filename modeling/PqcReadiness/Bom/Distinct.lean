import PqcReadiness.Bom.Completeness

/-!
# One component for each package

Inventories of one kind of database, but for those of Yocto: a purl tells the package that it is the
purl of (`packagePurl_eq_iff`), so `build_sbom` has one component for each distinct package with a
purl, and counts the others as often as they are listed (`buildSbom_distinct`).
-/

namespace PqcReadiness.Bom

open PqcReadiness.Lib PqcReadiness.Packages

/-! ## Packages of one kind -/

/-- What tells packages of one kind apart.  Names of apk have no case, and the epoch 0 is none. -/
@[ext]
structure PackageKey where
  name : String
  version : String
  release : Option String
  arch : Option String
  epoch : Option String
  deriving DecidableEq

/-- The key of a package. -/
def packageKey (lower : String → String) (db : DbKind) (pkg : Listed) : PackageKey where
  name := if db = .alpine then lower pkg.name else pkg.name
  version := pkg.version
  release := present pkg.release
  arch := present pkg.arch
  epoch := epochOf pkg.toPackage

/-- An inventory of one kind of database, but none of Yocto's.  No version has a dash where packages
have releases, and packages of opkg have a name and a version only, as the reader of its database
gives them. -/
structure OneKind (context : Context) (db : DbKind) (pkgs : List Listed) : Prop where
  kind : ∀ pkg ∈ pkgs, pkg.db.or (dbByFamily context.osRelease.family) = some db
  yocto : db = .rpm → context.isYocto = false
  versions : (∀ pkg ∈ pkgs, present pkg.release = none) ∨ ∀ pkg ∈ pkgs, '-' ∉ pkg.version.toList
  opkg : db = .opkg → ∀ pkg ∈ pkgs, present pkg.release = none ∧ present pkg.arch = none ∧
    epochOf pkg.toPackage = none

section Keys

variable {lower : String → String} {context : Context} {db : DbKind} {pkgs : List Listed}
  {one other : Listed}

/-- The version with the release tells both, if no dash is in the versions. -/
theorem fullVersion_apart {version version' : String} {release release' : Option String}
    (hversion : '-' ∉ version.toList) (hversion' : '-' ∉ version'.toList)
    (hsame : fullVersion version release = fullVersion version' release') :
    version = version' ∧ present release = present release' := by
  rw [fullVersion, fullVersion] at hsame
  cases hrelease : present release with
  | none =>
      cases hrelease' : present release' with
      | none =>
          rw [hrelease, hrelease'] at hsame
          exact ⟨hsame, rfl⟩
      | some text =>
          rw [hrelease, hrelease'] at hsame
          have hdash : '-' ∈ version.toList := by
            rw [show version = version' ++ "-" ++ text from hsame]
            simp
          exact absurd hdash hversion
  | some text =>
      cases hrelease' : present release' with
      | none =>
          rw [hrelease, hrelease'] at hsame
          have hdash : '-' ∈ version'.toList := by
            rw [show version' = version ++ "-" ++ text from hsame.symm]
            simp
          exact absurd hdash hversion'
      | some text' =>
          rw [hrelease, hrelease'] at hsame
          have hchars : version.toList ++ '-' :: text.toList =
              version'.toList ++ '-' :: text'.toList := by
            simpa using congrArg String.toList hsame
          obtain ⟨hfirst, hrest⟩ := append_cons_inj hversion hversion' hchars
          exact ⟨String.toList_inj.mp hfirst, congrArg some (String.toList_inj.mp hrest)⟩

/-- The versions of two packages of the inventory. -/
theorem OneKind.fullVersion_eq_iff (hkind : OneKind context db pkgs) (hone : one ∈ pkgs)
    (hother : other ∈ pkgs) :
    fullVersion one.version one.release = fullVersion other.version other.release ↔
      one.version = other.version ∧ present one.release = present other.release := by
  constructor
  · intro hsame
    rcases hkind.versions with hnone | hdash
    · rw [fullVersion, fullVersion, hnone one hone, hnone other hother] at hsame
      exact ⟨hsame, (hnone one hone).trans (hnone other hother).symm⟩
    · exact fullVersion_apart (hdash one hone) (hdash other hother) hsame
  · rintro ⟨hversion, hrelease⟩
    rw [fullVersion, fullVersion, hversion, hrelease]

/-- Outside of Yocto no package is told by its recipe. -/
theorem OneKind.recipe_eq_none (hkind : OneKind context db pkgs) (pkg : Listed) :
    (if db = .rpm then recipe context pkg.toPackage else none) = none := by
  split
  · next hrpm => rw [recipe, hkind.yocto hrpm]; rfl
  · rfl

/-- The identity of a package of the inventory. -/
theorem OneKind.identity_eq (hkind : OneKind context db pkgs) {pkg : Listed} (hpkg : pkg ∈ pkgs) :
    identity lower context pkg =
      if pkg.name = "" ∨ pkg.version = "" then none
      else if db = .opkg then some (.plain pkg.name pkg.version)
      else
        match purlTypeByDb db, context.vendor with
        | some ptype, some _ =>
            some (.typed ptype (if ptype = "apk" then lower pkg.name else pkg.name)
              (fullVersion pkg.version pkg.release) (present pkg.arch) (epochOf pkg.toPackage))
        | _, _ => none := by
  rw [identity, hkind.kind pkg hpkg]
  dsimp only
  generalize hrecipe : (if db = .rpm then recipe context pkg.toPackage else none) = found
  obtain rfl : none = found := (hkind.recipe_eq_none pkg).symm.trans hrecipe
  rfl

/-- The names of the type apk are those that the key lowers. -/
theorem apk_iff {ptype : String} (htype : purlTypeByDb db = some ptype) :
    ptype = "apk" ↔ db = .alpine := by
  cases db <;> cases htype <;> decide

/-- Packages of the inventory that have an identity have one iff they have one key. -/
theorem OneKind.identity_eq_iff (hkind : OneKind context db pkgs) (hone : one ∈ pkgs)
    (hother : other ∈ pkgs) (hsome : identity lower context one ≠ none)
    (hsome' : identity lower context other ≠ none) :
    identity lower context one = identity lower context other ↔
      packageKey lower db one = packageKey lower db other := by
  have hkey : packageKey lower db one = packageKey lower db other ↔
      (packageKey lower db one).name = (packageKey lower db other).name ∧
        (one.version = other.version ∧ present one.release = present other.release) ∧
        present one.arch = present other.arch ∧
        epochOf one.toPackage = epochOf other.toPackage := by
    rw [PackageKey.ext_iff]
    simp only [packageKey, and_assoc]
  rw [hkind.identity_eq hone] at hsome ⊢
  rw [hkind.identity_eq hother] at hsome' ⊢
  have hnamed : ¬(one.name = "" ∨ one.version = "") := fun hempty => hsome (if_pos hempty)
  have hnamed' : ¬(other.name = "" ∨ other.version = "") := fun hempty => hsome' (if_pos hempty)
  rw [if_neg hnamed] at hsome ⊢
  rw [if_neg hnamed'] at hsome' ⊢
  by_cases hopkg : db = .opkg
  · -- A package of opkg has nothing but its name and its version.
    obtain ⟨hrelease, harch, hepoch⟩ := hkind.opkg hopkg one hone
    obtain ⟨hrelease', harch', hepoch'⟩ := hkind.opkg hopkg other hother
    rw [if_pos hopkg, if_pos hopkg, hkey, hrelease, hrelease', harch, harch', hepoch, hepoch']
    simp [packageKey, hopkg]
  · rw [if_neg hopkg] at hsome ⊢
    rw [if_neg hopkg]
    cases htype : purlTypeByDb db with
    | none => exact absurd (by rw [htype]) hsome
    | some ptype =>
        cases hvendor : context.vendor with
        | none => exact absurd (by rw [htype, hvendor]) hsome
        | some vendor =>
            dsimp only
            rw [hkey, ← hkind.fullVersion_eq_iff hone hother, Option.some_inj, Identity.typed.injEq]
            simp only [packageKey, apk_iff htype, true_and]

end Keys

/-! ## Purls -/

section Purls

variable {lower : String → String} {context : Context} {db : DbKind} {pkgs : List Listed}
  {one other : Listed}

/-- No purl of the inventory is that of a recipe. -/
theorem OneKind.refOf_eq (hkind : OneKind context db pkgs) {pkg : Listed} (hpkg : pkg ∈ pkgs)
    {purl : String} (hpurl : packagePurl lower context pkg = some purl) :
    refOf purl pkg.name = purl := by
  have hplain : startsWith "pkg:yocto/" purl = false := by
    rw [packagePurl, hkind.kind pkg hpkg] at hpurl
    dsimp only at hpurl
    have hyocto : ¬(db = .rpm ∧ context.isYocto = true) := by
      rintro ⟨hrpm, hyocto⟩
      rw [hkind.yocto hrpm] at hyocto
      cases hyocto
    rw [if_neg hyocto] at hpurl
    split at hpurl
    · cases hpurl
    · split at hpurl
      · next hnone => cases hnone
      · split at hpurl
        · cases hpurl
          exact startsWith_yocto_opkgPurl pkg
        · split at hpurl
          · next htype hvendor =>
              cases hpurl
              exact startsWith_yocto_typedPurl (purlTypeByDb_known htype) hvendor pkg
          · cases hpurl
  rw [refOf, hplain]
  rfl

/-- **A purl tells the package of the inventory that it names.** -/
theorem OneKind.packagePurl_eq_iff (hkind : OneKind context db pkgs) (hone : one ∈ pkgs)
    (hother : other ∈ pkgs) (hsome : packagePurl lower context one ≠ none)
    (hsome' : packagePurl lower context other ≠ none) :
    packagePurl lower context one = packagePurl lower context other ↔
      packageKey lower db one = packageKey lower db other := by
  obtain ⟨purl, hpurl⟩ := Option.ne_none_iff_exists'.mp hsome
  obtain ⟨purl', hpurl'⟩ := Option.ne_none_iff_exists'.mp hsome'
  rw [ne_eq, packagePurl_eq_none_iff] at hsome hsome'
  rw [← hkind.identity_eq_iff hone hother hsome hsome']
  obtain ⟨id, hid⟩ := Option.ne_none_iff_exists'.mp hsome
  obtain ⟨id', hid'⟩ := Option.ne_none_iff_exists'.mp hsome'
  have hpart : ∀ {pkg purl id}, pkg ∈ pkgs → packagePurl lower context pkg = some purl →
      identity lower context pkg = some id → purl = id.refText lower context := by
    intro pkg purl id hpkg hpurl hid
    rw [← hkind.refOf_eq hpkg hpurl]
    exact (ref_eq_refText_iff lower context (known_identity hid) hpurl).mpr hid
  rw [hpurl, hpurl', hid, hid', Option.some_inj, Option.some_inj, hpart hone hpurl hid,
    hpart hother hpurl' hid']
  constructor
  · intro hsame
    exact Identity.ref_inj (known_identity hid) (known_identity hid') (String.ofList_inj.mp hsame)
  · intro hsame
    rw [hsame]

end Purls

/-! ## Counting -/

section Counting

variable {α β γ : Type*} [DecidableEq β] [DecidableEq γ]

/-- Two ways to tell elements apart find as many. -/
theorem length_dedup_map_congr {f : α → β} {g : α → γ} {xs : List α}
    (hsame : ∀ x ∈ xs, ∀ y ∈ xs, f x = f y ↔ g x = g y) :
    (xs.map f).dedup.length = (xs.map g).dedup.length := by
  induction xs with
  | nil => rfl
  | cons x xs ih =>
      have hrest := ih fun y hy z hz => hsame y (.tail x hy) z (.tail x hz)
      have hmem : f x ∈ xs.map f ↔ g x ∈ xs.map g := by
        rw [List.mem_map, List.mem_map]
        exact exists_congr fun y => and_congr_right fun hy =>
          hsame y (.tail x hy) x (.head xs)
      rw [List.map_cons, List.map_cons, List.dedup_cons, List.dedup_cons]
      by_cases hseen : f x ∈ xs.map f
      · rw [if_pos hseen, if_pos (hmem.mp hseen), hrest]
      · rw [if_neg hseen, if_neg (mt hmem.mpr hseen), List.length_cons, List.length_cons, hrest]

/-- What is told apart from the rest is counted apart. -/
theorem length_dedup_map_partition {f : α → β} (p : α → Bool) {xs : List α}
    (hapart : ∀ x ∈ xs, ∀ y ∈ xs, f x = f y → p x = p y) :
    (xs.map f).dedup.length =
      ((xs.filter p).map f).dedup.length + ((xs.filter (! p ·)).map f).dedup.length := by
  have hparts : (xs.map f).Perm ((xs.filter p).map f ++ (xs.filter (! p ·)).map f) := by
    rw [← List.map_append]
    exact ((List.filter_append_perm p xs).map f).symm
  have hdisjoint : List.Disjoint ((xs.filter p).map f) ((xs.filter (! p ·)).map f) := by
    intro value hleft hright
    obtain ⟨x, hx, rfl⟩ := List.mem_map.mp hleft
    obtain ⟨y, hy, hsame⟩ := List.mem_map.mp hright
    obtain ⟨hx, hpx⟩ := List.mem_filter.mp hx
    obtain ⟨hy, hpy⟩ := List.mem_filter.mp hy
    rw [hapart y hy x hx hsame, hpx] at hpy
    cases hpy
  rw [hparts.dedup.length_eq, hdisjoint.dedup_append, List.length_append]

/-- Nothing is counted twice iff the count is that of a list without repetitions. -/
theorem length_dedup_eq_iff {xs : List β} : xs.dedup.length = xs.length ↔ xs.Nodup := by
  constructor
  · intro hlength
    exact List.dedup_eq_self.mp ((List.dedup_sublist xs).eq_of_length hlength)
  · intro hnodup
    rw [hnodup.dedup]

end Counting

/-! ## The inventory and its SBOM -/

section Inventory

variable {lower : String → String} {context : Context} {db : DbKind} {pkgs : List Listed}

/-- The packages of an inventory that have a purl. -/
def named (lower : String → String) (context : Context) (pkgs : List Listed) : List Listed :=
  (software pkgs).filter fun pkg => (packagePurl lower context pkg).isSome

/-- The packages that have none. -/
def unnamed (lower : String → String) (context : Context) (pkgs : List Listed) : List Listed :=
  (software pkgs).filter fun pkg => !(packagePurl lower context pkg).isSome

/-- The distinct packages among some. -/
def distinct (lower : String → String) (db : DbKind) (pkgs : List Listed) : List PackageKey :=
  (pkgs.map (packageKey lower db)).dedup

theorem mem_software {pkg : Listed} (hpkg : pkg ∈ software pkgs) : pkg ∈ pkgs :=
  List.mem_of_mem_filter hpkg

theorem mem_named {pkg : Listed} : pkg ∈ named lower context pkgs ↔
    pkg ∈ software pkgs ∧ packagePurl lower context pkg ≠ none := by
  rw [named, List.mem_filter, Option.isSome_iff_ne_none]

/-- The identities of the inventory are the distinct packages that have a purl. -/
theorem OneKind.length_identities (hkind : OneKind context db pkgs) :
    (identities lower context pkgs).length =
      (distinct lower db (named lower context pkgs)).length := by
  have hsome : ((software pkgs).filterMap (identity lower context)).map some =
      (named lower context pkgs).map (identity lower context) := by
    rw [named]
    induction software pkgs with
    | nil => rfl
    | cons pkg rest ih =>
        have hpurl := packagePurl_eq_none_iff lower context pkg
        rw [List.filterMap_cons, List.filter_cons]
        cases hid : identity lower context pkg with
        | none => rw [hpurl.mpr hid]; exact ih
        | some id =>
            have hnamed : (packagePurl lower context pkg).isSome = true := by
              rw [Option.isSome_iff_ne_none, ne_eq, hpurl, hid]
              exact nofun
            rw [if_pos hnamed, List.map_cons, List.map_cons, ih, hid]
  calc (identities lower context pkgs).length
      = (((software pkgs).filterMap (identity lower context)).map some).dedup.length := by
        rw [List.dedup_map_of_injective (Option.some_injective _), List.length_map, identities]
    _ = ((named lower context pkgs).map (identity lower context)).dedup.length := by rw [hsome]
    _ = (distinct lower db (named lower context pkgs)).length := by
        apply length_dedup_map_congr
        intro one hone other hother
        obtain ⟨hone, hpurl⟩ := mem_named.mp hone
        obtain ⟨hother, hpurl'⟩ := mem_named.mp hother
        exact hkind.identity_eq_iff (mem_software hone) (mem_software hother)
          (mt (packagePurl_eq_none_iff lower context one).mpr hpurl)
          (mt (packagePurl_eq_none_iff lower context other).mpr hpurl')

/-- Whether a package has a purl, its key tells. -/
theorem OneKind.isSome_packagePurl_eq (hkind : OneKind context db pkgs)
    (hlower : ∀ name, lower name = "" ↔ name = "") {one other : Listed} (hone : one ∈ pkgs)
    (hother : other ∈ pkgs) (hkey : packageKey lower db one = packageKey lower db other) :
    (packagePurl lower context one).isSome = (packagePurl lower context other).isSome := by
  have hnone : identity lower context one = none ↔ identity lower context other = none := by
    have hname : one.name = "" ↔ other.name = "" := by
      have hkeyName := congrArg PackageKey.name hkey
      simp only [packageKey] at hkeyName
      by_cases halpine : db = .alpine
      · rw [if_pos halpine, if_pos halpine] at hkeyName
        rw [← hlower one.name, hkeyName, hlower]
      · rw [if_neg halpine, if_neg halpine] at hkeyName
        rw [hkeyName]
    have hversion : one.version = other.version := congrArg PackageKey.version hkey
    have hempty : (one.name = "" ∨ one.version = "") ↔ (other.name = "" ∨ other.version = "") := by
      rw [hname, hversion]
    rw [hkind.identity_eq hone, hkind.identity_eq hother]
    by_cases hblank : other.name = "" ∨ other.version = ""
    · rw [if_pos (hempty.mpr hblank), if_pos hblank]
    · rw [if_neg (mt hempty.mp hblank), if_neg hblank]
      split
      · exact iff_of_false nofun nofun
      · split
        · exact iff_of_false nofun nofun
        · exact Iff.rfl
  rw [← packagePurl_eq_none_iff, ← packagePurl_eq_none_iff] at hnone
  cases hpurl : packagePurl lower context one with
  | none => rw [hnone.mp hpurl]
  | some purl =>
      have hother : packagePurl lower context other ≠ none := by
        rw [ne_eq, ← hnone, hpurl]
        exact nofun
      rw [Option.isSome_some, Option.isSome_iff_ne_none.mpr hother]

/-- The distinct packages are those with a purl and those without. -/
theorem OneKind.length_distinct (hkind : OneKind context db pkgs)
    (hlower : ∀ name, lower name = "" ↔ name = "") :
    (distinct lower db (software pkgs)).length =
      (distinct lower db (named lower context pkgs)).length +
        (distinct lower db (unnamed lower context pkgs)).length := by
  apply length_dedup_map_partition fun pkg => (packagePurl lower context pkg).isSome
  intro one hone other hother hkey
  exact hkind.isSome_packagePurl_eq hlower (mem_software hone) (mem_software hother) hkey

/-- The components have the purls of the packages, each once. -/
theorem OneKind.map_purl_perm (hkind : OneKind context db pkgs) :
    ((sbomPackages lower context pkgs).map Component.purl).Perm
      ((named lower context pkgs).map (packagePurl lower context)).dedup := by
  -- A component is referred to by its purl.
  have hentry : ∀ component ∈ sbomPackages lower context pkgs,
      component.purl = some component.bomRef := by
    intro component hcomponent
    obtain ⟨entry, hentry, rfl⟩ := List.mem_map.mp hcomponent
    obtain ⟨pkg, hpkg, hsome⟩ :=
      mem_entries_of_mem_sbomComponents lower context pkgs (mem_sortedBy.mp hentry)
    obtain ⟨purl, hpurl, rfl⟩ := (sbomEntry_eq_some_iff lower context).mp hsome
    show some purl = some (refOf purl pkg.name)
    rw [hkind.refOf_eq (mem_software hpkg) hpurl]
  have hpurls : (sbomPackages lower context pkgs).map Component.purl =
      ((sbomPackages lower context pkgs).map Component.bomRef).map some := by
    rw [List.map_map]
    exact List.map_congr_left hentry
  have hkeys : ((sbomPackages lower context pkgs).map Component.bomRef).Perm
      (sbomComponents lower context pkgs).keys := by
    rw [map_bomRef_sbomPackages]
    exact (sortedBy_perm _ _).map Prod.fst
  rw [hpurls]
  -- Both sides have no purl twice, so their members decide.
  apply (List.perm_ext_iff_of_nodup _ (List.nodup_dedup _)).mpr
  · intro purl
    rw [(hkeys.map some).mem_iff, List.mem_map, List.mem_dedup, List.mem_map]
    constructor
    · rintro ⟨ref, href, hpurl⟩
      obtain ⟨entry, hentry, rfl⟩ := List.mem_map.mp href
      obtain ⟨pkg, hpkg, hsome⟩ := mem_entries_of_mem_sbomComponents lower context pkgs hentry
      obtain ⟨purl, hown, rfl⟩ := (sbomEntry_eq_some_iff lower context).mp hsome
      refine ⟨pkg, mem_named.mpr ⟨hpkg, by rw [hown]; exact nofun⟩, ?_⟩
      rw [hown, ← hpurl, hkind.refOf_eq (mem_software hpkg) hown]
    · rintro ⟨pkg, hpkg, hpurl⟩
      obtain ⟨hpkg, hsome⟩ := mem_named.mp hpkg
      obtain ⟨text, htext⟩ := Option.ne_none_iff_exists'.mp hsome
      refine ⟨text, ?_, by rw [← hpurl, htext]⟩
      have hid := mt (packagePurl_eq_none_iff lower context pkg).mpr hsome
      obtain ⟨id, hid⟩ := Option.ne_none_iff_exists'.mp hid
      rw [mem_keys_sbomComponents, List.mem_map]
      refine ⟨id, (mem_identities lower context).mpr ⟨pkg, hpkg, hid⟩, ?_⟩
      rw [← hkind.refOf_eq (mem_software hpkg) htext]
      exact ((ref_eq_refText_iff lower context (known_identity hid) htext).mpr hid).symm
  · apply List.Nodup.map (Option.some_injective _)
    exact hkeys.nodup_iff.mpr (sbomComponents lower context pkgs).nodup

end Inventory

/-- **Purls tell the packages of an inventory apart, and `build_sbom` has one component for each
distinct package with a purl.  What it counts are the distinct packages, iff none without a purl is
listed twice.** -/
theorem buildSbom_distinct (lower : String → String) (context : Context) (host : PackageHost)
    (facts : HostFacts) (db : DbKind) (hlower : ∀ name, lower name = "" ↔ name = "")
    (hkind : OneKind context db (installedPackages host context.osRelease.family)) :
    let pkgs := installedPackages host context.osRelease.family
    let sbom := buildSbom lower context host facts
    (∀ one ∈ pkgs, ∀ other ∈ pkgs, packagePurl lower context one ≠ none →
      packagePurl lower context other ≠ none →
        (packagePurl lower context one = packagePurl lower context other ↔
          packageKey lower db one = packageKey lower db other)) ∧
    (∃ packages, sbom.components = osComponent context facts :: packages ∧
      (packages.map Component.purl).Perm
        ((named lower context pkgs).map (packagePurl lower context)).dedup ∧
      packages.length = (distinct lower db (named lower context pkgs)).length) ∧
    (sbom.hostRef :: sbom.components.map Component.bomRef).Nodup ∧
    sbom.dependsOn = sbom.components.map Component.bomRef ∧
    sbom.packageCount = (distinct lower db (named lower context pkgs)).length ∧
    sbom.withoutPurl = (unnamed lower context pkgs).length ∧
    (sbom.packageCount + sbom.withoutPurl = (distinct lower db (software pkgs)).length ↔
      ((unnamed lower context pkgs).map (packageKey lower db)).Nodup) := by
  intro pkgs sbom
  have hsbom : sbom = buildSbom lower context host facts := rfl
  rw [buildSbom_eq] at hsbom
  have hwithout : sbom.withoutPurl = (unnamed lower context pkgs).length := by
    have hnone : ∀ pkg, (!(packagePurl lower context pkg).isSome) =
        decide (identity lower context pkg = none) := by
      intro pkg
      rw [Bool.eq_iff_iff, decide_eq_true_iff, ← packagePurl_eq_none_iff, Bool.not_eq_true',
        Option.isSome_eq_false_iff, Option.isNone_iff_eq_none]
    rw [hsbom, unnamed]
    simp only [hnone]
    rfl
  have hcount : sbom.packageCount = (distinct lower db (named lower context pkgs)).length := by
    rw [hsbom, ← hkind.length_identities]
    exact length_sbomComponents lower context pkgs
  -- The last part counts once more what the parts before it have counted.
  refine ⟨fun one hone other hother => hkind.packagePurl_eq_iff hone hother,
    ⟨sbomPackages lower context pkgs, by rw [hsbom], hkind.map_purl_perm, ?_⟩, ?_,
    by rw [hsbom]; rfl, hcount, hwithout, ?_⟩
  · rw [← hkind.length_identities, ← length_sbomComponents, sbomPackages, List.length_map]
    exact (sortedBy_perm _ _).length_eq
  · rw [hsbom]
    exact nodup_bomRefs lower context pkgs facts
  · rw [hcount, hwithout, hkind.length_distinct hlower, Nat.add_left_cancel_iff, eq_comm, distinct,
      ← length_dedup_eq_iff, List.length_map]

/-- What is known of a host with Fedora. -/
def fedoraContext : Context where
  osRelease := { family := "rhel", id := some "fedora" }

/-- An rpm database of one package for two architectures, with a key. -/
def rpmHost : PackageHost where
  hasPrefix := false
  rpmdbLocated := true
  rpm := some
    [{ name := "glibc", version := "2.39", release := some "1", arch := some "x86_64" },
      { name := "glibc", version := "2.39", release := some "1", arch := some "i686",
        epoch := some "0" },
      { name := "gpg-pubkey", version := "8d8b756f", release := some "1" }]
  readDb := fun _ => none
  runTool := fun _ => none
  onPath := fun _ => false

theorem buildSbom_distinct_rpmHost : (buildSbom id fedoraContext rpmHost {}).packageCount = 2 := by
  have hkind : OneKind fedoraContext .rpm (installedPackages rpmHost "rhel") :=
    ⟨by decide, fun _ => rfl, .inr (by decide), nofun⟩
  have hcount := (buildSbom_distinct id fedoraContext rpmHost {} .rpm (fun name => Iff.rfl)
    hkind).2.2.2.2.1
  exact hcount.trans (by decide +kernel)

/-- A Debian tree without os-release, with a package for two architectures. -/
def debianTree : PackageHost where
  hasPrefix := true
  rpmdbLocated := false
  rpm := none
  readDb := fun kind =>
    if kind = .debian then
      some [{ name := "libc6", version := "2.36-9" }, { name := "libc6", version := "2.36-9" }]
    else none
  runTool := fun _ => none
  onPath := fun _ => false

/-- An rpm database with a header that has no release. -/
def releaseless : PackageHost :=
  { rpmHost with
    rpm := some
      [{ name := "tool", version := "1-2" },
        { name := "tool", version := "1", release := some "2" }] }

/-- A package without a purl counts as often as it is listed, and a version with a dash is taken for
a version with a release. -/
theorem not_distinct_listedTwice :
    (let sbom := buildSbom id { osRelease := {} } debianTree {}
     sbom.packageCount + sbom.withoutPurl ≠
      (distinct id .debian (software (installedPackages debianTree "unknown"))).length) ∧
    (buildSbom id fedoraContext releaseless {}).packageCount ≠
      (distinct id .rpm (software (installedPackages releaseless "rhel"))).length ∧
    ∀ pkg ∈ installedPackages releaseless "rhel", pkg.release ≠ none → '-' ∉ pkg.version.toList := by
  decide +kernel

end PqcReadiness.Bom
