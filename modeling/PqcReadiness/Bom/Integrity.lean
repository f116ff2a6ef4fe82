import PqcReadiness.Bom.Merge

/-!
# Referential integrity of the CBOM

The references of a CBOM are distinct, its links lead to references that it has, and the component of
a library provides the algorithms that the library has.  That holds of a document with crypto assets
in 1.7 exactly if no two algorithm names have one key, and no two libraries with algorithms one
reference (`integrity_iff`); of two libraries with one reference, the later one takes the place of
the other in what is provided.
-/

namespace PqcReadiness.Bom

open PqcReadiness.Lib PqcReadiness.Packages

variable {lower upper : String → String} {context : Context} {host : PackageHost}
  {report : Report} {spec : SpecVersion} {profile : Profile} {interop : Interop}

/-! ## The libraries and the services of a document -/

section Merged

/-- The keys of the assets of a document. -/
def assetKeys (upper : String → String) (report : Report) (spec : SpecVersion) (profile : Profile) :
    List String :=
  (profileAssets report profile).map CryptoAsset.key ++
    (specLibraryAssets upper report spec).map CryptoAsset.key

/-- The references of libraries and of services, what services use, and what libraries provide. -/
structure Refers (keys : List String) (merged : Merged) : Prop where
  libraries : Begin libraryStarts (merged.libraries.map CbomComponent.bomRef)
  services : Begin serviceStarts (merged.services.map CbomComponent.bomRef)
  plainLibraries : ∀ component ∈ merged.libraries, component.related = []
  plainServices : ∀ component ∈ merged.services, component.related = []
  uses : ∀ service refs, merged.uses.get? service = some refs →
    ∀ ref ∈ refs, ref ∈ merged.libraries.map CbomComponent.bomRef
  provides : ∀ ref key, key ∈ (merged.provides.get? ref).getD [] → key ∈ keys

/-- The components that the interop mode adds. -/
structure RefersFound (keys : List String) (found : LibraryState) : Prop where
  libs : ∀ purl component, found.libs.get? purl = some component →
    component.purl = purl ∧ StartsAs libraryStarts purl
  provides : ∀ ref key, key ∈ (found.provides.get? ref).getD [] → key ∈ keys

theorem RefersFound.map_bomRef {keys : List String} {found : LibraryState}
    (hfound : RefersFound keys found) :
    (found.libs.values.map LibraryComponent.component).map CbomComponent.bomRef =
      found.libs.keys := by
  unfold Dict.values Dict.keys
  rw [List.map_map, List.map_map]
  refine List.map_congr_left ?_
  rintro ⟨purl, component⟩ hentry
  exact (hfound.libs purl component ((Dict.mem_entries_iff _).mp hentry)).1

theorem RefersFound.plain {keys : List String} {found : LibraryState}
    (hfound : RefersFound keys found) :
    ∀ component ∈ found.libs.values.map LibraryComponent.component,
      Plain libraryStarts component := by
  intro component hcomponent
  obtain ⟨library, hlibrary, rfl⟩ := List.mem_map.mp hcomponent
  obtain ⟨purl, hget⟩ := (Dict.mem_values_iff _).mp hlibrary
  obtain ⟨rfl, hstarts⟩ := hfound.libs purl library hget
  exact ⟨hstarts, rfl⟩

/-- What `_library_components` finds, if it is called. -/
def foundOf (lower : String → String) (context : Context) (host : PackageHost) (report : Report)
    (profile : Profile) (interop : Interop) : LibraryState :=
  match interop with
  | .none => {}
  | .dependencyTrack | .sbomOnly =>
      libraryComponents lower context host (profileAssets report profile) report.bundledCrypto

theorem foundOf_refers (report : Report) (profile : Profile) (interop : Interop) :
    RefersFound ((profileAssets report profile).map CryptoAsset.key)
      (foundOf lower context host report profile interop) := by
  have hcall : RefersFound ((profileAssets report profile).map CryptoAsset.key)
      (libraryComponents lower context host (profileAssets report profile)
        report.bundledCrypto) := by
    refine ⟨fun purl component hget => startsAs_libraryComponents hget, fun ref key hkey => ?_⟩
    obtain ⟨keys, hget, hkey⟩ := exists_of_mem_getD hkey
    exact provides_libraryComponents hget key hkey
  cases interop with
  | none => exact ⟨nofun, nofun⟩
  | dependencyTrack => exact hcall
  | sbomOnly => exact hcall

/-- The references of the libraries that are found, that have a component, and that are extra. -/
theorem mem_mergedLibraries {libraries components extra : List CbomComponent} {ref : String} :
    (((components ++ extra).foldl addComponent (byRef libraries)).get? ref).isSome ↔
      ref ∈ libraries.map CbomComponent.bomRef ∨ ref ∈ components.map CbomComponent.bomRef ∨
        ref ∈ extra.map CbomComponent.bomRef := by
  have hadd := mem_keys_foldl addComponent
    (fun byRef component ref => isSome_get?_update byRef _ _ _) (components ++ extra)
    (byRef libraries) ref
  have hbase := mem_keys_foldl
    (fun byRef component => byRef.update component.bomRef fun _ => component)
    (fun byRef component ref => isSome_get?_update byRef _ _ _) libraries .empty ref
  rw [hadd, List.map_append, List.mem_append]
  unfold byRef
  rw [hbase]
  simp

theorem mergedOf_v16 : mergedOf lower upper context host report .v16 profile interop =
    { libraries := (foundOf lower context host report profile interop).libs.values.map
        LibraryComponent.component
      provides := (foundOf lower context host report profile interop).provides } := by
  cases interop <;> rfl

theorem mergedOf_v17 : mergedOf lower upper context host report .v17 profile interop =
    mergeInventory lower context host report (libraryCryptoAssets upper report)
      ((foundOf lower context host report profile interop).libs.values.map
        LibraryComponent.component)
      (foundOf lower context host report profile interop).provides := by
  cases interop <;> rfl

/-- What the buckets of a document have. -/
theorem mem_provides_v17 {ref key : String} :
    key ∈ (((mergedOf lower upper context host report .v17 profile interop).provides).get?
        ref).getD [] ↔
      key ∈ ((foundOf lower context host report profile interop).provides.get? ref).getD [] ∨
        key ∈ ((cryptoLibraryInventory lower context host report
          (libraryCryptoAssets upper report)).provides.get? ref).getD [] := by
  rw [mergedOf_v17]
  exact mem_foldl_addKeys (Dict.nodup _) _ ref key

/-- A library without installs that has algorithms. -/
structure Provider (report : Report) (lib : String) (info : LibraryInfo) : Prop where
  mem : (lib, info) ∈ librariesOf report
  installed : info.installed = true
  installs : info.installs = []
  algorithms : ∃ algorithms ∈ info.algorithms.entries, algorithms.2 ≠ []

theorem keysOf_ne_nil_iff {lib : String} {info : LibraryInfo}
    (hmem : (lib, info) ∈ librariesOf report) (hinstalled : info.installed = true) :
    keysOf upper report lib ≠ [] ↔ ∃ algorithms ∈ info.algorithms.entries, algorithms.2 ≠ [] := by
  rw [List.ne_nil_iff_exists_cons]
  constructor
  · rintro ⟨key, rest, hkeys⟩
    obtain ⟨name, hname, rfl, -⟩ := mem_keysOf.mp (hkeys ▸ List.mem_cons_self)
    obtain ⟨other, hother, -, names, halgorithms, hmember⟩ := mem_libraryNames.mp hname
    have hsame : other = info := by
      have hfind := find_eq_some_of_mem (nodup_keys_librariesOf report) hmem
      rw [find_eq_some_of_mem (nodup_keys_librariesOf report) hother] at hfind
      exact Option.some.inj hfind
    subst hsame
    exact ⟨_, halgorithms, List.ne_nil_of_mem hmember⟩
  · rintro ⟨⟨kind, names⟩, halgorithms, hne⟩
    obtain ⟨text, rest, rfl⟩ := List.exists_cons_of_ne_nil hne
    have hname : (lib, kind, text) ∈ libraryNames report :=
      mem_libraryNames.mpr ⟨info, hmem, hinstalled, _, halgorithms, List.mem_cons_self⟩
    have hkey : nameKey upper (lib, kind, text) ∈ keysOf upper report lib :=
      mem_keysOf.mpr ⟨_, hname, rfl, rfl⟩
    exact List.exists_cons_of_ne_nil (List.ne_nil_of_mem hkey)

theorem mem_providers {ref : String} {keys : List String} :
    (ref, keys) ∈ providers lower upper context host report ↔
      ∃ lib info, Provider report lib info ∧ ref = libraryRef lower context host lib info ∧
        keys = keysOf upper report lib := by
  unfold providers
  rw [List.mem_filterMap]
  constructor
  · rintro ⟨⟨lib, info⟩, hmem, hentry⟩
    dsimp only at hentry
    split at hentry
    · next hprovider =>
        obtain ⟨hinstalled, hinstalls, hkeys⟩ := hprovider
        cases hentry
        exact ⟨lib, info, ⟨hmem, hinstalled, hinstalls,
          (keysOf_ne_nil_iff hmem hinstalled).mp hkeys⟩, rfl, rfl⟩
    · cases hentry
  · rintro ⟨lib, info, hprovider, rfl, rfl⟩
    refine ⟨(lib, info), hprovider.mem, ?_⟩
    dsimp only
    rw [if_pos ⟨hprovider.installed, hprovider.installs,
      (keysOf_ne_nil_iff hprovider.mem hprovider.installed).mpr hprovider.algorithms⟩]

/-- What is provided under the reference of a provider is what a provider of that reference has. -/
theorem provides_libraryRef {lib : String} {info : LibraryInfo}
    (hprovider : Provider report lib info) :
    ∃ other found, Provider report other found ∧
      libraryRef lower context host other found = libraryRef lower context host lib info ∧
      ((cryptoLibraryInventory lower context host report
        (libraryCryptoAssets upper report)).provides.get?
          (libraryRef lower context host lib info)) = some (keysOf upper report other) := by
  rw [provides_cryptoLibraryInventory]
  have hentry : (libraryRef lower context host lib info, keysOf upper report lib) ∈
      providers lower upper context host report :=
    mem_providers.mpr ⟨lib, info, hprovider, rfl, rfl⟩
  obtain ⟨keys, hget⟩ := Option.isSome_iff_exists.mp (isSome_foldl_insert hentry .empty)
  rcases get?_foldl_insert hget with hfound | hempty
  · obtain ⟨other, found, hother, href, rfl⟩ := mem_providers.mp hfound
    exact ⟨other, found, hother, href.symm, hget⟩
  · cases hempty

theorem key_of_provides {ref key : String}
    (hkey : key ∈ ((cryptoLibraryInventory lower context host report
      (libraryCryptoAssets upper report)).provides.get? ref).getD []) :
    key ∈ (libraryCryptoAssets upper report).map CryptoAsset.key := by
  obtain ⟨keys, hget, hkey⟩ := exists_of_mem_getD hkey
  rw [provides_cryptoLibraryInventory] at hget
  rcases get?_foldl_insert hget with hfound | hempty
  · obtain ⟨lib, info, -, -, rfl⟩ := mem_providers.mp hfound
    obtain ⟨name, hname, -, rfl⟩ := mem_keysOf.mp hkey
    rw [map_key_libraryCryptoAssets]
    exact List.mem_map.mpr ⟨name, hname, rfl⟩
  · cases hempty

/-- The libraries of a 1.7 document by their references. -/
theorem keyed_mergedLibraries (report : Report) (profile : Profile) (interop : Interop) :
    Keyed libraryStarts (((cryptoLibraryInventory lower context host report
      (libraryCryptoAssets upper report)).components ++ (serviceInventory report
        (cryptoLibraryInventory lower context host report
          (libraryCryptoAssets upper report)).index).extra.values).foldl addComponent
        (byRef ((foundOf lower context host report profile interop).libs.values.map
          LibraryComponent.component))) := by
  have hfound := @foundOf_refers lower context host report profile interop
  have hinventory := @cryptoLibraryInventory_inventories lower context host report
    (libraryCryptoAssets upper report)
  have hserves := serviceInventory_serves report (cryptoLibraryInventory lower context host report
    (libraryCryptoAssets upper report)).index
  have hbase := keyed_foldl (fun byRef component => byRef.update component.bomRef fun _ =>
    component) (fun _ _ hkeyed hplain => hkeyed.insert hplain) hfound.plain
      (keyed_empty libraryStarts)
  refine keyed_foldl addComponent (fun _ _ hkeyed hplain => hkeyed.setdefault hplain)
    (fun component hcomponent => ?_) hbase
  rcases List.mem_append.mp hcomponent with hcomponent | hcomponent
  · exact hinventory.plain component hcomponent
  · exact hserves.extra.of_mem hcomponent

theorem mergedLibraries_v17_iff {ref : String} :
    ref ∈ (mergedOf lower upper context host report .v17 profile interop).libraries.map
        CbomComponent.bomRef ↔
      ref ∈ ((foundOf lower context host report profile interop).libs.values.map
          LibraryComponent.component).map CbomComponent.bomRef ∨
        ref ∈ (cryptoLibraryInventory lower context host report
          (libraryCryptoAssets upper report)).components.map CbomComponent.bomRef ∨
        ref ∈ (serviceInventory report (cryptoLibraryInventory lower context host report
          (libraryCryptoAssets upper report)).index).extra.values.map CbomComponent.bomRef := by
  rw [mergedOf_v17, ← mem_mergedLibraries, ← Dict.mem_keys_iff]
  unfold mergeInventory
  dsimp only
  rw [(keyed_mergedLibraries report profile interop).map_bomRef]

theorem mergedOf_refers (report : Report) (spec : SpecVersion) (profile : Profile)
    (interop : Interop) : Refers (assetKeys upper report spec profile)
      (mergedOf lower upper context host report spec profile interop) := by
  have hfound := @foundOf_refers lower context host report profile interop
  have hprofile : ∀ {key}, key ∈ (profileAssets report profile).map CryptoAsset.key →
      key ∈ assetKeys upper report spec profile := fun hkey => List.mem_append_left _ hkey
  cases spec with
  | v16 =>
      rw [mergedOf_v16]
      refine ⟨?_, begin_nil _, fun component hcomponent => (hfound.plain component
        hcomponent).related, nofun, nofun, fun ref key hkey => hprofile
          (hfound.provides ref key hkey)⟩
      refine begin_intro ?_ fun ref href => ?_
      · rw [hfound.map_bomRef]
        exact Dict.nodup _
      · obtain ⟨component, hcomponent, rfl⟩ := List.mem_map.mp href
        exact (hfound.plain component hcomponent).starts
  | v17 =>
      have hinventory := @cryptoLibraryInventory_inventories lower context host report
        (libraryCryptoAssets upper report)
      have hserves := serviceInventory_serves report (cryptoLibraryInventory lower context host
        report (libraryCryptoAssets upper report)).index
      have hkeyed := @keyed_mergedLibraries lower upper context host report profile interop
      refine ⟨?_, ?_, ?_, ?_, ?_, ?_⟩
      · rw [mergedOf_v17]
        exact hkeyed.begin
      · rw [mergedOf_v17]
        exact hserves.services.begin
      · rw [mergedOf_v17]
        exact fun component hcomponent => (hkeyed.of_mem hcomponent).related
      · rw [mergedOf_v17]
        exact fun component hcomponent => (hserves.services.of_mem hcomponent).related
      · intro service refs hget ref href
        rw [mergedOf_v17] at hget
        rw [mergedLibraries_v17_iff]
        right
        rcases hserves.uses service refs hget ref href with ⟨key, hkey⟩ | hextra
        · exact Or.inl (hinventory.index key ref hkey)
        · rw [hserves.extra.map_bomRef, Dict.mem_keys_iff]
          exact Or.inr hextra
      · intro ref key hkey
        rcases mem_provides_v17.mp hkey with hkey | hkey
        · exact hprofile (hfound.provides ref key hkey)
        · exact List.mem_append_right _ (key_of_provides hkey)

end Merged

/-! ## The document -/

section Document

/-- What a link may lead to: the components and the host. -/
def Cbom.links (doc : Cbom) : List String :=
  doc.hostRef :: doc.components.map CbomComponent.bomRef

/-- References are distinct, links lead to references, and the libraries of a 1.7 document with
crypto assets provide their algorithms. -/
structure Integrity (lower upper : String → String) (context : Context) (host : PackageHost)
    (report : Report) (spec : SpecVersion) (interop : Interop) (doc : Cbom) : Prop where
  distinct : (doc.hostRef :: doc.toolRef :: doc.components.map CbomComponent.bomRef).Nodup
  dependencies : ∀ entry ∈ doc.dependencies, entry.ref ∈ doc.links ∧
    ∀ ref ∈ entry.dependsOn ++ entry.provides, ref ∈ doc.links
  related : ∀ component ∈ doc.components, ∀ ref ∈ component.related, ref ∈ doc.links
  provided : spec = .v17 → interop ≠ .sbomOnly → ∀ lib info, (lib, info) ∈ librariesOf report →
    info.installed = true → info.installs = [] →
      ∀ asset ∈ libraryCryptoAssets upper report, asset.library = lib →
        ∃ entry ∈ doc.dependencies, entry.ref = libraryRef lower context host lib info ∧
          asset.key ∈ entry.provides

/-- No two libraries with algorithms have one reference. -/
def DistinctRefs (lower : String → String) (context : Context) (host : PackageHost)
    (report : Report) : Prop :=
  ∀ lib info other found, Provider report lib info → Provider report other found →
    libraryRef lower context host lib info = libraryRef lower context host other found → lib = other

/-- The references of the components of the assets. -/
theorem map_bomRef_assetComponents : (assetComponents lower upper report spec profile).map
    CbomComponent.bomRef = (profileAssets report profile).map CryptoAsset.key ++
      (match spec with
        | .v16 => []
        | .v17 => (protocolComponents (profileAssets report profile)).map CbomComponent.bomRef ++
            (certificateComponents lower report).map CbomComponent.bomRef) ++
        (specLibraryAssets upper report spec).map CryptoAsset.key := by
  have hassets : ∀ assets : List CryptoAsset,
      (assets.map assetComponent).map CbomComponent.bomRef = assets.map CryptoAsset.key :=
    fun assets => List.map_map ..
  have hlibrary : ∀ assets : List CryptoAsset,
      (assets.map libraryAssetComponent).map CbomComponent.bomRef = assets.map CryptoAsset.key :=
    fun assets => List.map_map ..
  unfold assetComponents
  dsimp only
  rw [List.map_append, hlibrary]
  cases spec with
  | v16 =>
      dsimp only
      rw [hassets, List.append_nil]
  | v17 =>
      dsimp only
      simp only [List.map_append, hassets, List.append_assoc]

/-- The assets, the host and the tool. -/
theorem begin_assetComponents (hreport : DuplicateFree report)
    (hkeys : spec = .v17 → DistinctKeys upper report) :
    Begin (assetStarts ++ ["protocol/", "cert/"] ++ ["library/"])
      ((assetComponents lower upper report spec profile).map CbomComponent.bomRef) := by
  rw [map_bomRef_assetComponents]
  have hprofile := begin_profileAssets hreport profile
  cases spec with
  | v16 =>
      exact (hprofile.append (begin_nil ["protocol/", "cert/"]) (by decide +kernel)).append
        (begin_nil ["library/"]) (by decide +kernel)
  | v17 =>
      have hcomponents := (begin_protocolComponents (profileAssets report profile)).append
        (begin_certificateComponents lower report) (by decide +kernel)
      exact (hprofile.append hcomponents (by decide +kernel)).append
        (begin_libraryCryptoAssets hreport (hkeys rfl)) (by decide +kernel)

/-- The components of the assets that a document has. -/
def emittedComponents (lower upper : String → String) (report : Report) (spec : SpecVersion)
    (profile : Profile) (interop : Interop) : List CbomComponent :=
  if interop = .sbomOnly then [] else assetComponents lower upper report spec profile

theorem components_renderCbom :
    (renderCbom lower upper context host report spec profile interop).components =
      emittedComponents lower upper report spec profile interop ++
        ((mergedOf lower upper context host report spec profile interop).libraries ++
          (mergedOf lower upper context host report spec profile interop).services) := by
  cases interop <;> rfl

/-- The references of a document are distinct if the keys of the libraries' algorithms are. -/
theorem nodup_renderCbom (hreport : DuplicateFree report)
    (hkeys : spec = .v17 → interop ≠ .sbomOnly → DistinctKeys upper report) :
    ((hostRef report) :: "tool/pqc-readiness@2.4.0" ::
      (renderCbom lower upper context host report spec profile interop).components.map
        CbomComponent.bomRef).Nodup := by
  have hrefers := @mergedOf_refers lower upper context host report spec profile interop
  have hhost : Begin ["host/"] [hostRef report] :=
    begin_map "host/" (List.nodup_singleton _)
  have htool : Begin ["tool/"] ["tool/pqc-readiness@2.4.0"] :=
    begin_map "tool/" (List.nodup_singleton "pqc-readiness@2.4.0")
  have hassets : Begin (assetStarts ++ ["protocol/", "cert/"] ++ ["library/"])
      ((emittedComponents lower upper report spec profile interop).map CbomComponent.bomRef) := by
    unfold emittedComponents
    split
    · exact begin_nil _
    · next hinterop => exact begin_assetComponents hreport fun hspec => hkeys hspec hinterop
  have hinventory := hrefers.libraries.append hrefers.services (by decide +kernel)
  have hall := (hhost.append htool (by decide +kernel)).append
    (hassets.append hinventory (by decide +kernel)) (by decide +kernel)
  rw [components_renderCbom, List.map_append, List.map_append]
  exact hall.nodup

/-- Where an entry of `dependencies` comes from. -/
theorem mem_dependencies {entry : Dependency} (hentry : entry ∈
      (renderCbom lower upper context host report spec profile interop).dependencies) :
    (entry.ref = hostRef report ∧ entry.provides = [] ∧ entry.dependsOn =
        ((mergedOf lower upper context host report spec profile interop).libraries ++
          (mergedOf lower upper context host report spec profile interop).services).map
            CbomComponent.bomRef) ∨
      (∃ service ∈ (mergedOf lower upper context host report spec profile interop).services,
        entry.ref = service.bomRef ∧ entry.provides = [] ∧ entry.dependsOn =
          ((mergedOf lower upper context host report spec profile interop).uses.get?
            service.bomRef).getD []) ∨
      ∃ library ∈ (mergedOf lower upper context host report spec profile interop).libraries,
        entry.ref = library.bomRef ∧ entry.dependsOn = [] ∧
          (interop = .sbomOnly → entry.provides = []) ∧
          (interop ≠ .sbomOnly → entry.provides =
            ((mergedOf lower upper context host report spec profile interop).provides.get?
              library.bomRef).getD []) := by
  unfold renderCbom at hentry
  dsimp only at hentry
  split at hentry
  · cases hentry
  · unfold dependenciesOf at hentry
    rcases List.mem_append.mp hentry with hentry | hentry
    · rcases List.mem_cons.mp hentry with rfl | hentry
      · exact Or.inl ⟨rfl, rfl, rfl⟩
      · obtain ⟨service, hservice, rfl⟩ := List.mem_map.mp hentry
        exact Or.inr (Or.inl ⟨service, hservice, rfl, rfl, rfl⟩)
    · obtain ⟨library, hlibrary, rfl⟩ := List.mem_map.mp hentry
      refine Or.inr (Or.inr ⟨library, hlibrary, rfl, rfl, ?_, ?_⟩)
      · rintro rfl
        rfl
      · intro hinterop
        cases interop with
        | none => rfl
        | dependencyTrack => rfl
        | sbomOnly => exact absurd rfl hinterop

/-- The entry of a library. -/
theorem exists_dependency {library : CbomComponent} (hinterop : interop ≠ .sbomOnly)
    (hlibrary : library ∈
      (mergedOf lower upper context host report spec profile interop).libraries) :
    { ref := library.bomRef
      provides := ((mergedOf lower upper context host report spec profile interop).provides.get?
        library.bomRef).getD [] } ∈
      (renderCbom lower upper context host report spec profile interop).dependencies := by
  unfold renderCbom
  dsimp only
  have hne : ¬ (interop = .none ∧
      ((mergedOf lower upper context host report spec profile interop).libraries ++
        (mergedOf lower upper context host report spec profile interop).services).isEmpty) := by
    rintro ⟨-, hempty⟩
    rw [List.isEmpty_iff, List.append_eq_nil_iff] at hempty
    rw [hempty.1] at hlibrary
    cases hlibrary
  rw [if_neg hne]
  unfold dependenciesOf
  refine List.mem_append_right _ (List.mem_map.mpr ⟨library, hlibrary, ?_⟩)
  cases interop with
  | none => rfl
  | dependencyTrack => rfl
  | sbomOnly => exact absurd rfl hinterop

end Document

/-! ## Links -/

section Links

theorem library_mem_links {ref : String}
    (href : ref ∈ (mergedOf lower upper context host report spec profile interop).libraries.map
      CbomComponent.bomRef) :
    ref ∈ (renderCbom lower upper context host report spec profile interop).links := by
  refine List.mem_cons_of_mem _ ?_
  rw [components_renderCbom, List.map_append, List.map_append]
  exact List.mem_append_right _ (List.mem_append_left _ href)

theorem service_mem_links {ref : String}
    (href : ref ∈ (mergedOf lower upper context host report spec profile interop).services.map
      CbomComponent.bomRef) :
    ref ∈ (renderCbom lower upper context host report spec profile interop).links := by
  refine List.mem_cons_of_mem _ ?_
  rw [components_renderCbom, List.map_append, List.map_append]
  exact List.mem_append_right _ (List.mem_append_right _ href)

theorem asset_mem_links {key : String} (hinterop : interop ≠ .sbomOnly)
    (hkey : key ∈ assetKeys upper report spec profile) :
    key ∈ (renderCbom lower upper context host report spec profile interop).links := by
  refine List.mem_cons_of_mem _ ?_
  rw [components_renderCbom, List.map_append, emittedComponents, if_neg hinterop,
    map_bomRef_assetComponents]
  refine List.mem_append_left _ ?_
  rcases List.mem_append.mp hkey with hkey | hkey
  · exact List.mem_append_left _ (List.mem_append_left _ hkey)
  · exact List.mem_append_right _ hkey

/-- Every link of an entry of `dependencies` leads to a component or the host. -/
theorem dependencies_renderCbom {entry : Dependency} (hentry : entry ∈
      (renderCbom lower upper context host report spec profile interop).dependencies) :
    entry.ref ∈ (renderCbom lower upper context host report spec profile interop).links ∧
      ∀ ref ∈ entry.dependsOn ++ entry.provides,
        ref ∈ (renderCbom lower upper context host report spec profile interop).links := by
  have hrefers := @mergedOf_refers lower upper context host report spec profile interop
  rcases mem_dependencies hentry with ⟨href, hprovides, hdepends⟩ |
    ⟨service, hservice, href, hprovides, hdepends⟩ |
    ⟨library, hlibrary, href, hdepends, hsbom, hprovides⟩
  · rw [href, hprovides, hdepends, List.append_nil, List.map_append]
    refine ⟨List.mem_cons_self, fun ref hmem => ?_⟩
    rcases List.mem_append.mp hmem with hmem | hmem
    · exact library_mem_links hmem
    · exact service_mem_links hmem
  · rw [href, hprovides, hdepends, List.append_nil]
    refine ⟨service_mem_links (List.mem_map.mpr ⟨service, hservice, rfl⟩), fun ref hmem => ?_⟩
    obtain ⟨refs, hget, hmem⟩ := exists_of_mem_getD hmem
    exact library_mem_links (hrefers.uses _ refs hget ref hmem)
  · rw [href, hdepends, List.nil_append]
    refine ⟨library_mem_links (List.mem_map.mpr ⟨library, hlibrary, rfl⟩), fun ref hmem => ?_⟩
    by_cases hinterop : interop = .sbomOnly
    · rw [hsbom hinterop] at hmem
      cases hmem
    · rw [hprovides hinterop] at hmem
      exact asset_mem_links hinterop (hrefers.provides _ ref hmem)

/-- What a protocol is related to is among its assets. -/
theorem related_protocolComponents {assets : List CryptoAsset} {component : CbomComponent}
    (hcomponent : component ∈ protocolComponents assets) :
    ∀ ref ∈ component.related, ref ∈ assets.map CryptoAsset.key := by
  obtain ⟨⟨ref, name, categories⟩, -, hsome⟩ := List.mem_filterMap.mp hcomponent
  dsimp only at hsome
  split at hsome
  · cases hsome
  · obtain rfl := Option.some.inj hsome
    intro ref href
    obtain ⟨asset, hasset, rfl⟩ := List.mem_map.mp href
    exact List.mem_map.mpr ⟨asset, List.mem_of_mem_filter hasset, rfl⟩

theorem related_assetComponents {component : CbomComponent}
    (hcomponent : component ∈ assetComponents lower upper report spec profile) :
    ∀ ref ∈ component.related, ref ∈ assetKeys upper report spec profile := by
  have hassets : ∀ assets : List CryptoAsset, component ∈ assets.map assetComponent →
      component.related = [] := by
    intro assets hmem
    obtain ⟨asset, -, rfl⟩ := List.mem_map.mp hmem
    rfl
  intro ref href
  rcases List.mem_append.mp hcomponent with hcomponent | hcomponent
  · cases spec with
    | v16 =>
        rw [hassets _ hcomponent] at href
        cases href
    | v17 =>
        rcases List.mem_append.mp hcomponent with hcomponent | hcomponent
        · rcases List.mem_append.mp hcomponent with hcomponent | hcomponent
          · rw [hassets _ hcomponent] at href
            cases href
          · exact List.mem_append_left _ (related_protocolComponents hcomponent ref href)
        · obtain ⟨entry, -, rfl⟩ := List.mem_map.mp hcomponent
          cases href
  · obtain ⟨asset, -, rfl⟩ := List.mem_map.mp hcomponent
    cases href

/-- Every related asset is a component. -/
theorem related_renderCbom {component : CbomComponent} (hcomponent : component ∈
      (renderCbom lower upper context host report spec profile interop).components) :
    ∀ ref ∈ component.related,
      ref ∈ (renderCbom lower upper context host report spec profile interop).links := by
  have hrefers := @mergedOf_refers lower upper context host report spec profile interop
  intro ref href
  rw [components_renderCbom] at hcomponent
  rcases List.mem_append.mp hcomponent with hcomponent | hcomponent
  · unfold emittedComponents at hcomponent
    split at hcomponent
    · cases hcomponent
    · next hinterop =>
        exact asset_mem_links hinterop (related_assetComponents hcomponent ref href)
  · rcases List.mem_append.mp hcomponent with hcomponent | hcomponent
    · rw [hrefers.plainLibraries component hcomponent] at href
      cases href
    · rw [hrefers.plainServices component hcomponent] at href
      cases href

end Links

/-! ## What the libraries provide -/

section Provided

/-- A key under a library's reference is provided in the document exactly if its bucket has it. -/
theorem provided_iff {ref key : String} (hinterop : interop ≠ .sbomOnly) (hmem : ref ∈
      (mergedOf lower upper context host report .v17 profile interop).libraries.map
        CbomComponent.bomRef) :
    (∃ entry ∈ (renderCbom lower upper context host report .v17 profile interop).dependencies,
        entry.ref = ref ∧ key ∈ entry.provides) ↔
      key ∈ ((mergedOf lower upper context host report .v17 profile interop).provides.get?
        ref).getD [] := by
  constructor
  · rintro ⟨entry, hentry, rfl, hkey⟩
    rcases mem_dependencies hentry with ⟨-, hprovides, -⟩ | ⟨-, -, -, hprovides, -⟩ |
      ⟨library, -, hlibrary, -, -, hprovides⟩
    · rw [hprovides] at hkey
      cases hkey
    · rw [hprovides] at hkey
      cases hkey
    · rw [hprovides hinterop] at hkey
      rwa [hlibrary]
  · intro hkey
    obtain ⟨library, hlibrary, rfl⟩ := List.mem_map.mp hmem
    exact ⟨_, exists_dependency hinterop hlibrary, rfl, hkey⟩

/-- A library without installs has a component. -/
theorem libraryRef_mem {lib : String} {info : LibraryInfo} (hmem : (lib, info) ∈ librariesOf report)
    (hinstalled : info.installed = true) (hinstalls : info.installs = []) :
    libraryRef lower context host lib info ∈
      (mergedOf lower upper context host report .v17 profile interop).libraries.map
        CbomComponent.bomRef := by
  rw [mergedLibraries_v17_iff]
  exact Or.inr (Or.inl (libraryRef_mem_components hmem hinstalled hinstalls))

/-- Two libraries with one reference would share what is provided under it. -/
theorem eq_of_provided {lib other : String} {info : LibraryInfo}
    (hkeys : DistinctKeys upper report) (hprovider : Provider report lib info)
    (hprovided : ∀ key ∈ keysOf upper report lib, key ∈ keysOf upper report other) :
    lib = other := by
  have hne := (@keysOf_ne_nil_iff upper _ _ _ hprovider.mem hprovider.installed).mpr
    hprovider.algorithms
  obtain ⟨key, hkey⟩ := List.exists_mem_of_ne_nil _ hne
  obtain ⟨name, hname, rfl, rfl⟩ := mem_keysOf.mp hkey
  obtain ⟨second, hsecond, rfl, hsame⟩ := mem_keysOf.mp (hprovided _ hkey)
  rw [hkeys second hsecond name hname hsame]

/-- The references of a document are distinct, its links lead to references and its libraries
provide their algorithms exactly if, in 1.7 with crypto assets, no two algorithm names have one key
and no two libraries with algorithms one reference. -/
theorem integrity_iff (lower upper : String → String) (context : Context) (host : PackageHost)
    (spec : SpecVersion) (profile : Profile) (interop : Interop) (hreport : DuplicateFree report) :
    Integrity lower upper context host report spec interop
        (renderCbom lower upper context host report spec profile interop) ↔
      (spec = .v17 → interop ≠ .sbomOnly →
        DistinctKeys upper report ∧ DistinctRefs lower context host report) := by
  constructor
  · rintro hintegrity rfl hinterop
    have hdistinct := (List.nodup_cons.mp (List.nodup_cons.mp hintegrity.distinct).2).2
    rw [components_renderCbom, List.map_append, emittedComponents, if_neg hinterop,
      map_bomRef_assetComponents] at hdistinct
    have hassets := (List.nodup_append'.mp hdistinct).1
    have hkeys : DistinctKeys upper report :=
      (nodup_libraryCryptoAssets_iff hreport upper).mp (List.nodup_append'.mp hassets).2.1
    -- The algorithms of a provider are under the reference that a provider took.
    have hshare : ∀ {lib other : String} {info : LibraryInfo}, Provider report lib info →
        ((cryptoLibraryInventory lower context host report
          (libraryCryptoAssets upper report)).provides.get?
            (libraryRef lower context host lib info)) = some (keysOf upper report other) →
        lib = other := by
      intro lib other info hprovider hget
      refine @eq_of_provided upper report lib other info hkeys hprovider fun key hkey => ?_
      obtain ⟨name, hname, rfl, rfl⟩ := mem_keysOf.mp hkey
      have hpair : (name.1, nameKey upper name) ∈ (libraryCryptoAssets upper report).map
          fun asset => (asset.library, asset.key) := by
        rw [map_libraryCryptoAssets]
        exact List.mem_map.mpr ⟨name, hname, rfl⟩
      obtain ⟨asset, hasset, hsame⟩ := List.mem_map.mp hpair
      obtain ⟨hlibrary, hassetKey⟩ := Prod.mk.inj hsame
      have hprovided := hintegrity.provided rfl hinterop name.1 info hprovider.mem
        hprovider.installed hprovider.installs asset hasset hlibrary
      rw [provided_iff hinterop (libraryRef_mem hprovider.mem hprovider.installed
        hprovider.installs), mem_provides_v17, hget, hassetKey] at hprovided
      rcases hprovided with hstack | hlib
      · -- What a stack provides has no key of a library.
        have hprofile := (foundOf_refers report profile interop).provides _ _ hstack
        have hdisjoint := (List.nodup_append'.mp hassets).2.2
        refine absurd (hdisjoint (List.mem_append_left _ hprofile) ?_) id
        exact hassetKey ▸ List.mem_map.mpr ⟨asset, hasset, rfl⟩
      · exact hlib
    refine ⟨hkeys, fun lib info other found hlib hother hsame => ?_⟩
    obtain ⟨taken, takenInfo, -, -, hget⟩ :=
      @provides_libraryRef lower upper context host report lib info hlib
    have hfirst := hshare hlib hget
    rw [hsame] at hget
    exact hfirst.trans (hshare hother hget).symm
  · intro hcondition
    refine ⟨nodup_renderCbom hreport fun hspec hinterop => (hcondition hspec hinterop).1,
      fun entry hentry => dependencies_renderCbom hentry,
      fun component hcomponent => related_renderCbom hcomponent, ?_⟩
    rintro rfl hinterop lib info hmem hinstalled hinstalls asset hasset hlibrary
    obtain ⟨hkeys, hrefs⟩ := hcondition rfl hinterop
    rw [provided_iff hinterop (libraryRef_mem hmem hinstalled hinstalls), mem_provides_v17]
    right
    have hkey : asset.key ∈ keysOf upper report lib := by
      unfold keysOf
      rw [getD_keysByLibrary]
      exact List.mem_map.mpr ⟨asset, List.mem_filter.mpr ⟨hasset, decide_eq_true hlibrary⟩, rfl⟩
    have hprovider : Provider report lib info := ⟨hmem, hinstalled, hinstalls,
      (keysOf_ne_nil_iff hmem hinstalled).mp (List.ne_nil_of_mem hkey)⟩
    obtain ⟨other, found, hother, hsame, hget⟩ :=
      @provides_libraryRef lower upper context host report lib info hprovider
    obtain rfl := hrefs lib info other found hprovider hother hsame.symm
    rw [hget]
    exact hkey

/-- A library of the package `name`, with one algorithm. -/
def libraryOfPackage (name : String) : LibraryInfo where
  installed := true
  version := some "1.0"
  packages := [{ name := name, version := "1.0" }]
  algorithms := ⟨[("kem", ["ML-KEM-768"])], by decide⟩

/-- A report of two libraries. -/
def twoLibraries : Report where
  cryptoLibraries := some
    ⟨[("gnutls", libraryOfPackage "gnutls"), ("libgcrypt", libraryOfPackage "libgcrypt")],
      by decide⟩

/-- An image with both packages from one recipe. -/
def oneRecipe : PackageHost where
  hasPrefix := false
  rpmdbLocated := true
  rpm := some
    [{ name := "gnutls", version := "1.0", sourcerpm := some "crypto-1.0-r0.src.rpm" },
      { name := "libgcrypt", version := "1.0", sourcerpm := some "crypto-1.0-r0.src.rpm" }]
  readDb := fun _ => none
  runTool := fun _ => none
  onPath := fun _ => false

/-- What is known of the image. -/
def pokyContext : Context where
  osRelease := { id := some "poky" }

/-- An image with a recipe for each package. -/
def twoRecipes : PackageHost where
  hasPrefix := false
  rpmdbLocated := true
  rpm := some
    [{ name := "gnutls", version := "1.0", sourcerpm := some "gnutls-1.0-r0.src.rpm" },
      { name := "libgcrypt", version := "1.0", sourcerpm := some "libgcrypt-1.0-r0.src.rpm" }]
  readDb := fun _ => none
  runTool := fun _ => none
  onPath := fun _ => false

/-- With a reference for each of the two libraries, the document has what it should. -/
theorem integrity_twoRecipes :
    Integrity id id pokyContext twoRecipes twoLibraries .v17 .none
      (renderCbom id id pokyContext twoRecipes twoLibraries .v17 .none .none) := by
  refine (integrity_iff id id pokyContext twoRecipes .v17 .none .none
    ⟨by decide, by decide, by decide, by decide, by decide, by decide, by decide, by decide,
      by decide +kernel⟩).mpr fun _ _ => ⟨?_, ?_⟩
  · unfold DistinctKeys
    decide +kernel
  have hlibraries : ∀ {lib : String} {info : LibraryInfo}, (lib, info) ∈ librariesOf twoLibraries →
      (lib, info) = ("gnutls", libraryOfPackage "gnutls") ∨
        (lib, info) = ("libgcrypt", libraryOfPackage "libgcrypt") := by
    intro lib info hmem
    exact (List.mem_cons.mp (mem_sortedBy.mp hmem)).imp_right List.mem_singleton.mp
  have hapart : libraryRef id pokyContext twoRecipes "gnutls" (libraryOfPackage "gnutls") ≠
      libraryRef id pokyContext twoRecipes "libgcrypt" (libraryOfPackage "libgcrypt") := by
    decide +kernel
  intro lib info other found hprovider hother hsame
  rcases hlibraries hprovider.mem with hfirst | hfirst <;>
    rcases hlibraries hother.mem with hsecond | hsecond <;>
    obtain ⟨rfl, rfl⟩ := Prod.mk.inj hfirst <;> obtain ⟨rfl, rfl⟩ := Prod.mk.inj hsecond
  · rfl
  · exact absurd hsame hapart
  · exact absurd hsame.symm hapart
  · rfl

/-- Both libraries have the purl of the recipe, which provides the algorithm of `libgcrypt` only. -/
theorem not_integrity_oneRecipe :
    ¬ Integrity id id pokyContext oneRecipe twoLibraries .v17 .none
      (renderCbom id id pokyContext oneRecipe twoLibraries .v17 .none .none) := by
  intro hintegrity
  have hprovided := hintegrity.provided rfl (by decide) "gnutls" (libraryOfPackage "gnutls")
    (mem_sortedBy.mpr List.mem_cons_self) rfl rfl
    (libraryAsset id "gnutls" "gnutls@1.0" "kem" "ML-KEM-768")
    (List.mem_flatMap.mpr ⟨("gnutls", libraryOfPackage "gnutls"),
      mem_sortedBy.mpr List.mem_cons_self, List.mem_singleton.mpr rfl⟩) rfl
  revert hprovided
  decide +kernel

end Provided

end PqcReadiness.Bom
