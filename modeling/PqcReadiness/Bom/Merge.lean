import PqcReadiness.Bom.Join
import PqcReadiness.Bom.References

/-!
# The libraries and the services of a CBOM

The components of libraries and services are kept by their references, whose beginnings tell them
from those of assets.  Every reference that a service uses is that of a library
(`serviceInventory_serves`), and every key that a library provides is that of an asset
(`mem_keysOf`).
-/

namespace PqcReadiness.Bom

open PqcReadiness.Lib PqcReadiness.Packages

variable {lower upper : String → String} {context : Context} {host : PackageHost}
  {report : Report}

/-! ## Components by their references -/

section Keyed

variable {starts : List String} {byRef : Dict String CbomComponent} {component : CbomComponent}

/-- The reference begins in one of some ways. -/
def StartsAs (starts : List String) (ref : String) : Prop :=
  ∃ start ∈ starts, ∃ rest, ref = start ++ rest

/-- A component whose reference begins in one of some ways, without related assets. -/
structure Plain (starts : List String) (component : CbomComponent) : Prop where
  starts : StartsAs starts component.bomRef
  related : component.related = []

/-- Every component is kept by its reference. -/
structure Keyed (starts : List String) (byRef : Dict String CbomComponent) : Prop where
  key : ∀ ref component, byRef.get? ref = some component → component.bomRef = ref
  plain : ∀ ref component, byRef.get? ref = some component → Plain starts component

theorem keyed_empty (starts : List String) : Keyed starts .empty := ⟨nofun, nofun⟩

/-- The references of the components. -/
theorem Keyed.map_bomRef (hkeyed : Keyed starts byRef) :
    byRef.values.map CbomComponent.bomRef = byRef.keys := by
  unfold Dict.values Dict.keys
  rw [List.map_map]
  refine List.map_congr_left ?_
  rintro ⟨ref, component⟩ hentry
  exact hkeyed.key ref component ((Dict.mem_entries_iff _).mp hentry)

theorem Keyed.begin (hkeyed : Keyed starts byRef) :
    Begin starts (byRef.values.map CbomComponent.bomRef) := by
  rw [hkeyed.map_bomRef]
  refine begin_intro byRef.nodup fun ref href => ?_
  obtain ⟨component, hget⟩ := Option.isSome_iff_exists.mp ((Dict.mem_keys_iff _).mp href)
  rw [← hkeyed.key ref component hget]
  exact (hkeyed.plain ref component hget).starts

theorem Keyed.of_mem (hkeyed : Keyed starts byRef) (hcomponent : component ∈ byRef.values) :
    Plain starts component := by
  obtain ⟨ref, hget⟩ := (Dict.mem_values_iff _).mp hcomponent
  exact hkeyed.plain ref component hget

theorem Keyed.setdefault (hkeyed : Keyed starts byRef) (hplain : Plain starts component) :
    Keyed starts (byRef.update component.bomRef (·.getD component)) := by
  refine ⟨fun ref found hget => ?_, fun ref found hget => ?_⟩
  · rcases get?_setdefault hget with hold | ⟨rfl, -, rfl⟩
    · exact hkeyed.key ref found hold
    · rfl
  · rcases get?_setdefault hget with hold | ⟨-, -, rfl⟩
    · exact hkeyed.plain ref found hold
    · exact hplain

theorem Keyed.insert (hkeyed : Keyed starts byRef) (hplain : Plain starts component) :
    Keyed starts (byRef.update component.bomRef fun _ => component) := by
  refine ⟨fun ref found hget => ?_, fun ref found hget => ?_⟩
  · rw [Dict.get?_update] at hget
    split at hget
    · next href =>
        obtain rfl := Option.some.inj hget
        exact href.symm
    · exact hkeyed.key ref found hget
  · rw [Dict.get?_update] at hget
    split at hget
    · obtain rfl := Option.some.inj hget
      exact hplain
    · exact hkeyed.plain ref found hget

theorem keyed_foldl (turn : Dict String CbomComponent → CbomComponent → Dict String CbomComponent)
    (hturn : ∀ byRef component, Keyed starts byRef → Plain starts component →
      Keyed starts (turn byRef component)) {components : List CbomComponent}
    (hcomponents : ∀ component ∈ components, Plain starts component)
    (hkeyed : Keyed starts byRef) : Keyed starts (components.foldl turn byRef) := by
  induction components generalizing byRef with
  | nil => exact hkeyed
  | cons component rest ih =>
      refine ih (fun other hother => hcomponents other (List.mem_cons_of_mem _ hother)) ?_
      exact hturn byRef component hkeyed (hcomponents component List.mem_cons_self)

theorem mem_keys_foldl
    (turn : Dict String CbomComponent → CbomComponent → Dict String CbomComponent)
    (hturn : ∀ byRef component ref, ((turn byRef component).get? ref).isSome ↔
      ref = component.bomRef ∨ (byRef.get? ref).isSome) (components : List CbomComponent)
    (byRef : Dict String CbomComponent) (ref : String) :
    ((components.foldl turn byRef).get? ref).isSome ↔
      (byRef.get? ref).isSome ∨ ref ∈ components.map CbomComponent.bomRef := by
  induction components generalizing byRef with
  | nil => simp
  | cons component rest ih =>
      rw [List.foldl_cons, ih, hturn, List.map_cons, List.mem_cons]
      constructor
      · rintro ((hhead | hold) | hrest)
        · exact Or.inr (Or.inl hhead)
        · exact Or.inl hold
        · exact Or.inr (Or.inr hrest)
      · rintro (hold | hhead | hrest)
        · exact Or.inl (Or.inr hold)
        · exact Or.inl (Or.inl hhead)
        · exact Or.inr hrest

theorem isSome_get?_update {κ ν : Type*} [DecidableEq κ] (d : Dict κ ν) (key other : κ)
    (f : Option ν → ν) :
    ((d.update key f).get? other).isSome ↔ other = key ∨ (d.get? other).isSome := by
  rw [Dict.get?_update]
  split
  · next hkey => simp [hkey]
  · next hkey => simp [hkey]

end Keyed

/-! ## The crypto libraries -/

section Libraries

/-- What the references of libraries begin with. -/
def libraryStarts : List String := ["pkg:", "crypto-library/"]

theorem startsAs_pkg (rest : String) : StartsAs libraryStarts ("pkg:" ++ rest) :=
  ⟨"pkg:", by decide, rest, rfl⟩

theorem startsAs_library (rest : String) : StartsAs libraryStarts ("crypto-library/" ++ rest) :=
  ⟨"crypto-library/", by decide, rest, rfl⟩

theorem startsAs_genericPurl (name version : String) :
    StartsAs libraryStarts (genericPurl name version) := by
  refine ⟨"pkg:", by decide, "generic/" ++ purlEncode name ++ "@" ++ purlEncode version, ?_⟩
  unfold genericPurl
  simp only [← String.append_assoc]
  rfl

theorem startsAs_packagePurl {pkg : Listed} {purl : String}
    (hpurl : packagePurl lower context pkg = some purl) : StartsAs libraryStarts purl := by
  have hpkg : ∀ {rest}, purl = "pkg:" ++ rest → StartsAs libraryStarts purl :=
    fun hrest => hrest ▸ startsAs_pkg _
  unfold packagePurl at hpurl
  cases hdb : pkg.db.or (dbByFamily context.osRelease.family) with
  | none =>
      rw [hdb] at hpurl
      cases hpurl
  | some db =>
      rw [hdb] at hpurl
      dsimp only at hpurl
      split at hpurl
      · cases hpurl
      · split at hpurl
        · next yocto hyocto =>
            obtain rfl := Option.some.inj hpurl
            split at hyocto
            · obtain ⟨⟨name, version⟩, -, rfl⟩ := Option.map_eq_some_iff.mp hyocto
              refine @hpkg ("yocto/" ++ purlEncode name ++ "@" ++ purlEncode version) ?_
              simp only [← String.append_assoc]
              rfl
            · cases hyocto
        · split at hpurl
          · obtain rfl := Option.some.inj hpurl
            unfold opkgPurl
            simp only [String.append_assoc]
            rw [show "pkg:generic/" = "pkg:" ++ "generic/" from rfl, String.append_assoc]
            exact startsAs_pkg _
          · split at hpurl
            · obtain rfl := Option.some.inj hpurl
              unfold typedPurl
              simp only [String.append_assoc]
              exact startsAs_pkg _
            · cases hpurl

theorem startsAs_sbomPurl {pkg : Listed} {purl : String}
    (hpurl : sbomPurl lower context host pkg = some purl) : StartsAs libraryStarts purl := by
  unfold sbomPurl at hpurl
  split at hpurl
  · cases hpurl
  · split at hpurl
    · next found hget =>
        obtain rfl := Option.some.inj hpurl
        rcases get?_purlIndex hget with ⟨other, -, -, hsome⟩ | ⟨⟨other, -, -, hsome⟩, -⟩
        · exact startsAs_packagePurl hsome
        · exact startsAs_packagePurl hsome
    · split at hpurl
      · exact startsAs_packagePurl hpurl
      · exact startsAs_packagePurl hpurl

theorem startsAs_libraryRef (lib : String) (info : LibraryInfo) :
    StartsAs libraryStarts (libraryRef lower context host lib info) := by
  unfold libraryRef
  cases hpurl : libraryPurl lower context host lib info with
  | none => exact startsAs_library lib
  | some purl =>
      rcases Option.or_eq_some_iff.mp hpurl with hpurl | ⟨-, hpurl⟩
      · obtain ⟨pkg, -, hpurl⟩ := Option.bind_eq_some_iff.mp hpurl
        exact startsAs_sbomPurl hpurl
      · obtain ⟨version, -, rfl⟩ := Option.map_eq_some_iff.mp hpurl
        exact startsAs_genericPurl lib version

theorem plain_installComponent (lib : String) (install : Install) :
    Plain libraryStarts (installComponent lib install) := by
  refine ⟨?_, rfl⟩
  unfold installComponent
  dsimp only
  cases present install.version with
  | none =>
      refine ⟨"crypto-library/", by decide, lib ++ "/" ++ purlEncode install.path, ?_⟩
      simp only [libraryComponent, Option.map_none, Option.getD_none, String.append_assoc]
  | some version => exact startsAs_genericPurl lib version

/-- The references that the index has are those of components, and these begin as libraries do. -/
structure Inventories (inventory : LibraryInventory) : Prop where
  plain : ∀ component ∈ inventory.components, Plain libraryStarts component
  index : ∀ key ref, inventory.index.get? key = some ref →
    ref ∈ inventory.components.map CbomComponent.bomRef

theorem get?_indexVersion {lib ref found : String} {version : Option String}
    {index : Dict (String × String) String} {key : String × String}
    (hget : (indexVersion lib version ref index).get? key = some found) :
    index.get? key = some found ∨ found = ref := by
  unfold indexVersion at hget
  split at hget
  · exact Or.inl hget
  · rcases get?_setdefault hget with hold | ⟨-, -, hsame⟩
    · exact Or.inl hold
    · exact Or.inr hsame

/-- A component more, with its version in the index. -/
theorem Inventories.add {inventory : LibraryInventory} (hinventories : Inventories inventory)
    {component : CbomComponent} (hplain : Plain libraryStarts component) (lib : String)
    (version : Option String) (provides : Dict String (List String)) :
    Inventories
      { components := inventory.components ++ [component], provides := provides
        index := indexVersion lib version component.bomRef inventory.index } := by
  refine ⟨fun other hother => ?_, fun key ref hget => ?_⟩
  · rcases List.mem_append.mp hother with hother | hother
    · exact hinventories.plain other hother
    · exact List.mem_singleton.mp hother ▸ hplain
  · rw [List.map_append]
    rcases get?_indexVersion hget with hold | rfl
    · exact List.mem_append_left _ (hinventories.index key ref hold)
    · exact List.mem_append_right _ (List.mem_singleton.mpr rfl)

theorem installs_inventories {inventory : LibraryInventory} (hinventories : Inventories inventory)
    (lib : String) (installs : List Install) :
    Inventories (installs.foldl (installTurn lib) inventory) := by
  induction installs generalizing inventory with
  | nil => exact hinventories
  | cons install rest ih =>
      exact ih (hinventories.add (plain_installComponent lib install) lib _ _)

theorem libraryTurn_inventories {inventory : LibraryInventory}
    (hinventories : Inventories inventory) (byLib : Dict String (List String))
    (entry : String × LibraryInfo) :
    Inventories (libraryTurn lower context host byLib inventory entry) := by
  obtain ⟨lib, info⟩ := entry
  unfold libraryTurn
  dsimp only
  split
  · exact hinventories
  · split
    · exact installs_inventories hinventories lib info.installs
    · have hplain : Plain libraryStarts (libraryComponent
          (libraryRef lower context host lib info) lib (present info.version)
          (libraryPurl lower context host lib info)) := ⟨startsAs_libraryRef lib info, rfl⟩
      exact hinventories.add hplain lib (present info.version) _

theorem cryptoLibraryInventory_inventories (report : Report) (assets : List CryptoAsset) :
    Inventories (cryptoLibraryInventory lower context host report assets) := by
  unfold cryptoLibraryInventory
  have hfold : ∀ (entries : List (String × LibraryInfo)) (inventory : LibraryInventory),
      Inventories inventory → Inventories (entries.foldl
        (libraryTurn lower context host (keysByLibrary assets)) inventory) := by
    intro entries
    induction entries with
    | nil => exact fun inventory hinventories => hinventories
    | cons entry rest ih =>
        exact fun inventory hinventories => ih _ (libraryTurn_inventories hinventories _ entry)
  exact hfold _ _ ⟨nofun, nofun⟩

theorem components_installs (lib : String) (installs : List Install)
    (inventory : LibraryInventory) : inventory.components ⊆
      (installs.foldl (installTurn lib) inventory).components := by
  induction installs generalizing inventory with
  | nil => exact fun component hcomponent => hcomponent
  | cons install rest ih =>
      exact fun component hcomponent => ih _ (List.mem_append_left _ hcomponent)

theorem components_libraryTurn (byLib : Dict String (List String)) (inventory : LibraryInventory)
    (entry : String × LibraryInfo) : inventory.components ⊆
      (libraryTurn lower context host byLib inventory entry).components := by
  obtain ⟨lib, info⟩ := entry
  unfold libraryTurn
  dsimp only
  split
  · exact fun component hcomponent => hcomponent
  · split
    · exact components_installs lib info.installs inventory
    · exact fun component hcomponent => List.mem_append_left _ hcomponent

/-- A library without installs has a component. -/
theorem libraryRef_mem_components {assets : List CryptoAsset} {lib : String} {info : LibraryInfo}
    (hmem : (lib, info) ∈ librariesOf report) (hinstalled : info.installed = true)
    (hinstalls : info.installs = []) : libraryRef lower context host lib info ∈
      (cryptoLibraryInventory lower context host report assets).components.map
        CbomComponent.bomRef := by
  have hkeep : ∀ (entries : List (String × LibraryInfo)) (inventory : LibraryInventory),
      inventory.components ⊆ (entries.foldl (libraryTurn lower context host
        (keysByLibrary assets)) inventory).components := by
    intro entries
    induction entries with
    | nil => exact fun inventory component hcomponent => hcomponent
    | cons entry rest ih =>
        exact fun inventory component hcomponent =>
          ih _ (components_libraryTurn _ inventory entry hcomponent)
  have hfold : ∀ (entries : List (String × LibraryInfo)) (inventory : LibraryInventory),
      (lib, info) ∈ entries → libraryRef lower context host lib info ∈
        (entries.foldl (libraryTurn lower context host (keysByLibrary assets))
          inventory).components.map CbomComponent.bomRef := by
    intro entries
    induction entries with
    | nil => exact fun inventory hmem => absurd hmem List.not_mem_nil
    | cons entry rest ih =>
        intro inventory hmem
        rcases List.mem_cons.mp hmem with rfl | hmem
        · have hadded : libraryComponent (libraryRef lower context host lib info) lib
              (present info.version) (libraryPurl lower context host lib info) ∈
                (libraryTurn lower context host (keysByLibrary assets) inventory
                  (lib, info)).components := by
            unfold libraryTurn
            dsimp only
            rw [if_neg (not_not.mpr hinstalled), if_neg (not_not.mpr hinstalls)]
            exact List.mem_append_right _ (List.mem_singleton.mpr rfl)
          exact List.mem_map.mpr ⟨_, hkeep rest _ hadded, rfl⟩
        · exact ih _ hmem
  exact hfold _ _ hmem

end Libraries

/-! ## The services -/

section Services

variable {index : Dict (String × String) String}

/-- What the references of services begin with. -/
def serviceStarts : List String := ["service/"]

theorem startsAs_linkRef {link : String × Option String} (hindexed : isIndexed index link = false) :
    StartsAs libraryStarts (linkRef index link) := by
  unfold isIndexed at hindexed
  unfold linkRef
  cases hversion : link.2 with
  | none => exact startsAs_library _
  | some version =>
      rw [hversion, Option.bind_some, Option.isSome_eq_false_iff, Option.isNone_iff_eq_none]
        at hindexed
      dsimp only
      rw [hindexed, Option.getD_none]
      exact startsAs_genericPurl _ _

/-- The services and the extra libraries are kept by their references, and a service uses what the
index has and the extra libraries. -/
structure Serves (index : Dict (String × String) String) (inventory : ServiceInventory) : Prop where
  services : Keyed serviceStarts inventory.services
  extra : Keyed libraryStarts inventory.extra
  uses : ∀ service refs, inventory.uses.get? service = some refs → ∀ ref ∈ refs,
    (∃ key, index.get? key = some ref) ∨ (inventory.extra.get? ref).isSome

theorem linkTurn_serves {inventory : ServiceInventory} (hserves : Serves index inventory)
    (service : String) (link : String × Option String) :
    Serves index (linkTurn index service inventory link) := by
  have hextra : Keyed libraryStarts (linkTurn index service inventory link).extra := by
    unfold linkTurn
    dsimp only
    split
    · exact hserves.extra
    · next hindexed =>
        exact @Keyed.setdefault _ _ (libraryComponent (linkRef index link) link.1 link.2 _)
          hserves.extra ⟨startsAs_linkRef (Bool.not_eq_true _ |>.mp hindexed), rfl⟩
  have hgrows : ∀ ref, (inventory.extra.get? ref).isSome →
      ((linkTurn index service inventory link).extra.get? ref).isSome := by
    intro ref hsome
    unfold linkTurn
    dsimp only
    split
    · exact hsome
    · rw [isSome_get?_update]
      exact Or.inr hsome
  have hlink : (∃ key, index.get? key = some (linkRef index link)) ∨
      ((linkTurn index service inventory link).extra.get? (linkRef index link)).isSome := by
    by_cases hindexed : isIndexed index link = true
    · left
      obtain ⟨found, hfound⟩ := Option.isSome_iff_exists.mp hindexed
      obtain ⟨version, hversion, hget⟩ := Option.bind_eq_some_iff.mp hfound
      refine ⟨(link.1, version), ?_⟩
      unfold linkRef
      rw [hversion]
      dsimp only
      rw [hget, Option.getD_some]
    · right
      unfold linkTurn
      dsimp only
      rw [if_neg hindexed, isSome_get?_update]
      exact Or.inl rfl
  refine ⟨hserves.services, hextra, fun other refs hget ref href => ?_⟩
  have hold : ∀ {refs}, inventory.uses.get? other = some refs → ref ∈ refs →
      (∃ key, index.get? key = some ref) ∨
        ((linkTurn index service inventory link).extra.get? ref).isSome := by
    intro refs hget href
    rcases hserves.uses other refs hget ref href with hkey | hsome
    · exact Or.inl hkey
    · exact Or.inr (hgrows ref hsome)
  have hmem : ∀ {found : Option (List String)}, inventory.uses.get? other = found →
      ref ∈ found.getD [] → (∃ key, index.get? key = some ref) ∨
        ((linkTurn index service inventory link).extra.get? ref).isSome := by
    intro found hfound href
    cases found with
    | none => cases href
    | some refs => exact hold hfound href
  have huses := Dict.get?_update inventory.uses service other fun refs =>
    if linkRef index link ∈ refs.getD [] then refs.getD [] else refs.getD [] ++ [linkRef index link]
  unfold linkTurn at hget
  dsimp only at hget
  rw [huses] at hget
  split at hget
  · next hservice =>
      subst hservice
      obtain rfl := Option.some.inj hget
      split at href
      · exact hmem rfl href
      · rcases List.mem_append.mp href with href | href
        · exact hmem rfl href
        · rw [List.mem_singleton.mp href]
          exact hlink
  · exact hold hget href

theorem listenerTurn_serves {inventory : ServiceInventory} (hserves : Serves index inventory)
    (listener : Listener) : Serves index (listenerTurn index inventory listener) := by
  have hlinks : ∀ (links : List (String × Option String)) (service : String)
      (inventory : ServiceInventory), Serves index inventory →
        Serves index (links.foldl (linkTurn index service) inventory) := by
    intro links service
    induction links with
    | nil => exact fun inventory hserves => hserves
    | cons link rest ih =>
        exact fun inventory hserves => ih _ (linkTurn_serves hserves service link)
  unfold listenerTurn
  split
  · exact hserves
  · dsimp only
    refine hlinks _ _ _ ⟨?_, hserves.extra, fun service refs hget ref href => ?_⟩
    · exact @Keyed.setdefault _ _
        { type := "application", bomRef := "service/" ++ listener.ident, name := listener.label }
        hserves.services ⟨⟨"service/", List.mem_singleton.mpr rfl, listener.ident, rfl⟩, rfl⟩
    · rcases get?_setdefault hget with hold | ⟨-, -, rfl⟩
      · exact hserves.uses service refs hold ref href
      · cases href

theorem serviceInventory_serves (report : Report) (index : Dict (String × String) String) :
    Serves index (serviceInventory report index) := by
  unfold serviceInventory
  have hfold : ∀ (listeners : List Listener) (inventory : ServiceInventory),
      Serves index inventory → Serves index (listeners.foldl (listenerTurn index) inventory) := by
    intro listeners
    induction listeners with
    | nil => exact fun inventory hserves => hserves
    | cons listener rest ih =>
        exact fun inventory hserves => ih _ (listenerTurn_serves hserves listener)
  exact hfold _ _ ⟨keyed_empty _, keyed_empty _, nofun⟩

end Services

/-! ## What is provided -/

section Provided

/-- The keys of the algorithms of a library. -/
def keysOf (upper : String → String) (report : Report) (lib : String) : List String :=
  ((keysByLibrary (libraryCryptoAssets upper report)).get? lib).getD []

theorem exists_of_mem_getD {found : Option (List String)} {key : String}
    (hkey : key ∈ found.getD []) : ∃ keys, found = some keys ∧ key ∈ keys := by
  cases found with
  | none => cases hkey
  | some keys => exact ⟨keys, rfl, hkey⟩

theorem getD_keysByLibrary (assets : List CryptoAsset) (lib : String) :
    ((keysByLibrary assets).get? lib).getD [] =
      (assets.filter fun asset => asset.library = lib).map CryptoAsset.key := by
  have hfold : ∀ byLib : Dict String (List String),
      ((assets.foldl (fun byLib asset => byLib.update asset.library fun keys =>
        keys.getD [] ++ [asset.key]) byLib).get? lib).getD [] = (byLib.get? lib).getD [] ++
          (assets.filter fun asset => asset.library = lib).map CryptoAsset.key := by
    induction assets with
    | nil => exact fun byLib => (List.append_nil _).symm
    | cons asset rest ih =>
        intro byLib
        rw [List.foldl_cons, ih, Dict.get?_update]
        by_cases hlib : lib = asset.library
        · subst hlib
          rw [if_pos rfl, Option.getD_some, List.filter_cons, if_pos (decide_eq_true rfl),
            List.map_cons, List.append_assoc]
          rfl
        · rw [if_neg hlib, List.filter_cons, if_neg]
          rw [decide_eq_true_eq]
          exact Ne.symm hlib
  exact hfold .empty

/-- The keys of a library are those of its names. -/
theorem mem_keysOf {lib key : String} :
    key ∈ keysOf upper report lib ↔
      ∃ name ∈ libraryNames report, name.1 = lib ∧ nameKey upper name = key := by
  have hpairs : (lib, key) ∈ (libraryCryptoAssets upper report).map
        (fun asset => (asset.library, asset.key)) ↔
      (lib, key) ∈ (libraryNames report).map fun name => (name.1, nameKey upper name) := by
    rw [map_libraryCryptoAssets]
  unfold keysOf
  rw [getD_keysByLibrary]
  simpa only [List.mem_map, List.mem_filter, decide_eq_true_eq, Prod.mk.injEq, and_assoc]
    using hpairs

/-- The libraries without installs that have algorithms, with their references and keys. -/
def providers (lower upper : String → String) (context : Context) (host : PackageHost)
    (report : Report) : List (String × List String) :=
  (librariesOf report).filterMap fun (lib, info) =>
    if info.installed ∧ info.installs = [] ∧ keysOf upper report lib ≠ [] then
      some (libraryRef lower context host lib info, keysOf upper report lib)
    else none

/-- `provides[ref] = keys`. -/
def insertKeys (provides : Dict String (List String)) (entry : String × List String) :
    Dict String (List String) :=
  provides.update entry.1 fun _ => entry.2

theorem provides_cryptoLibraryInventory :
    (cryptoLibraryInventory lower context host report (libraryCryptoAssets upper report)).provides =
      (providers lower upper context host report).foldl
        insertKeys .empty := by
  have hinstalls : ∀ (installs : List Install) (lib : String) (inventory : LibraryInventory),
      (installs.foldl (installTurn lib) inventory).provides = inventory.provides := by
    intro installs lib
    induction installs with
    | nil => exact fun inventory => rfl
    | cons install rest ih => exact fun inventory => ih _
  have hfold : ∀ (entries : List (String × LibraryInfo)) (inventory : LibraryInventory),
      (entries.foldl (libraryTurn lower context host
        (keysByLibrary (libraryCryptoAssets upper report))) inventory).provides =
        (entries.filterMap fun (lib, info) =>
          if info.installed ∧ info.installs = [] ∧ keysOf upper report lib ≠ [] then
            some (libraryRef lower context host lib info, keysOf upper report lib)
          else none).foldl insertKeys inventory.provides := by
    intro entries
    induction entries with
    | nil => exact fun inventory => rfl
    | cons entry rest ih =>
        intro inventory
        obtain ⟨lib, info⟩ := entry
        rw [List.foldl_cons, ih, List.filterMap_cons]
        unfold libraryTurn
        dsimp only
        by_cases hinstalled : info.installed = true
        · rw [if_neg (not_not.mpr hinstalled)]
          by_cases hlist : info.installs = []
          · rw [if_neg (not_not.mpr hlist)]
            dsimp only
            have hnone : keysOf upper report lib = [] → ¬ (info.installed = true ∧
                info.installs = [] ∧ keysOf upper report lib ≠ []) := fun hkeys h => h.2.2 hkeys
            rw [show ((keysByLibrary (libraryCryptoAssets upper report)).get? lib).getD [] =
              keysOf upper report lib from rfl]
            by_cases hkeys : keysOf upper report lib = []
            · rw [if_neg (hnone hkeys), if_pos hkeys]
            · rw [if_neg hkeys, if_pos ⟨hinstalled, hlist, hkeys⟩]
              rfl
          · rw [if_pos hlist, hinstalls, if_neg fun h => hlist h.2.1]
        · rw [if_pos hinstalled, if_neg fun h => hinstalled h.1]
  exact hfold _ _

theorem get?_foldl_insert {entries : List (String × List String)}
    {provides : Dict String (List String)} {ref : String} {keys : List String}
    (hget : (entries.foldl insertKeys provides).get? ref = some keys) :
    (ref, keys) ∈ entries ∨ provides.get? ref = some keys := by
  induction entries generalizing provides with
  | nil => exact Or.inr hget
  | cons entry rest ih =>
      rcases ih hget with hrest | hold
      · exact Or.inl (List.mem_cons_of_mem _ hrest)
      · rw [insertKeys, Dict.get?_update] at hold
        split at hold
        · next href =>
            left
            rw [href, ← Option.some.inj hold]
            exact List.mem_cons_self
        · exact Or.inr hold

theorem isSome_foldl_insert {entries : List (String × List String)} {ref : String}
    {keys : List String} (hentry : (ref, keys) ∈ entries) (provides : Dict String (List String)) :
    ((entries.foldl insertKeys provides).get? ref).isSome := by
  have hkeep : ∀ (entries : List (String × List String)) (provides : Dict String (List String)),
      (provides.get? ref).isSome → ((entries.foldl insertKeys provides).get? ref).isSome := by
    intro entries
    induction entries with
    | nil => exact fun provides hsome => hsome
    | cons entry rest ih =>
        exact fun provides hsome => ih _ ((isSome_get?_update _ _ _ _).mpr (Or.inr hsome))
  induction entries generalizing provides with
  | nil => cases hentry
  | cons entry rest ih =>
      rcases List.mem_cons.mp hentry with rfl | hentry
      · exact hkeep rest _ ((isSome_get?_update _ _ _ _).mpr (Or.inl rfl))
      · exact ih hentry _

/-- What the buckets have after the keys of the libraries are added. -/
theorem mem_foldl_addKeys {entries : List (String × List String)}
    (hnodup : (entries.map Prod.fst).Nodup) (provides : Dict String (List String))
    (ref key : String) :
    key ∈ ((entries.foldl addKeys provides).get? ref).getD [] ↔
      key ∈ (provides.get? ref).getD [] ∨ key ∈ (find ref entries).getD [] := by
  induction entries generalizing provides with
  | nil => simp [find]
  | cons entry rest ih =>
      obtain ⟨other, keys⟩ := entry
      rw [List.map_cons, List.nodup_cons] at hnodup
      rw [List.foldl_cons, ih hnodup.2, addKeys, Dict.get?_update, find]
      by_cases href : other = ref
      · subst href
        rw [if_pos rfl, if_pos rfl, find_eq_none_iff.mpr hnodup.1, Option.getD_some,
          Option.getD_some, Option.getD_none, List.mem_append, List.mem_filter]
        simp only [List.not_mem_nil, or_false, decide_not, Bool.not_eq_true', decide_eq_false_iff_not]
        constructor
        · rintro (hold | hnew)
          · exact Or.inl hold
          · exact Or.inr hnew.1
        · rintro (hold | hnew)
          · exact Or.inl hold
          · by_cases hold : key ∈ (provides.get? other).getD []
            · exact Or.inl hold
            · exact Or.inr ⟨hnew, hold⟩
      · rw [if_neg (Ne.symm href), if_neg href]

end Provided

/-! ## The components of `_library_components` -/

section Found

/-- The keys that a stack provides are those of assets. -/
theorem provides_libraryComponents {assets : List CryptoAsset} {rows : List BundledRow}
    {ref : String} {keys : List String}
    (hget : (libraryComponents lower context host assets rows).provides.get? ref = some keys) :
    ∀ key ∈ keys, key ∈ assets.map CryptoAsset.key := by
  have hfold : ∀ (rest : List CryptoAsset) (state : LibraryState),
      (∀ asset ∈ rest, asset ∈ assets) →
      (∀ ref keys, state.provides.get? ref = some keys →
        ∀ key ∈ keys, key ∈ assets.map CryptoAsset.key) →
      ∀ ref keys, (rest.foldl assetTurn state).provides.get? ref = some keys →
        ∀ key ∈ keys, key ∈ assets.map CryptoAsset.key := by
    intro rest
    induction rest with
    | nil => exact fun state _ hstate => hstate
    | cons asset rest ih =>
        intro state hrest hstate
        refine ih _ (fun other hother => hrest other (List.mem_cons_of_mem _ hother)) ?_
        intro ref keys hget key hkey
        unfold assetTurn at hget
        split at hget
        · exact hstate ref keys hget key hkey
        · rw [Dict.get?_update] at hget
          split at hget
          · obtain rfl := Option.some.inj hget
            rcases List.mem_append.mp hkey with hkey | hkey
            · obtain ⟨old, hold, hkey⟩ := exists_of_mem_getD hkey
              exact hstate _ old hold key hkey
            · rw [List.mem_singleton.mp hkey]
              exact List.mem_map.mpr ⟨asset, hrest asset List.mem_cons_self, rfl⟩
          · exact hstate ref keys hget key hkey
  exact hfold assets {} (fun _ hasset => hasset) (by rintro _ _ ⟨⟩) ref keys hget

theorem startsAs_of_startsWith {start ref : String} (hstarts : startsWith start ref = true) :
    ∃ rest, ref = start ++ rest := by
  obtain ⟨rest, hrest⟩ := List.isPrefixOf_iff_prefix.mp hstarts
  refine ⟨String.ofList rest, String.toList_inj.mp ?_⟩
  rw [String.toList_append, String.toList_ofList, hrest]

/-- The components of the stacks and the rows. -/
theorem startsAs_libraryComponents {assets : List CryptoAsset} {rows : List BundledRow}
    {purl : String} {component : LibraryComponent}
    (hget : (libraryComponents lower context host assets rows).libs.get? purl = some component) :
    component.purl = purl ∧ StartsAs libraryStarts purl := by
  have hemits := @libraryComponents_emits lower context host assets rows
  refine ⟨hemits.key purl component hget, ?_⟩
  cases hbasis : component.basis with
  | probedStack =>
      obtain ⟨rest, rfl⟩ := startsAs_of_startsWith (hemits.stack purl component hget hbasis)
      rw [show "pkg:generic/" = "pkg:" ++ "generic/" from rfl, String.append_assoc]
      exact startsAs_pkg _
  | bundledCryptoPackage =>
      obtain ⟨row, -, hpurl⟩ := hemits.row purl component hget hbasis
      exact startsAs_sbomPurl hpurl.purl

end Found

end PqcReadiness.Bom
