import PqcReadiness.Bom.Builds
import PqcReadiness.Bom.Cbom
import PqcReadiness.Lib.PrefixFree

/-!
# The references of the assets

Every kind of component has references that begin in their own way, so that the references of a
CBOM are distinct if those of each kind are.  The keys of the assets of a profile are distinct in a
report whose lists have no duplicates (`begin_profileAssets`), and those of the algorithms of the
libraries if no two of them have one key (`nodup_libraryCryptoAssets_iff`).
-/

namespace PqcReadiness.Bom

open PqcReadiness.Lib PqcReadiness.Packages

/-! ## Families of references -/

section Families

/-- References without duplicates that begin in some ways. -/
def Begin (starts refs : List String) : Prop :=
  BeginsWith String.toList (starts.map String.toList) refs

variable {starts others refs rest : List String}

theorem begin_nil (starts : List String) : Begin starts [] := BeginsWith.nil _

theorem begin_intro (hnodup : refs.Nodup)
    (hstarts : ∀ ref ∈ refs, ∃ start ∈ starts, ∃ rest, ref = start ++ rest) :
    Begin starts refs := by
  refine ⟨hnodup, fun ref href => ?_⟩
  obtain ⟨start, hstart, rest, rfl⟩ := hstarts ref href
  refine ⟨start.toList, List.mem_map.mpr ⟨start, hstart, rfl⟩, rest.toList, ?_⟩
  exact String.toList_append.symm

theorem begin_map (start : String) {xs : List String} (hnodup : xs.Nodup) :
    Begin [start] (xs.map (start ++ ·)) := by
  refine begin_intro (hnodup.map fun _ _ hsame => String.append_right_inj _ |>.mp hsame) ?_
  intro ref href
  obtain ⟨x, -, rfl⟩ := List.mem_map.mp href
  exact ⟨start, List.mem_singleton.mpr rfl, x, rfl⟩

theorem Begin.append (hrefs : Begin starts refs) (hrest : Begin others rest)
    (hapart : Apart (starts.map String.toList) (others.map String.toList)) :
    Begin (starts ++ others) (refs ++ rest) := by
  unfold Begin
  rw [List.map_append]
  exact BeginsWith.append hrefs hrest hapart

theorem Begin.sublist (hrefs : Begin starts refs) (hsub : rest.Sublist refs) : Begin starts rest :=
  ⟨hrefs.nodup.sublist hsub, fun ref href => hrefs.starts ref (hsub.subset href)⟩

theorem sublist_filterMap {α β γ : Type*} {f : α → Option β} {g : β → γ} {h : α → γ}
    (hsame : ∀ x y, f x = some y → g y = h x) (xs : List α) :
    ((xs.filterMap f).map g).Sublist (xs.map h) := by
  induction xs with
  | nil => exact List.Sublist.slnil
  | cons x rest ih =>
      cases hx : f x with
      | none =>
          rw [List.filterMap_cons_none hx, List.map_cons]
          exact ih.cons _
      | some y =>
          rw [List.filterMap_cons_some hx, List.map_cons, List.map_cons, hsame x y hx]
          exact ih.cons_cons _

end Families

/-! ## The assets of a profile -/

section Assets

variable {report : Report}

/-- The lists of a report have no duplicates. -/
structure DuplicateFree (report : Report) : Prop where
  kem : report.openssl.kem.Nodup
  sig : report.openssl.sig.Nodup
  opensslHybrid : report.openssl.hybrid.Nodup
  opensslPurePqc : report.openssl.purePqc.Nodup
  opensslClassical : report.openssl.classical.Nodup
  sshHybrid : report.ssh.hybrid.Nodup
  sshPurePqc : report.ssh.purePqc.Nodup
  sshClassical : report.ssh.classical.Nodup
  algorithms : ∀ entry ∈ librariesOf report, ∀ algorithms ∈ entry.2.algorithms.entries,
    algorithms.2.Nodup

theorem nodup_zipIdx {α : Type*} (xs : List α) (key : α × ℕ → String)
    (hkey : ∀ a b : α × ℕ, key a = key b → a.2 = b.2) : (xs.zipIdx.map key).Nodup := by
  rw [List.nodup_iff_pairwise_ne, List.pairwise_map]
  have hindices : (xs.zipIdx.map Prod.snd).Nodup := by
    rw [List.zipIdx_map_snd]
    exact List.nodup_range'
  rw [List.nodup_iff_pairwise_ne, List.pairwise_map] at hindices
  exact hindices.imp fun hne hsame => hne (hkey _ _ hsame)

theorem slash_not_mem_toString (n : ℕ) : '/' ∉ (toString n).toList := by
  intro hmem
  exact absurd (isDigit_of_mem_toString hmem) (by decide)

theorem begin_isaAssets (report : Report) :
    Begin ["isa/"] ((isaAssets report).map CryptoAsset.key) := by
  have hkeys : (isaAssets report).map CryptoAsset.key =
      ((sortedBy Prod.fst report.isaFeatures.entries).map Prod.fst).map ("isa/" ++ ·) := by
    unfold isaAssets
    rw [List.map_map, List.map_map]
    rfl
  rw [hkeys]
  refine begin_map _ ?_
  exact (((sortedBy_perm _ _).map Prod.fst).nodup_iff).mpr report.isaFeatures.nodup

theorem begin_acceleratorAssets (report : Report) :
    Begin ["accel/"] ((acceleratorAssets report).map CryptoAsset.key) := by
  unfold acceleratorAssets
  rw [List.map_map]
  refine begin_intro (nodup_zipIdx _ _ ?_) fun ref href => ?_
  · rintro ⟨first, i⟩ ⟨second, j⟩ hsame
    have hlists := congrArg String.toList hsame
    simp only [Function.comp_apply, String.toList_append, List.append_assoc] at hlists
    obtain ⟨hindex, -⟩ := append_cons_inj (slash_not_mem_toString i) (slash_not_mem_toString j)
      (List.append_cancel_left hlists)
    exact toString_injective (String.toList_inj.mp hindex)
  · obtain ⟨⟨accelerator, i⟩, -, rfl⟩ := List.mem_map.mp href
    refine ⟨"accel/", List.mem_singleton.mpr rfl,
      toString i ++ ("/" ++ accelerator.kind.getD "accelerator"), ?_⟩
    simp only [Function.comp_apply, String.append_assoc]

theorem begin_pkcs11Assets (report : Report) :
    Begin ["pkcs11/"] ((pkcs11Assets report).map CryptoAsset.key) := by
  unfold pkcs11Assets
  rw [List.map_map]
  refine begin_intro (nodup_zipIdx _ _ ?_) fun ref href => ?_
  · rintro ⟨first, i⟩ ⟨second, j⟩ hsame
    exact toString_injective (String.append_right_inj _ |>.mp hsame)
  · obtain ⟨⟨path, i⟩, -, rfl⟩ := List.mem_map.mp href
    exact ⟨"pkcs11/", List.mem_singleton.mpr rfl, toString i, rfl⟩

theorem begin_stackAsset (start category source : String) {names : List String}
    (hnodup : names.Nodup) :
    Begin [start] ((names.map (stackAsset start category source)).map CryptoAsset.key) := by
  rw [List.map_map]
  exact begin_map start hnodup

theorem begin_tpmAssets (report : Report) :
    Begin ["tpm/"] ((tpmAssets report).map CryptoAsset.key) := by
  unfold tpmAssets
  split
  · exact begin_map "tpm/" (List.nodup_singleton "pqc")
  · exact begin_nil _

theorem begin_ipsecAssets (report : Report) :
    Begin ["ipsec/"] ((ipsecAssets report).map CryptoAsset.key) := by
  unfold ipsecAssets
  dsimp only
  split
  · exact begin_map "ipsec/" (List.nodup_singleton _)
  · exact begin_nil _

theorem begin_trustStoreAssets (report : Report) :
    Begin ["trust-store/"] ((trustStoreAssets report).map CryptoAsset.key) := by
  unfold trustStoreAssets
  split
  · exact begin_map "trust-store/" (List.nodup_singleton "summary")
  · exact begin_nil _

theorem begin_opensslAssets (hreport : DuplicateFree report) :
    Begin ["openssl/kem/", "openssl/sig/", "openssl/tls-hybrid/", "openssl/tls-pure-pqc/"]
      ((opensslAssets report).map CryptoAsset.key) := by
  unfold opensslAssets
  dsimp only
  split
  · rw [List.map_append, List.map_append, List.map_append]
    have hkem := begin_stackAsset "openssl/kem/" "openssl_kem" (report.openssl.source "openssl")
      hreport.kem
    have hsig := begin_stackAsset "openssl/sig/" "openssl_sig" (report.openssl.source "openssl")
      hreport.sig
    have hhybrid := begin_stackAsset "openssl/tls-hybrid/" "openssl_tls_hybrid"
      (report.openssl.source "openssl") hreport.opensslHybrid
    have hpure := begin_stackAsset "openssl/tls-pure-pqc/" "openssl_tls_pqc"
      (report.openssl.source "openssl") hreport.opensslPurePqc
    exact ((hkem.append hsig (by decide +kernel)).append hhybrid (by decide +kernel)).append hpure
      (by decide +kernel)
  · exact begin_nil _

theorem begin_sshAssets (hreport : DuplicateFree report) :
    Begin ["ssh/kex/hybrid/", "ssh/kex/pure-pqc/"] ((sshAssets report).map CryptoAsset.key) := by
  unfold sshAssets
  dsimp only
  split
  · rw [List.map_append]
    have hhybrid := begin_stackAsset "ssh/kex/hybrid/" "ssh_kex_hybrid"
      (report.ssh.source "openssh") hreport.sshHybrid
    have hpure := begin_stackAsset "ssh/kex/pure-pqc/" "ssh_kex_pqc"
      (report.ssh.source "openssh") hreport.sshPurePqc
    exact hhybrid.append hpure (by decide +kernel)
  · exact begin_nil _

theorem begin_canonicalAssets (hreport : DuplicateFree report) :
    Begin ["isa/", "accel/", "tpm/", "pkcs11/", "openssl/kem/", "openssl/sig/",
        "openssl/tls-hybrid/", "openssl/tls-pure-pqc/", "ssh/kex/hybrid/", "ssh/kex/pure-pqc/",
        "ipsec/", "trust-store/"] ((canonicalAssets report).map CryptoAsset.key) := by
  unfold canonicalAssets
  simp only [List.map_append]
  have hhardware := ((begin_isaAssets report).append (begin_acceleratorAssets report)
    (by decide +kernel)).append (begin_tpmAssets report) (by decide +kernel)
  have hstacks := ((hhardware.append (begin_pkcs11Assets report) (by decide +kernel)).append
    (begin_opensslAssets hreport) (by decide +kernel)).append (begin_sshAssets hreport)
      (by decide +kernel)
  exact (hstacks.append (begin_ipsecAssets report) (by decide +kernel)).append
    (begin_trustStoreAssets report) (by decide +kernel)

theorem begin_profileClassicalAssets (hreport : DuplicateFree report) :
    Begin ["openssl/tls-classical/", "ssh/kex/classical/"]
      ((profileClassicalAssets report).map CryptoAsset.key) := by
  unfold profileClassicalAssets
  dsimp only
  rw [List.map_append]
  have hopenssl : Begin ["openssl/tls-classical/"] ((if report.openssl.available then
      report.openssl.classical.map (stackAsset "openssl/tls-classical/" "openssl_tls_classical"
        (report.openssl.source "openssl")) else []).map CryptoAsset.key) := by
    split
    · exact begin_stackAsset _ _ _ hreport.opensslClassical
    · exact begin_nil _
  have hssh : Begin ["ssh/kex/classical/"] ((if report.ssh.available then
      report.ssh.classical.map (stackAsset "ssh/kex/classical/" "ssh_kex_classical"
        (report.ssh.source "openssh")) else []).map CryptoAsset.key) := by
    split
    · exact begin_stackAsset _ _ _ hreport.sshClassical
    · exact begin_nil _
  exact hopenssl.append hssh (by decide +kernel)

/-- What the keys of the assets begin with. -/
def assetStarts : List String :=
  ["isa/", "accel/", "tpm/", "pkcs11/", "openssl/kem/", "openssl/sig/", "openssl/tls-hybrid/",
    "openssl/tls-pure-pqc/", "ssh/kex/hybrid/", "ssh/kex/pure-pqc/", "ipsec/", "trust-store/",
    "openssl/tls-classical/", "ssh/kex/classical/"]

theorem begin_profileAssets (hreport : DuplicateFree report) (profile : Profile) :
    Begin assetStarts ((profileAssets report profile).map CryptoAsset.key) := by
  unfold profileAssets
  rw [List.map_append]
  refine Begin.append (begin_canonicalAssets hreport)
    (?_ : Begin ["openssl/tls-classical/", "ssh/kex/classical/"] _) (by decide +kernel)
  cases profile with
  | none => exact begin_nil _
  | federalDraft => exact begin_profileClassicalAssets hreport

end Assets

/-! ## The components of 1.7 -/

section Components

theorem begin_protocolComponents (assets : List CryptoAsset) :
    Begin ["protocol/"] ((protocolComponents assets).map CbomComponent.bomRef) := by
  have hrefs : Begin ["protocol/"] (cdx17Protocols.map Prod.fst) :=
    begin_map "protocol/" (show ["tls", "ssh"].Nodup by decide)
  refine hrefs.sublist (sublist_filterMap ?_ _)
  rintro ⟨ref, name, categories⟩ component hcomponent
  dsimp only at hcomponent
  split at hcomponent
  · cases hcomponent
  · obtain rfl := Option.some.inj hcomponent
    rfl

theorem begin_certificateComponents (lower : String → String) (report : Report) :
    Begin ["cert/"] ((certificateComponents lower report).map CbomComponent.bomRef) := by
  unfold certificateComponents
  rw [List.map_map]
  have hkeys := begin_map "cert/sha256:" (certificateEntries lower report).nodup
  rw [List.map_map] at hkeys
  refine begin_intro hkeys.nodup fun ref href => ?_
  obtain ⟨⟨sha, cert⟩, -, rfl⟩ := List.mem_map.mp href
  refine ⟨"cert/", List.mem_singleton.mpr rfl, "sha256:" ++ sha, ?_⟩
  rw [← String.append_assoc]
  rfl

/-- The algorithm names of the installed libraries, with the library and the kind. -/
def libraryNames (report : Report) : List (String × String × String) :=
  (librariesOf report).flatMap fun (lib, info) =>
    if info.installed then
      (sortedBy Prod.fst info.algorithms.entries).flatMap fun (kind, names) =>
        names.map fun name => (lib, kind, name)
    else []

/-- The key of a name. -/
def nameKey (upper : String → String) (name : String × String × String) : String :=
  "library/" ++ name.1 ++ "/" ++ (segmentOf upper name.2.1 name.2.2).1 ++ "/" ++ name.2.2

/-- No two algorithm names have one key. -/
def DistinctKeys (upper : String → String) (report : Report) : Prop :=
  ∀ first ∈ libraryNames report, ∀ second ∈ libraryNames report,
    nameKey upper first = nameKey upper second → first = second

/-- Every name gives an asset, with its library and its key. -/
theorem map_libraryCryptoAssets (upper : String → String) (report : Report) :
    (libraryCryptoAssets upper report).map (fun asset => (asset.library, asset.key)) =
      (libraryNames report).map fun name => (name.1, nameKey upper name) := by
  unfold libraryCryptoAssets libraryNames
  rw [List.map_flatMap, List.map_flatMap]
  refine congrArg (List.flatMap · _) (funext fun ⟨lib, info⟩ => ?_)
  dsimp only
  unfold libraryAssets
  split
  · rw [List.map_flatMap, List.map_flatMap]
    refine congrArg (List.flatMap · _) (funext fun ⟨kind, names⟩ => ?_)
    dsimp only
    rw [List.map_map, List.map_map]
    rfl
  · rfl

theorem map_key_libraryCryptoAssets (upper : String → String) (report : Report) :
    (libraryCryptoAssets upper report).map CryptoAsset.key =
      (libraryNames report).map (nameKey upper) := by
  have hpairs := congrArg (List.map Prod.snd) (map_libraryCryptoAssets upper report)
  rwa [List.map_map, List.map_map] at hpairs

theorem nodup_keys_librariesOf (report : Report) : ((librariesOf report).map Prod.fst).Nodup := by
  unfold librariesOf
  cases report.cryptoLibraries with
  | none => exact List.nodup_nil
  | some libraries => exact (((sortedBy_perm _ _).map Prod.fst).nodup_iff).mpr libraries.nodup

theorem pairwise_fst {α β : Type*} {xs : List (α × β)} (hnodup : (xs.map Prod.fst).Nodup) :
    xs.Pairwise fun first second => first.1 ≠ second.1 := by
  rw [List.nodup_iff_pairwise_ne, List.pairwise_map] at hnodup
  exact hnodup

/-- The names of a library. -/
theorem mem_libraryNames {report : Report} {name : String × String × String} :
    name ∈ libraryNames report ↔ ∃ info, (name.1, info) ∈ librariesOf report ∧
      info.installed = true ∧ ∃ names, (name.2.1, names) ∈ info.algorithms.entries ∧
        name.2.2 ∈ names := by
  obtain ⟨lib, kind, text⟩ := name
  unfold libraryNames
  constructor
  · intro hname
    obtain ⟨⟨other, info⟩, hentry, hname⟩ := List.mem_flatMap.mp hname
    dsimp only at hname
    split at hname
    · next hinstalled =>
        obtain ⟨⟨found, names⟩, halgorithms, hname⟩ := List.mem_flatMap.mp hname
        obtain ⟨member, hmember, hsame⟩ := List.mem_map.mp hname
        cases hsame
        exact ⟨info, hentry, hinstalled, names, mem_sortedBy.mp halgorithms, hmember⟩
    · cases hname
  · rintro ⟨info, hentry, hinstalled, names, halgorithms, hmember⟩
    refine List.mem_flatMap.mpr ⟨(lib, info), hentry, ?_⟩
    dsimp only
    rw [if_pos hinstalled]
    exact List.mem_flatMap.mpr ⟨(kind, names), mem_sortedBy.mpr halgorithms,
      List.mem_map.mpr ⟨text, hmember, rfl⟩⟩

theorem nodup_libraryNames {report : Report} (hreport : DuplicateFree report) :
    (libraryNames report).Nodup := by
  unfold libraryNames
  rw [List.nodup_flatMap]
  constructor
  · rintro ⟨lib, info⟩ hentry
    dsimp only
    split
    · rw [List.nodup_flatMap]
      constructor
      · rintro ⟨kind, names⟩ halgorithms
        have hnames := hreport.algorithms _ hentry _ (mem_sortedBy.mp halgorithms)
        exact hnames.map fun _ _ hsame => congrArg (·.2.2) hsame
      · have hperm := (sortedBy_perm Prod.fst info.algorithms.entries).map Prod.fst
        have hkinds := hperm.nodup_iff.mpr info.algorithms.nodup
        refine (pairwise_fst hkinds).imp fun hne name hfirst hsecond => ?_
        obtain ⟨x, -, rfl⟩ := List.mem_map.mp hfirst
        obtain ⟨y, -, hsame⟩ := List.mem_map.mp hsecond
        exact hne (congrArg (·.2.1) hsame).symm
    · exact List.nodup_nil
  · refine (pairwise_fst (nodup_keys_librariesOf report)).imp fun hne name hfirst hsecond => ?_
    have hlib : ∀ {entry : String × LibraryInfo}, name ∈ (if entry.2.installed then
        (sortedBy Prod.fst entry.2.algorithms.entries).flatMap fun (kind, names) =>
          names.map fun name => (entry.1, kind, name) else []) → name.1 = entry.1 := by
      intro entry hmem
      split at hmem
      · obtain ⟨algorithms, -, hmem⟩ := List.mem_flatMap.mp hmem
        obtain ⟨text, -, rfl⟩ := List.mem_map.mp hmem
        rfl
      · cases hmem
    exact hne ((hlib hfirst).symm.trans (hlib hsecond))

/-- The keys of the algorithms are distinct exactly if no two names have one key. -/
theorem nodup_libraryCryptoAssets_iff {report : Report} (hreport : DuplicateFree report)
    (upper : String → String) :
    ((libraryCryptoAssets upper report).map CryptoAsset.key).Nodup ↔ DistinctKeys upper report := by
  rw [map_key_libraryCryptoAssets, List.nodup_map_iff_inj_on (nodup_libraryNames hreport)]
  rfl

theorem begin_libraryCryptoAssets {report : Report} (hreport : DuplicateFree report)
    {upper : String → String} (hkeys : DistinctKeys upper report) :
    Begin ["library/"] ((libraryCryptoAssets upper report).map CryptoAsset.key) := by
  refine begin_intro ((nodup_libraryCryptoAssets_iff hreport upper).mpr hkeys) fun ref href => ?_
  rw [map_key_libraryCryptoAssets] at href
  obtain ⟨name, -, rfl⟩ := List.mem_map.mp href
  refine ⟨"library/", List.mem_singleton.mpr rfl,
    name.1 ++ "/" ++ (segmentOf upper name.2.1 name.2.2).1 ++ "/" ++ name.2.2, ?_⟩
  simp only [nameKey, String.append_assoc]

end Components

end PqcReadiness.Bom
