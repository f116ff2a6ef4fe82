import PqcReadiness.Lib.Pathname

/-!
# The package-signing key inventory

`scan_signing_keys` merges what the trust sources of the package manager hold: the
rpm database, keyrings and key files.  Each source is either an error or a list of
parsed keys, and keys are told apart by the fingerprint of their primary key.

## Strategy

The loop is a grouping loop over all keys of all sources (`trusted`), so that
`Dict.get?_collect` says what is under a fingerprint: the first copy met, with the
origins of all copies.  Which copy is first depends on the order of the sources, and
`firstCopy` is the one copy of each source that can be it.

The category of a copy is that of the best signing key among the primary key and the
subkeys of this copy.  Copies that were exported at different times have different
subkeys, so the inventory is independent of the order of the sources exactly if the
first copies of every two sources have the same category
(`scanSigningKeys_order_independent_iff`).
-/

namespace PqcReadiness.Signing

open PqcReadiness.Lib

/-! ## Parsed keys -/

/-- The report-wide buckets. -/
inductive PqcCategory where
  | classical
  | hybrid
  | purePqc
  deriving DecidableEq

/-- `_PQC_RANK`. -/
def PqcCategory.rank : PqcCategory → ℕ
  | classical => 0
  | hybrid => 1
  | purePqc => 2

/-- What a public-key algorithm can be used for. -/
inductive Capability where
  | sign
  | encrypt
  | both
  | unknown
  deriving DecidableEq

/-- `capability in ("sign", "both")`. -/
def Capability.signs : Capability → Bool
  | sign => true
  | both => true
  | encrypt => false
  | unknown => false

/-- The members of a described key packet that decide its category. -/
structure KeyPacket where
  capability : Capability
  pqcCategory : PqcCategory
  deriving DecidableEq

/-- A transferable public key: the primary key and its subkeys.  Version 3 keys have
no fingerprint. -/
structure ParsedKey where
  fingerprint : Option String
  primary : KeyPacket
  subkeys : List KeyPacket
  deriving DecidableEq

/-- The better of two categories; the first one when they rank the same. -/
def betterCategory (best other : PqcCategory) : PqcCategory :=
  if best.rank < other.rank then other else best

/-- `signing_pqc_category`: the most post-quantum of the primary key and the subkeys
that can sign. -/
def signingPqcCategory (key : ParsedKey) : PqcCategory :=
  let candidates := key.primary :: key.subkeys.filter fun sub => sub.capability.signs
  match (candidates.filter fun c => c.capability.signs).map KeyPacket.pqcCategory with
  | [] => .classical
  | first :: rest => rest.foldl betterCategory first

/-! ## The merge -/

/-- What one trust source gave: its kind, its path and its keys or an error. -/
structure SourceResult where
  origin : String
  source : String
  result : Except String (List ParsedKey)

/-- Where a key was found. -/
structure Origin where
  origin : String
  source : String

/-- A key of the inventory. -/
structure KeyEntry where
  key : ParsedKey
  origins : List Origin

/-- One entry of `sources`. -/
structure SourceEntry where
  origin : String
  source : String
  keys : ℕ
  error : Option String

/-- The three accumulators of the loop. -/
structure Found where
  byFp : Dict String KeyEntry := Dict.empty
  unkeyed : List KeyEntry := []
  sources : List SourceEntry := []

/-- `_strip_prefix(Path(src)) if src.startswith("/") else src`. -/
def displayed (hostPrefix src : String) : String :=
  if startsWith "/" src then
    let text := (PurePath.ofText src).text
    if hostPrefix ≠ "" ∧ startsWith hostPrefix text then dropFirst hostPrefix text else text
  else src

/-- `entry = by_fp.setdefault(fp, {**key, "origins": []})`, and the origin appended. -/
def absorbCopy (old : Option KeyEntry) (copy : Origin × ParsedKey) : KeyEntry :=
  let entry := old.getD ⟨copy.2, []⟩
  { entry with origins := entry.origins ++ [copy.1] }

/-- The loop body for one key. -/
def addKey (state : Found) (copy : Origin × ParsedKey) : Found :=
  match copy.2.fingerprint with
  | none => { state with unkeyed := state.unkeyed ++ [⟨copy.2, [copy.1]⟩] }
  | some fp => { state with byFp := state.byFp.update fp fun old => absorbCopy old copy }

/-- The loop body for one source. -/
def addSource (hostPrefix : String) (state : Found) (src : SourceResult) : Found :=
  let shown := displayed hostPrefix src.source
  match src.result with
  | .error message =>
      { state with sources := state.sources ++ [⟨src.origin, shown, 0, some message⟩] }
  | .ok keys =>
      (keys.map fun key => (⟨src.origin, shown⟩, key)).foldl addKey
        { state with sources := state.sources ++ [⟨src.origin, shown, keys.length, none⟩] }

/-- `summary`. -/
structure Summary where
  total : ℕ
  classical : ℕ
  hybrid : ℕ
  purePqc : ℕ
  allClassical : Bool
  deriving DecidableEq

/-- The counts over the keys of the inventory. -/
def summarize (keys : List KeyEntry) : Summary :=
  let counted (category : PqcCategory) :=
    keys.countP fun entry => signingPqcCategory entry.key = category
  { total := keys.length
    classical := counted .classical
    hybrid := counted .hybrid
    purePqc := counted .purePqc
    allClassical := !keys.isEmpty && counted .hybrid + counted .purePqc == 0 }

/-- The result of a scan that found a trust store. -/
structure Inventory where
  sources : List SourceEntry
  keys : List KeyEntry
  summary : Summary

/-- `scan_signing_keys` from the source results on; nothing is available when there is
no source. -/
def scanSigningKeys (hostPrefix : String) (gen : List SourceResult) : Option Inventory :=
  let found := gen.foldl (addSource hostPrefix) {}
  let keys := sortedBy (fun entry : KeyEntry => entry.key.fingerprint.getD "") found.byFp.values ++
    found.unkeyed
  if found.sources.isEmpty then none
  else some ⟨found.sources, keys, summarize keys⟩

/-! ## What the loop collects -/

/-- The keys of a source; none when it could not be read. -/
def SourceResult.keys (src : SourceResult) : List ParsedKey :=
  match src.result with
  | .error _ => []
  | .ok keys => keys

/-- The keys of a source with their origin, as the loop meets them. -/
def SourceResult.copies (hostPrefix : String) (src : SourceResult) : List (Origin × ParsedKey) :=
  src.keys.map fun key => (⟨src.origin, displayed hostPrefix src.source⟩, key)

/-- All keys of all sources. -/
def trusted (hostPrefix : String) (gen : List SourceResult) : List (Origin × ParsedKey) :=
  gen.flatMap (SourceResult.copies hostPrefix)

theorem foldl_addKey (state : Found) (copies : List (Origin × ParsedKey)) :
    copies.foldl addKey state =
      { state with
        byFp := state.byFp.collect (fun copy => copy.2.fingerprint) absorbCopy copies
        unkeyed := state.unkeyed ++
          (copies.filter fun copy => copy.2.fingerprint.isNone).map
            fun copy => ⟨copy.2, [copy.1]⟩ } := by
  induction copies generalizing state with
  | nil => simp [Dict.collect]
  | cons copy rest ih =>
      rw [List.foldl_cons, ih]
      cases hfp : copy.2.fingerprint with
      | none => simp [addKey, hfp, Dict.collect, Dict.absorbInto]
      | some fp => simp [addKey, hfp, Dict.collect, Dict.absorbInto]

variable {hostPrefix : String} {gen : List SourceResult}

theorem addSource_eq (hostPrefix : String) (state : Found) (src : SourceResult) :
    ∃ entry, addSource hostPrefix state src =
      (src.copies hostPrefix).foldl addKey { state with sources := state.sources ++ [entry] } := by
  unfold addSource SourceResult.copies SourceResult.keys
  cases src.result with
  | error message => exact ⟨_, rfl⟩
  | ok keys => exact ⟨_, rfl⟩

/-- The loop files every key under its fingerprint and keeps one entry a source. -/
theorem foldl_addSource (hostPrefix : String) (gen : List SourceResult) (state : Found) :
    ∃ entries : List SourceEntry, entries.length = gen.length ∧
      gen.foldl (addSource hostPrefix) state =
        (trusted hostPrefix gen).foldl addKey { state with sources := state.sources ++ entries } := by
  induction gen generalizing state with
  | nil => exact ⟨[], rfl, by simp [trusted]⟩
  | cons src rest ih =>
      obtain ⟨entry, hsource⟩ := addSource_eq hostPrefix state src
      obtain ⟨entries, hlength, hrest⟩ := ih (addSource hostPrefix state src)
      refine ⟨entry :: entries, by simp [hlength], ?_⟩
      rw [List.foldl_cons, hrest, hsource]
      simp [trusted, foldl_addKey, Dict.collect]

/-- The dictionary the loop ends with. -/
def merged (hostPrefix : String) (gen : List SourceResult) : Dict String KeyEntry :=
  Dict.empty.collect (fun copy => copy.2.fingerprint) absorbCopy (trusted hostPrefix gen)

/-- The keys without a fingerprint, of all sources. -/
def unkeyed (hostPrefix : String) (gen : List SourceResult) : List KeyEntry :=
  ((trusted hostPrefix gen).filter fun copy => copy.2.fingerprint.isNone).map
    fun copy => ⟨copy.2, [copy.1]⟩

/-- The keys of the inventory. -/
def inventoryKeys (hostPrefix : String) (gen : List SourceResult) : List KeyEntry :=
  sortedBy (fun entry : KeyEntry => entry.key.fingerprint.getD "") (merged hostPrefix gen).values ++
    unkeyed hostPrefix gen

theorem scanSigningKeys_eq (hostPrefix : String) (gen : List SourceResult) :
    ∃ entries : List SourceEntry, scanSigningKeys hostPrefix gen =
      if gen = [] then none
      else some ⟨entries, inventoryKeys hostPrefix gen, summarize (inventoryKeys hostPrefix gen)⟩ := by
  obtain ⟨entries, hlength, hfold⟩ := foldl_addSource hostPrefix gen {}
  refine ⟨entries, ?_⟩
  have hempty : entries.isEmpty = true ↔ gen = [] := by
    rw [List.isEmpty_iff, ← List.length_eq_zero_iff, ← List.length_eq_zero_iff, hlength]
  unfold scanSigningKeys
  rw [hfold, foldl_addKey]
  by_cases hgen : gen = []
  · simp [hgen, hempty.mpr hgen]
  · simp [hgen, mt hempty.mp hgen, inventoryKeys, merged, unkeyed]

/-! ## The copy that counts -/

/-- The copy of a key that the loop meets first in a source. -/
def SourceResult.firstCopy (src : SourceResult) (fp : String) : Option ParsedKey :=
  src.keys.find? fun key => key.fingerprint = some fp

/-- The first copy of all. -/
def firstCopy (gen : List SourceResult) (fp : String) : Option ParsedKey :=
  gen.findSome? fun src => src.firstCopy fp

theorem get?_merged (hostPrefix : String) (gen : List SourceResult) (fp : String) :
    ((merged hostPrefix gen).get? fp).map KeyEntry.key = firstCopy gen fp := by
  have hfirst : ∀ src : SourceResult,
      (src.copies hostPrefix).find? (fun copy => copy.2.fingerprint = some fp) =
        (src.firstCopy fp).map fun key =>
          (⟨src.origin, displayed hostPrefix src.source⟩, key) := by
    intro src
    rw [SourceResult.copies, List.find?_map]
    rfl
  rw [merged, Dict.get?_collect, Dict.get?_empty, Dict.map_absorbAll_none KeyEntry.key Prod.snd]
  · rw [List.head?_filter, trusted, List.find?_flatMap, firstCopy, List.map_findSome?]
    congr 1
    funext src
    simp [hfirst, Function.comp_def]
  · intro copy
    rfl
  · intro entry copy
    rfl

theorem fingerprint_of_firstCopy {fp : String} {key : ParsedKey}
    (hfirst : firstCopy gen fp = some key) : key.fingerprint = some fp := by
  obtain ⟨src, -, hsrc⟩ := List.exists_of_findSome?_eq_some hfirst
  simpa using List.find?_some hsrc

/-- The category under a fingerprint. -/
def categoryOf (gen : List SourceResult) (fp : String) : Option PqcCategory :=
  (firstCopy gen fp).map signingPqcCategory

/-- The fingerprints of an inventory with their `signing_pqc_category`. -/
def categories (keys : List KeyEntry) : List (String × PqcCategory) :=
  keys.filterMap fun entry =>
    entry.key.fingerprint.map fun fp => (fp, signingPqcCategory entry.key)

theorem mem_categories_inventoryKeys {fp : String} {category : PqcCategory} :
    (fp, category) ∈ categories (inventoryKeys hostPrefix gen) ↔
      categoryOf gen fp = some category := by
  have hunkeyed : ∀ entry ∈ unkeyed hostPrefix gen, entry.key.fingerprint = none := by
    intro entry hentry
    obtain ⟨copy, hcopy, rfl⟩ := List.mem_map.mp hentry
    simpa using (List.mem_filter.mp hcopy).2
  rw [categoryOf, ← get?_merged hostPrefix]
  simp only [categories, List.mem_filterMap, Option.map_eq_some_iff, Prod.mk.injEq]
  constructor
  · rintro ⟨entry, hentry, other, hother, rfl, rfl⟩
    rcases List.mem_append.mp hentry with hsorted | hnone
    · obtain ⟨key, hget⟩ := (Dict.mem_values_iff _).mp (mem_sortedBy.mp hsorted)
      -- The entry is filed under the fingerprint of the copy it keeps.
      have hfirst : firstCopy gen key = some entry.key := by
        rw [← get?_merged hostPrefix, hget]
        rfl
      obtain rfl : other = key := by
        simpa [hother] using fingerprint_of_firstCopy hfirst
      exact ⟨entry.key, ⟨entry, hget, rfl⟩, rfl⟩
    · rw [hunkeyed entry hnone] at hother
      cases hother
  · rintro ⟨key, ⟨entry, hget, rfl⟩, rfl⟩
    have hfirst : firstCopy gen fp = some entry.key := by
      rw [← get?_merged hostPrefix, hget]
      rfl
    refine ⟨entry, ?_, fp, fingerprint_of_firstCopy hfirst, rfl, rfl⟩
    exact List.mem_append_left _ (mem_sortedBy.mpr ((Dict.mem_values_iff _).mpr ⟨fp, hget⟩))

/-! ## The order of the sources -/

/-- The first copies of every two sources that carry a key have one category. -/
def CopiesAgree (gen : List SourceResult) : Prop :=
  ∀ fp, ∀ first ∈ gen, ∀ second ∈ gen, ∀ key other,
    first.firstCopy fp = some key → second.firstCopy fp = some other →
      signingPqcCategory key = signingPqcCategory other

/-- The same summary, and the same fingerprints with the same categories. -/
structure Inventory.Same (first second : Inventory) : Prop where
  summary : first.summary = second.summary
  categories : ∀ entry, entry ∈ categories first.keys ↔ entry ∈ categories second.keys

/-- Two results of a scan: neither found a source, or they are the same inventory. -/
def SameResult : Option Inventory → Option Inventory → Prop
  | none, none => True
  | some first, some second => first.Same second
  | _, _ => False

section Order

variable {order : List SourceResult}

theorem categoryOf_of_mem (hagree : CopiesAgree gen) {src : SourceResult} (hsrc : src ∈ gen)
    {fp : String} {key : ParsedKey} (hkey : src.firstCopy fp = some key) :
    categoryOf gen fp = some (signingPqcCategory key) := by
  unfold categoryOf
  cases hfirst : firstCopy gen fp with
  | none =>
      have hnone := List.findSome?_eq_none_iff.mp hfirst src hsrc
      rw [hkey] at hnone
      cases hnone
  | some other =>
      obtain ⟨first, hmem, hother⟩ := List.exists_of_findSome?_eq_some hfirst
      rw [Option.map_some, hagree fp first hmem src hsrc other key hother hkey]

theorem categoryOf_perm (hagree : CopiesAgree gen) (hperm : order.Perm gen) (fp : String) :
    categoryOf order fp = categoryOf gen fp := by
  cases hfirst : firstCopy order fp with
  | none =>
      have hnone : firstCopy gen fp = none := by
        apply List.findSome?_eq_none_iff.mpr
        intro src hsrc
        exact List.findSome?_eq_none_iff.mp hfirst src (hperm.mem_iff.mpr hsrc)
      rw [categoryOf, categoryOf, hfirst, hnone]
  | some key =>
      obtain ⟨src, hsrc, hkey⟩ := List.exists_of_findSome?_eq_some hfirst
      rw [categoryOf_of_mem hagree (hperm.mem_iff.mp hsrc) hkey, categoryOf, hfirst]
      rfl

theorem trusted_perm (hperm : order.Perm gen) :
    (trusted hostPrefix order).Perm (trusted hostPrefix gen) :=
  hperm.flatMap_right _

/-- The categories of the merged keys, whatever the order they were met in. -/
theorem merged_categories_perm (hagree : CopiesAgree gen) (hperm : order.Perm gen) :
    ((merged hostPrefix order).values.map fun entry => signingPqcCategory entry.key).Perm
      ((merged hostPrefix gen).values.map fun entry => signingPqcCategory entry.key) := by
  -- Filed under their fingerprints, the categories are the entries of one mapping.
  let filed (sources : List SourceResult) : List (String × PqcCategory) :=
    (merged hostPrefix sources).entries.map fun entry =>
      (entry.1, signingPqcCategory entry.2.key)
  have hkeys : ∀ sources, ((filed sources).map Prod.fst).Nodup := by
    intro sources
    rw [List.map_map]
    exact (merged hostPrefix sources).nodup
  have hmem : ∀ sources fp category,
      (fp, category) ∈ filed sources ↔ categoryOf sources fp = some category := by
    intro sources fp category
    rw [categoryOf, ← get?_merged hostPrefix]
    simp only [filed, List.mem_map, Prod.mk.injEq, Option.map_eq_some_iff]
    constructor
    · rintro ⟨⟨key, entry⟩, hentry, rfl, rfl⟩
      exact ⟨entry.key, ⟨entry, (Dict.mem_entries_iff _).mp hentry, rfl⟩, rfl⟩
    · rintro ⟨key, ⟨entry, hget, rfl⟩, rfl⟩
      exact ⟨(fp, entry), (Dict.mem_entries_iff _).mpr hget, rfl, rfl⟩
  have hfiled : (filed order).Perm (filed gen) := by
    rw [List.perm_ext_iff_of_nodup (List.Nodup.of_map _ (hkeys order))
      (List.Nodup.of_map _ (hkeys gen))]
    rintro ⟨fp, category⟩
    rw [hmem, hmem, categoryOf_perm hagree hperm]
  simpa [filed, Dict.values, Function.comp_def] using hfiled.map Prod.snd

theorem summarize_eq_of_perm {first second : List KeyEntry}
    (hperm : (first.map fun entry => signingPqcCategory entry.key).Perm
      (second.map fun entry => signingPqcCategory entry.key)) :
    summarize first = summarize second := by
  have hcount : ∀ category,
      (first.countP fun entry => signingPqcCategory entry.key = category) =
        second.countP fun entry => signingPqcCategory entry.key = category := by
    intro category
    have h := hperm.countP_eq fun other => decide (other = category)
    rwa [List.countP_map, List.countP_map] at h
  have hlength : first.length = second.length := by simpa using hperm.length_eq
  have hempty : first.isEmpty = second.isEmpty := by
    rw [Bool.eq_iff_iff, List.isEmpty_iff_length_eq_zero, List.isEmpty_iff_length_eq_zero, hlength]
  simp only [summarize, hcount, hlength, hempty]

theorem summarize_perm (hagree : CopiesAgree gen) (hperm : order.Perm gen) :
    summarize (inventoryKeys hostPrefix order) = summarize (inventoryKeys hostPrefix gen) := by
  apply summarize_eq_of_perm
  rw [inventoryKeys, inventoryKeys, List.map_append, List.map_append]
  refine List.Perm.append ?_ ?_
  · exact (((sortedBy_perm _ _).map _).trans (merged_categories_perm hagree hperm)).trans
      ((sortedBy_perm _ _).map _).symm
  · exact (((trusted_perm hperm).filter _).map _).map _

theorem sameResult_of_perm (hagree : CopiesAgree gen) (hperm : order.Perm gen) :
    SameResult (scanSigningKeys hostPrefix order) (scanSigningKeys hostPrefix gen) := by
  obtain ⟨entries, hscan⟩ := scanSigningKeys_eq hostPrefix gen
  obtain ⟨entries', hscan'⟩ := scanSigningKeys_eq hostPrefix order
  rw [hscan, hscan']
  by_cases hgen : gen = []
  · rw [if_pos hgen, if_pos (by rw [hgen] at hperm; exact hperm.eq_nil)]
    trivial
  · rw [if_neg hgen, if_neg (by rintro rfl; exact hgen hperm.symm.eq_nil)]
    refine ⟨summarize_perm hagree hperm, ?_⟩
    rintro ⟨fp, category⟩
    rw [mem_categories_inventoryKeys, mem_categories_inventoryKeys, categoryOf_perm hagree hperm]

/-- A source that stands first decides the categories of its keys. -/
theorem mem_categories_of_head {src : SourceResult} {rest : List SourceResult} {fp : String}
    {key : ParsedKey} (hkey : src.firstCopy fp = some key) {inv : Inventory}
    (hscan : scanSigningKeys hostPrefix (src :: rest) = some inv) :
    (fp, signingPqcCategory key) ∈ categories inv.keys := by
  obtain ⟨entries, heq⟩ := scanSigningKeys_eq hostPrefix (src :: rest)
  rw [heq, if_neg (List.cons_ne_nil _ _)] at hscan
  obtain rfl := Option.some.inj hscan
  rw [mem_categories_inventoryKeys, categoryOf, firstCopy, List.findSome?_cons, hkey]
  rfl

end Order

/-- **The inventory is independent of the order of the trust sources exactly if the copies
of a key agree on its category.** -/
theorem scanSigningKeys_order_independent_iff (hostPrefix : String) (gen : List SourceResult) :
    (∀ order, order.Perm gen →
      SameResult (scanSigningKeys hostPrefix order) (scanSigningKeys hostPrefix gen)) ↔
      CopiesAgree gen := by
  constructor
  · intro hsame fp first hfirst second hsecond key other hkey hother
    -- With its source moved to the front, either copy has to give the category of `gen`.
    have hfront : ∀ src ∈ gen, ∀ copy, src.firstCopy fp = some copy →
        categoryOf gen fp = some (signingPqcCategory copy) := by
      intro src hsrc copy hcopy
      obtain ⟨before, after, hsplit⟩ := List.append_of_mem hsrc
      have hperm : (src :: (before ++ after)).Perm gen := by
        rw [hsplit]
        exact List.perm_middle.symm
      have hresult := hsame _ hperm
      obtain ⟨entries, hscan⟩ := scanSigningKeys_eq hostPrefix gen
      obtain ⟨entries', hscan'⟩ := scanSigningKeys_eq hostPrefix (src :: (before ++ after))
      rw [if_neg (List.ne_nil_of_mem hsrc)] at hscan
      rw [if_neg (List.cons_ne_nil _ _)] at hscan'
      rw [hscan, hscan'] at hresult
      have hmem := (hresult.categories _).mp (mem_categories_of_head hcopy hscan')
      exact mem_categories_inventoryKeys.mp hmem
    exact Option.some.inj ((hfront first hfirst key hkey).symm.trans
      (hfront second hsecond other hother))
  · intro hagree order hperm
    exact sameResult_of_perm hagree hperm

/-- A primary key as it was imported into the rpm database. -/
def importedKey : ParsedKey :=
  ⟨some "AB12", ⟨.sign, .classical⟩, []⟩

/-- The same key in a repository's key file, with a hybrid signing subkey. -/
def refreshedKey : ParsedKey :=
  ⟨some "AB12", ⟨.sign, .classical⟩, [⟨.sign, .hybrid⟩]⟩

/-- The two copies, in the order of the scan. -/
def twoCopies : List SourceResult :=
  [⟨"rpmdb", "/var/lib/rpm (rpmdb-sqlite)", .ok [importedKey]⟩,
    ⟨"repo-gpgkey", "/etc/pki/rpm-gpg/RPM-GPG-KEY", .ok [refreshedKey]⟩]

theorem twoCopies_order_shows :
    twoCopies.reverse.Perm twoCopies ∧
      ((scanSigningKeys "" twoCopies).map fun inv => inv.summary.allClassical) = some true ∧
      ((scanSigningKeys "" twoCopies.reverse).map fun inv => inv.summary.allClassical) =
        some false ∧
      ¬ SameResult (scanSigningKeys "" twoCopies.reverse) (scanSigningKeys "" twoCopies) := by
  have hforward : ((scanSigningKeys "" twoCopies).map fun inv => inv.summary.allClassical) =
      some true := by decide +kernel
  have hbackward : ((scanSigningKeys "" twoCopies.reverse).map fun inv =>
      inv.summary.allClassical) = some false := by decide +kernel
  refine ⟨List.reverse_perm _, hforward, hbackward, ?_⟩
  intro hsame
  obtain ⟨forward, hscan, hall⟩ := Option.map_eq_some_iff.mp hforward
  obtain ⟨backward, hscan', hall'⟩ := Option.map_eq_some_iff.mp hbackward
  rw [hscan, hscan'] at hsame
  rw [hsame.summary, hall] at hall'
  cases hall'

end PqcReadiness.Signing
