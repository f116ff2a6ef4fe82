import Mathlib.Data.List.Induction
import PqcReadiness.Bom.Sbom

/-!
# What the index and the SBOM hold

`get?_purlIndex` and `purlIndex_none` say when `_purl_index` has a purl for a name and a version,
and whose it is.  A purl has no `#`, which stands between a recipe's purl and a package's name in the
references of the SBOM (`withoutHash_packagePurl`).
-/

namespace PqcReadiness.Bom

open PqcReadiness.Lib PqcReadiness.Packages

variable {lower : String → String} {context : Context} {inventory : List Listed}

/-! ## The index -/

/-- The key of a package. -/
def Listed.key (pkg : Listed) : String × String := (pkg.name, fullVersion pkg.version pkg.release)

/-- The key without the release. -/
def Listed.upstreamKey (pkg : Listed) : String × String := (pkg.name, pkg.version)

/-- The dictionaries hold the purls of some packages. -/
structure Indexes (lower : String → String) (context : Context) (state : IndexState)
    (inventory : List Listed) : Prop where
  found : ∀ key purl, state.index.get? key = some purl →
    ∃ pkg ∈ inventory, pkg.key = key ∧ packagePurl lower context pkg = some purl
  missing : ∀ key, state.index.get? key = none →
    ∀ pkg ∈ inventory, pkg.key = key → packagePurl lower context pkg = none
  upstream : ∀ key purl, purl ∈ (state.upstream.get? key).getD [] ↔
    ∃ pkg ∈ inventory, pkg.upstreamKey = key ∧ packagePurl lower context pkg = some purl
  nodup : ∀ key, ((state.upstream.get? key).getD []).Nodup

theorem mem_addPurl {purl other : String} {found : Option (List String)} :
    other ∈ addPurl purl found ↔ other ∈ found.getD [] ∨ other = purl := by
  unfold addPurl
  dsimp only
  split
  · next hmem =>
      refine ⟨Or.inl, fun hor => hor.elim id ?_⟩
      rintro rfl
      exact hmem
  · rw [List.mem_append, List.mem_singleton]

theorem nodup_addPurl {purl : String} {found : Option (List String)}
    (hnodup : (found.getD []).Nodup) : (addPurl purl found).Nodup := by
  unfold addPurl
  dsimp only
  split
  · exact hnodup
  · next hmem =>
      rw [List.nodup_append]
      refine ⟨hnodup, List.nodup_singleton _, fun a ha b hb => ?_⟩
      rintro rfl
      exact hmem (List.mem_singleton.mp hb ▸ ha)

theorem indexTurn_indexes {state : IndexState} (hindexes : Indexes lower context state inventory)
    (pkg : Listed) :
    Indexes lower context (indexTurn lower context state pkg) (inventory ++ [pkg]) := by
  unfold indexTurn
  cases hpurl : packagePurl lower context pkg with
  | none =>
      dsimp only
      refine ⟨fun key purl hget => ?_, fun key hget other hother hkey => ?_, fun key purl => ?_,
        hindexes.nodup⟩
      · obtain ⟨other, hother, hsame⟩ := hindexes.found key purl hget
        exact ⟨other, List.mem_append_left _ hother, hsame⟩
      · rcases List.mem_append.mp hother with hother | hother
        · exact hindexes.missing key hget other hother hkey
        · rwa [List.mem_singleton.mp hother]
      · rw [hindexes.upstream]
        refine ⟨fun ⟨other, hother, hsame⟩ => ⟨other, List.mem_append_left _ hother, hsame⟩, ?_⟩
        rintro ⟨other, hother, hkey, hsome⟩
        rcases List.mem_append.mp hother with hother | hother
        · exact ⟨other, hother, hkey, hsome⟩
        · rw [List.mem_singleton.mp hother, hpurl] at hsome
          cases hsome
  | some purl =>
      dsimp only
      refine ⟨fun key other hget => ?_, fun key hget other hother hkey => ?_, fun key other => ?_,
        fun key => ?_⟩
      · rw [Dict.get?_update] at hget
        split at hget
        · next hkey =>
            cases hold : state.index.get? (pkg.name, fullVersion pkg.version pkg.release) with
            | none =>
                rw [hold] at hget
                refine ⟨pkg, List.mem_append_right _ (List.mem_singleton.mpr rfl), hkey.symm, ?_⟩
                rwa [hpurl]
            | some old =>
                rw [hold] at hget
                obtain ⟨first, hfirst, hsame, hsome⟩ := hindexes.found _ old hold
                refine ⟨first, List.mem_append_left _ hfirst, hsame.trans hkey.symm, ?_⟩
                rwa [hsome]
        · obtain ⟨first, hfirst, hsame⟩ := hindexes.found key other hget
          exact ⟨first, List.mem_append_left _ hfirst, hsame⟩
      · rw [Dict.get?_update] at hget
        split at hget
        · cases hget
        · next hne =>
            rcases List.mem_append.mp hother with hother | hother
            · exact hindexes.missing key hget other hother hkey
            · rw [List.mem_singleton.mp hother] at hkey
              exact absurd hkey.symm hne
      · rw [Dict.get?_update]
        split
        · next hkey =>
            rw [Option.getD_some, mem_addPurl, hindexes.upstream]
            constructor
            · rintro (⟨first, hfirst, hsame, hsome⟩ | rfl)
              · exact ⟨first, List.mem_append_left _ hfirst, hsame.trans hkey.symm, hsome⟩
              · exact ⟨pkg, List.mem_append_right _ (List.mem_singleton.mpr rfl), hkey.symm, hpurl⟩
            · rintro ⟨first, hfirst, hsame, hsome⟩
              rcases List.mem_append.mp hfirst with hfirst | hfirst
              · exact Or.inl ⟨first, hfirst, hsame.trans hkey, hsome⟩
              · rw [List.mem_singleton.mp hfirst, hpurl] at hsome
                exact Or.inr (Option.some.inj hsome).symm
        · next hne =>
            rw [hindexes.upstream]
            refine ⟨fun ⟨first, hfirst, hsame⟩ => ⟨first, List.mem_append_left _ hfirst, hsame⟩, ?_⟩
            rintro ⟨first, hfirst, hsame, hsome⟩
            rcases List.mem_append.mp hfirst with hfirst | hfirst
            · exact ⟨first, hfirst, hsame, hsome⟩
            · rw [List.mem_singleton.mp hfirst] at hsame
              exact absurd hsame.symm hne
      · rw [Dict.get?_update]
        split
        · exact nodup_addPurl (hindexes.nodup _)
        · exact hindexes.nodup key

theorem foldl_indexTurn (inventory : List Listed) :
    Indexes lower context (inventory.foldl (indexTurn lower context) {}) inventory := by
  induction inventory using List.reverseRecOn with
  | nil =>
      refine ⟨nofun, fun _ _ => nofun, fun key purl => ⟨nofun, ?_⟩, fun key => List.nodup_nil⟩
      rintro ⟨pkg, hpkg, -⟩
      cases hpkg
  | append_singleton inventory pkg ih =>
      rw [List.foldl_append, List.foldl_cons, List.foldl_nil]
      exact indexTurn_indexes ih pkg

/-- The only element of a list. -/
def single : List String → Option String
  | [purl] => some purl
  | _ => none

theorem get?_foldl_upstreamTurn {entries : List ((String × String) × List String)}
    (hnodup : (entries.map Prod.fst).Nodup) (index : Dict (String × String) String)
    (key : String × String) : (entries.foldl upstreamTurn index).get? key =
      (index.get? key).or ((find key entries).bind single) := by
  induction entries generalizing index with
  | nil => exact Option.or_none.symm
  | cons entry rest ih =>
      obtain ⟨other, found⟩ := entry
      rw [List.map_cons, List.nodup_cons] at hnodup
      rw [List.foldl_cons, ih hnodup.2, find]
      have hturn : (upstreamTurn index (other, found)).get? key =
          if key = other then (index.get? other).or (single found) else index.get? key := by
        unfold upstreamTurn
        split
        · next purl hpurl =>
            obtain rfl : found = [purl] := hpurl
            rw [Dict.get?_update]
            split
            · cases index.get? other <;> rfl
            · rfl
        · next hnot =>
            have hnone : single found = none := by
              unfold single
              split
              · next purl => exact absurd rfl (hnot purl)
              · rfl
            rw [hnone, Option.or_none]
            split
            · next hkey => rw [hkey]
            · rfl
      rw [hturn]
      by_cases hkey : key = other
      · subst hkey
        rw [if_pos rfl, if_pos rfl, find_eq_none_iff.mpr hnodup.1, Option.bind_none, Option.or_none,
          Option.bind_some]
      · rw [if_neg hkey, if_neg (Ne.symm hkey)]

/-- What the index finds is the purl of a package of that key, or the only one of a version without
a release. -/
theorem get?_purlIndex {name version purl : String}
    (hget : (purlIndex lower context inventory).get? (name, version) = some purl) :
    (∃ pkg ∈ inventory, pkg.key = (name, version) ∧ packagePurl lower context pkg = some purl) ∨
      (∃ pkg ∈ inventory, pkg.upstreamKey = (name, version) ∧
        packagePurl lower context pkg = some purl) ∧
      ∀ pkg ∈ inventory, pkg.upstreamKey = (name, version) →
        ∀ other, packagePurl lower context pkg = some other → other = purl := by
  have hindexes := @foldl_indexTurn lower context inventory
  rw [purlIndex, get?_foldl_upstreamTurn (Dict.nodup _), Option.or_eq_some_iff] at hget
  rcases hget with hget | ⟨-, hget⟩
  · exact Or.inl (hindexes.found _ _ hget)
  · obtain ⟨found, hfound, hsingle⟩ := Option.bind_eq_some_iff.mp hget
    obtain rfl : found = [purl] := by
      unfold single at hsingle
      split at hsingle
      · rw [Option.some.inj hsingle]
      · cases hsingle
    have hupstream : ∀ other, other = purl ↔ ∃ pkg ∈ inventory, pkg.upstreamKey = (name, version) ∧
        packagePurl lower context pkg = some other := by
      intro other
      rw [← hindexes.upstream, show Dict.get? _ (name, version) = some [purl] from hfound]
      exact List.mem_singleton.symm
    exact Or.inr ⟨(hupstream purl).mp rfl,
      fun pkg hpkg hkey other hother => (hupstream other).mpr ⟨pkg, hpkg, hkey, hother⟩⟩

/-- A key that is not found is that of no package with a purl, and as a version without a release
that of none, or of several purls. -/
theorem purlIndex_none {name version : String}
    (hget : (purlIndex lower context inventory).get? (name, version) = none) :
    (∀ pkg ∈ inventory, pkg.key = (name, version) → packagePurl lower context pkg = none) ∧
      ¬ ∃ purl, (∃ pkg ∈ inventory, pkg.upstreamKey = (name, version) ∧
          packagePurl lower context pkg = some purl) ∧
        ∀ pkg ∈ inventory, pkg.upstreamKey = (name, version) →
          ∀ other, packagePurl lower context pkg = some other → other = purl := by
  have hindexes := @foldl_indexTurn lower context inventory
  rw [purlIndex, get?_foldl_upstreamTurn (Dict.nodup _), Option.or_eq_none_iff] at hget
  refine ⟨hindexes.missing _ hget.1, ?_⟩
  rintro ⟨purl, hsome, hall⟩
  have hmem := (hindexes.upstream (name, version) purl).mpr hsome
  have hfound : Dict.get? (inventory.foldl (indexTurn lower context) {}).upstream (name, version) =
      some [purl] := by
    cases hfound : Dict.get? (inventory.foldl (indexTurn lower context) {}).upstream
        (name, version) with
    | none =>
        rw [hfound] at hmem
        cases hmem
    | some found =>
        have hnodup := hindexes.nodup (name, version)
        have hsame : ∀ other ∈ found, other = purl := by
          intro other hother
          obtain ⟨pkg, hpkg, hkey, hpurl⟩ := (hindexes.upstream (name, version) other).mp (by
            rw [hfound]
            exact hother)
          exact hall pkg hpkg hkey other hpurl
        rw [hfound, Option.getD_some] at hnodup hmem
        rw [List.eq_replicate_of_mem hsame] at hnodup
        have hlength := List.nodup_replicate.mp hnodup
        have hpos := List.length_pos_of_mem hmem
        rw [List.eq_replicate_of_mem hsame, show found.length = 1 by omega]
        rfl
  have hget := hget.2
  rw [show find (name, version) _ = some [purl] from hfound] at hget
  cases hget

/-! ## Characters of a purl -/

section Characters

theorem keepsAscii_isPurlByte : KeepsAscii isPurlByte := by
  have hall : ∀ n : Fin 256, isPurlByte (UInt8.ofNat n.val) = true → n.val < 128 ∧ n.val ≠ 37 := by
    decide +kernel
  intro b hb
  have hbyte : UInt8.ofNat b.toNat = b := UInt8.ofNat_toNat
  exact hall ⟨b.toNat, UInt8.toNat_lt b⟩ (by rwa [hbyte])

/-- The characters of an encoded part. -/
theorem mem_purlEncode {value : String} {c : Char} (hc : c ∈ (purlEncode value).toList) :
    c ≠ '#' ∧ c ≠ '@' ∧ c ≠ '/' ∧ c ≠ '?' ∧ c ≠ '&' := by
  have hkept : ∀ n : Fin 256, isPurlByte (UInt8.ofNat n.val) = true →
      Char.ofNat n.val ≠ '#' ∧ Char.ofNat n.val ≠ '@' ∧ Char.ofNat n.val ≠ '/' ∧
        Char.ofNat n.val ≠ '?' ∧ Char.ofNat n.val ≠ '&' := by decide +kernel
  have hdigits : ∀ n < 16, hexUpper n ≠ '#' ∧ hexUpper n ≠ '@' ∧ hexUpper n ≠ '/' ∧
      hexUpper n ≠ '?' ∧ hexUpper n ≠ '&' := by decide
  rcases mem_percentEncode hc with ⟨b, hb, rfl⟩ | rfl | ⟨n, hn, rfl⟩
  · have hbyte : UInt8.ofNat b.toNat = b := UInt8.ofNat_toNat
    exact hkept ⟨b.toNat, UInt8.toNat_lt b⟩ (by rwa [hbyte])
  · decide
  · exact hdigits n hn

/-- Text without `#`. -/
def WithoutHash (s : String) : Prop := '#' ∉ s.toList

instance (s : String) : Decidable (WithoutHash s) := inferInstanceAs (Decidable (¬ _))

@[simp] theorem withoutHash_append {s t : String} :
    WithoutHash (s ++ t) ↔ WithoutHash s ∧ WithoutHash t := by
  rw [WithoutHash, String.toList_append, List.mem_append, not_or]
  rfl

@[simp] theorem withoutHash_purlEncode (value : String) : WithoutHash (purlEncode value) :=
  fun hc => (mem_purlEncode hc).1 rfl

theorem withoutHash_join {parts : List String} (hparts : ∀ part ∈ parts, WithoutHash part) :
    WithoutHash (join "&" parts) := by
  induction parts with
  | nil => exact List.not_mem_nil
  | cons part rest ih =>
      cases rest with
      | nil => exact hparts part List.mem_cons_self
      | cons next rest =>
          rw [join]
          · have hrest := ih fun other hother => hparts other (List.mem_cons_of_mem _ hother)
            exact withoutHash_append.mpr
              ⟨withoutHash_append.mpr ⟨hparts part List.mem_cons_self, by decide⟩, hrest⟩
          · exact List.cons_ne_nil _ _

theorem withoutHash_typedPurl {ptype vendor : String} {pkg : Listed} (hptype : WithoutHash ptype) :
    WithoutHash (typedPurl lower context ptype vendor pkg) := by
  have hqual : ∀ entry ∈ sortedBy Prod.fst (qualifiers context pkg vendor),
      WithoutHash (entry.1 ++ "=" ++ purlEncode entry.2) := by
    rintro ⟨key, value⟩ hqual
    have hkey : WithoutHash key := by
      have hqual := (sortedBy_perm _ _).mem_iff.mp hqual
      unfold qualifiers at hqual
      simp only [List.mem_append, Option.mem_toList, Option.map_eq_some_iff, List.mem_singleton,
        Prod.mk.injEq] at hqual
      rcases hqual with (⟨_, _, rfl, _⟩ | ⟨_, _, rfl, _⟩) | ⟨rfl, _⟩
      · decide
      · decide
      · decide
    simp +decide [hkey]
  have hquals : ∀ f : String × String → String,
      (∀ entry ∈ sortedBy Prod.fst (qualifiers context pkg vendor), WithoutHash (f entry)) →
      WithoutHash (join "&" ((sortedBy Prod.fst (qualifiers context pkg vendor)).map f)) := by
    intro f hf
    refine withoutHash_join fun part hpart => ?_
    obtain ⟨entry, hentry, rfl⟩ := List.mem_map.mp hpart
    exact hf entry hentry
  rw [typedPurl]
  refine withoutHash_append.mpr ⟨?_, hquals _ hqual⟩
  simp +decide [hptype]

theorem withoutHash_packagePurl {pkg : Listed} {purl : String}
    (hpurl : packagePurl lower context pkg = some purl) : WithoutHash purl := by
  unfold packagePurl at hpurl
  cases hdb : pkg.db.or (dbByFamily context.osRelease.family) with
  | none => rw [hdb] at hpurl; cases hpurl
  | some db =>
      rw [hdb] at hpurl
      dsimp only at hpurl
      split at hpurl
      · cases hpurl
      · split at hpurl
        · next yocto hyocto =>
            obtain rfl := Option.some.inj hpurl
            split at hyocto
            · obtain ⟨⟨name, version⟩, -, rfl⟩ := Option.map_eq_some_iff.mp hyocto
              simp +decide
            · cases hyocto
        · split at hpurl
          · obtain rfl := Option.some.inj hpurl
            unfold opkgPurl
            cases context.vendor <;> simp +decide
          · split at hpurl
            · next ptype vendor htype hvendor =>
                obtain rfl := Option.some.inj hpurl
                refine withoutHash_typedPurl ?_
                cases db with
                | opkg => cases htype
                | rpm => obtain rfl := Option.some.inj htype; decide
                | debian => obtain rfl := Option.some.inj htype; decide
                | alpine => obtain rfl := Option.some.inj htype; decide
                | arch => obtain rfl := Option.some.inj htype; decide
            · cases hpurl

end Characters

end PqcReadiness.Bom
