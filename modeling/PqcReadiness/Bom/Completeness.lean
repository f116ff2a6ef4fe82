import Mathlib.Data.List.Dedup
import PqcReadiness.Bom.Join

/-!
# The SBOM is complete

A package of an inventory is told apart by its kind, its name, its version with the release, its
architecture and its epoch, or by its recipe and its name.  The reference of a component tells
exactly that (`packageRef_eq`, `Identity.ref_inj`), so `build_sbom` has one component for each
distinct package, that of the first one in the inventory (`buildSbom_complete`).
-/

namespace PqcReadiness.Bom

open PqcReadiness.Lib PqcReadiness.Packages

/-! ## Identities -/

/-- What tells the packages of an inventory apart. -/
inductive Identity where
  | recipe (built : String × String) (name : String)
  | plain (name version : String)
  | typed (ptype name version : String) (arch epoch : Option String)
  deriving DecidableEq

section Identities

variable (lower : String → String) (context : Context)

/-- The identity of a package, if it has a purl. -/
def identity (pkg : Listed) : Option Identity :=
  match pkg.db.or (dbByFamily context.osRelease.family) with
  | none => none
  | some db =>
      if pkg.name = "" ∨ pkg.version = "" then none
      else
        match if db = .rpm then recipe context pkg.toPackage else none with
        | some built => some (.recipe built pkg.name)
        | none =>
            if db = .opkg then some (.plain pkg.name pkg.version)
            else
              match purlTypeByDb db, context.vendor with
              | some ptype, some _ =>
                  some (.typed ptype (if ptype = "apk" then lower pkg.name else pkg.name)
                    (fullVersion pkg.version pkg.release) (present pkg.arch)
                    (epochOf pkg.toPackage))
              | _, _ => none

/-- What stands in front of the name of a package of opkg. -/
def opkgStart : String :=
  "pkg:generic/" ++
    match context.vendor with
    | none => ""
    | some vendor => purlEncode (lower vendor) ++ "/"

/-- The reference that tells an identity. -/
def Identity.ref : Identity → List Char
  | recipe built name => (recipePurl built).toList ++ '#' :: name.toList
  | plain name version =>
      (opkgStart lower context).toList ++ ((purlEncode name).toList ++
        '@' :: (purlEncode version).toList)
  | typed ptype name version arch epoch =>
      let vendor := context.vendor.getD ""
      "pkg:".toList ++ (ptype.toList ++ '/' :: ((purlEncode (lower vendor)).toList ++ '/' ::
        ((purlEncode name).toList ++ '@' :: ((purlEncode version).toList ++ '?' ::
          (archChars arch ++ ('d' :: (distroText context vendor).toList ++ epochChars epoch))))))

/-- The types of purls that tell a vendor. -/
def Identity.Known : Identity → Prop
  | typed ptype _ _ _ _ => ptype ∈ ["rpm", "deb", "apk", "alpm"]
  | _ => True

variable {lower context}

theorem purlTypeByDb_known {db : DbKind} {ptype : String} (htype : purlTypeByDb db = some ptype) :
    ptype ∈ ["rpm", "deb", "apk", "alpm"] := by
  cases db <;> cases htype <;> decide

theorem known_identity {pkg : Listed} {id : Identity}
    (hid : identity lower context pkg = some id) : id.Known := by
  rw [identity] at hid
  split at hid
  · cases hid
  · split at hid
    · cases hid
    · split at hid
      · cases hid
        trivial
      · split at hid
        · cases hid
          trivial
        · split at hid
          · next ptype vendor htype _ =>
              cases hid
              exact purlTypeByDb_known htype
          · cases hid

/-- The text of a typed purl, of any type. -/
theorem toList_typedPurl_ref {ptype vendor : String} (hvendor : context.vendor = some vendor)
    (pkg : Listed) : (typedPurl lower context ptype vendor pkg).toList =
      (Identity.typed ptype (if ptype = "apk" then lower pkg.name else pkg.name)
        (fullVersion pkg.version pkg.release) (present pkg.arch)
        (epochOf pkg.toPackage)).ref lower context := by
  rw [Identity.ref, ← toList_qualifierText, hvendor, Option.getD_some]
  unfold typedPurl qualifierText
  simp

/-! ## References -/

theorem startsWith_yocto_typedPurl {ptype vendor : String}
    (hptype : ptype ∈ ["rpm", "deb", "apk", "alpm"]) (hvendor : context.vendor = some vendor)
    (pkg : Listed) :
    startsWith "pkg:yocto/" (typedPurl lower context ptype vendor pkg) = false := by
  rw [startsWith, toList_typedPurl_ref hvendor, Identity.ref]
  simp only [List.mem_cons, List.not_mem_nil, or_false] at hptype
  rcases hptype with rfl | rfl | rfl | rfl <;> rfl

theorem startsWith_yocto_opkgPurl (pkg : Listed) :
    startsWith "pkg:yocto/" (opkgPurl lower context pkg) = false := by
  rw [startsWith, opkgPurl]
  simp only [String.append_assoc, String.toList_append]
  rfl

/-- A reference tells the identity of its package. -/
theorem packageRef_eq (pkg : Listed) :
    (packagePurl lower context pkg).map (fun purl => (refOf purl pkg.name).toList) =
      (identity lower context pkg).map (Identity.ref lower context) := by
  have hyocto : ∀ db, (if db = DbKind.rpm ∧ context.isYocto then yoctoPurl pkg else none) =
      (if db = .rpm then recipe context pkg.toPackage else none).map recipePurl := by
    intro db
    by_cases hdb : db = .rpm
    · rw [recipe]
      by_cases hyocto : context.isYocto = true
      · rw [if_pos ⟨hdb, hyocto⟩, if_pos hdb, if_pos hyocto]
        rfl
      · rw [if_neg fun h => hyocto h.2, if_pos hdb, if_neg hyocto]
        rfl
    · rw [if_neg fun h => hdb h.1, if_neg hdb]
      rfl
  rw [packagePurl, identity]
  cases pkg.db.or (dbByFamily context.osRelease.family) with
  | none => rfl
  | some db =>
      dsimp only
      split
      · rfl
      · rw [hyocto]
        cases if db = .rpm then recipe context pkg.toPackage else none with
        | some built =>
            have hstarts : startsWith "pkg:yocto/" (recipePurl built) = true := by
              rw [recipePurl, String.append_assoc, String.append_assoc]
              exact startsWith_append _ _
            dsimp only [Option.map_some]
            rw [refOf, if_pos hstarts, Identity.ref, String.toList_append, String.toList_append,
              List.append_assoc]
            rfl
        | none =>
            dsimp only [Option.map_none]
            split
            · rw [Option.map_some, Option.map_some, refOf, startsWith_yocto_opkgPurl,
                if_neg (by decide), Identity.ref, opkgPurl, opkgStart]
              cases context.vendor <;> simp
            · cases htype : purlTypeByDb db with
              | none => rfl
              | some ptype =>
                  cases hvendor : context.vendor with
                  | none => rfl
                  | some vendor =>
                      dsimp only [Option.map_some]
                      rw [refOf, startsWith_yocto_typedPurl (purlTypeByDb_known htype) hvendor,
                        if_neg (by decide), toList_typedPurl_ref hvendor]

/-- The first letter of the type of a purl. -/
def Identity.letter : Identity → Char
  | recipe _ _ => 'y'
  | plain _ _ => 'g'
  | typed ptype _ _ _ _ => ptype.toList.headD 'g'

theorem letter_ref {id : Identity} (hknown : id.Known) :
    (id.ref lower context)[4]? = some id.letter := by
  cases id with
  | recipe built name =>
      rw [Identity.ref, recipePurl]
      simp only [String.append_assoc, String.toList_append, List.append_assoc]
      rfl
  | plain name version =>
      rw [Identity.ref, opkgStart, String.toList_append, List.append_assoc]
      rfl
  | typed ptype name version arch epoch =>
      simp only [Identity.Known, List.mem_cons, List.not_mem_nil, or_false] at hknown
      rcases hknown with rfl | rfl | rfl | rfl <;> rfl

theorem recipeRef_inj {built built' : String × String} {name name' : String}
    (hsame : (Identity.recipe built name).ref lower context =
      (Identity.recipe built' name').ref lower context) :
    Identity.recipe built name = .recipe built' name' := by
  have hclean : ∀ built, '#' ∉ (recipePurl built).toList := by
    intro built
    have hhash : WithoutHash (recipePurl built) := by simp +decide [recipePurl]
    exact hhash
  obtain ⟨hpurl, hname⟩ := append_cons_inj (hclean built) (hclean built') hsame
  rw [recipePurl_injective (String.toList_inj.mp hpurl), String.toList_inj.mp hname]

theorem plainRef_inj {name name' version version' : String}
    (hsame : (Identity.plain name version).ref lower context =
      (Identity.plain name' version').ref lower context) :
    Identity.plain name version = .plain name' version' := by
  obtain ⟨hname, hversion⟩ := append_cons_inj (fun hc => (mem_purlEncode hc).2.1 rfl)
    (fun hc => (mem_purlEncode hc).2.1 rfl) (List.append_cancel_left hsame)
  rw [purlEncode_injective (String.toList_inj.mp hname),
    purlEncode_injective (String.toList_inj.mp hversion)]

/-- The qualifiers tell the architecture and the epoch. -/
theorem qualifierChars_inj {arch arch' epoch epoch' : Option String} {distro : List Char}
    (hsame : archChars arch ++ ('d' :: distro ++ epochChars epoch) =
      archChars arch' ++ ('d' :: distro ++ epochChars epoch')) : arch = arch' ∧ epoch = epoch' := by
  cases arch with
  | none =>
      cases arch' with
      | none => exact ⟨rfl, epochChars_injective (List.append_cancel_left hsame)⟩
      | some arch' => exact absurd (List.cons.inj hsame).1 (by decide)
  | some arch =>
      cases arch' with
      | none => exact absurd (List.cons.inj hsame).1 (by decide)
      | some arch' =>
          simp only [archChars, Option.elim_some, List.cons_append, List.append_assoc] at hsame
          obtain ⟨hname, hrest⟩ := append_cons_inj (fun hc => (mem_purlEncode hc).2.2.2.2 rfl)
            (fun hc => (mem_purlEncode hc).2.2.2.2 rfl)
            (List.append_cancel_left (List.cons.inj hsame).2)
          rw [purlEncode_injective (String.toList_inj.mp hname)]
          exact ⟨rfl, epochChars_injective (List.append_cancel_left (List.cons.inj hrest).2)⟩

theorem typedRef_inj {ptype ptype' name name' version version' : String}
    {arch arch' epoch epoch' : Option String} (hptype : '/' ∉ ptype.toList)
    (hptype' : '/' ∉ ptype'.toList)
    (hsame : (Identity.typed ptype name version arch epoch).ref lower context =
      (Identity.typed ptype' name' version' arch' epoch').ref lower context) :
    Identity.typed ptype name version arch epoch = .typed ptype' name' version' arch' epoch' := by
  obtain ⟨htype, hrest⟩ := append_cons_inj hptype hptype' (List.append_cancel_left hsame)
  have hpart := (List.cons.inj (List.append_cancel_left hrest)).2
  obtain ⟨hname, hbehind⟩ := append_cons_inj (fun hc => (mem_purlEncode hc).2.1 rfl)
    (fun hc => (mem_purlEncode hc).2.1 rfl) hpart
  obtain ⟨hversion, hquals⟩ := append_cons_inj (fun hc => (mem_purlEncode hc).2.2.2.1 rfl)
    (fun hc => (mem_purlEncode hc).2.2.2.1 rfl) hbehind
  obtain ⟨harch, hepoch⟩ := qualifierChars_inj hquals
  rw [String.toList_inj.mp htype, purlEncode_injective (String.toList_inj.mp hname),
    purlEncode_injective (String.toList_inj.mp hversion), harch, hepoch]

/-- Different identities have different references. -/
theorem Identity.ref_inj {one other : Identity} (hone : one.Known) (hother : other.Known)
    (hsame : one.ref lower context = other.ref lower context) : one = other := by
  have hletter : one.letter = other.letter := by
    have hfirst := @letter_ref lower context one hone
    rw [hsame, letter_ref hother] at hfirst
    exact (Option.some.inj hfirst).symm
  have htyped : ∀ ptype ∈ ["rpm", "deb", "apk", "alpm"],
      '/' ∉ ptype.toList ∧ ptype.toList.headD 'g' ≠ 'y' ∧ ptype.toList.headD 'g' ≠ 'g' := by decide
  cases one with
  | recipe built name =>
      cases other with
      | recipe built' name' => exact recipeRef_inj hsame
      | plain name' version' => exact absurd hletter (by simp only [Identity.letter]; decide)
      | typed ptype' name' version' arch' epoch' => exact absurd hletter.symm (htyped _ hother).2.1
  | plain name version =>
      cases other with
      | recipe built' name' => exact absurd hletter (by simp only [Identity.letter]; decide)
      | plain name' version' => exact plainRef_inj hsame
      | typed ptype' name' version' arch' epoch' => exact absurd hletter.symm (htyped _ hother).2.2
  | typed ptype name version arch epoch =>
      cases other with
      | recipe built' name' => exact absurd hletter (htyped _ hone).2.1
      | plain name' version' => exact absurd hletter (htyped _ hone).2.2
      | typed ptype' name' version' arch' epoch' =>
          exact typedRef_inj (htyped _ hone).1 (htyped _ hother).1 hsame

end Identities

/-! ## Components -/

section Complete

variable (lower : String → String) (context : Context)

/-- The component of a package with a purl. -/
def packageComponent (pkg : Listed) (purl : String) : Component where
  type := "library"
  bomRef := refOf purl pkg.name
  name := pkg.name
  version := some (fullVersion pkg.version pkg.release)
  purl := some purl

/-- The entry that the loop of `build_sbom` makes of a package. -/
def sbomEntry (pkg : Listed) : Option (String × Component) :=
  (packagePurl lower context pkg).map fun purl =>
    (refOf purl pkg.name, packageComponent pkg purl)

/-- The packages that are software. -/
def software (pkgs : List Listed) : List Listed := pkgs.filter fun pkg => pkg.name ≠ "gpg-pubkey"

theorem foldl_sbomTurn_eq (pkgs : List Listed) (state : SbomState) :
    pkgs.foldl (sbomTurn lower context) state =
      { components := ((software pkgs).filterMap (sbomEntry lower context)).foldl
          (fun d entry => d.update entry.1 fun old => old.getD entry.2) state.components
        noPurl := state.noPurl +
          ((software pkgs).filter fun pkg => packagePurl lower context pkg = none).length } := by
  induction pkgs generalizing state with
  | nil => rfl
  | cons pkg pkgs ih =>
      rw [List.foldl_cons, ih, sbomTurn]
      by_cases hkey : pkg.name = "gpg-pubkey"
      · have hsoftware : software (pkg :: pkgs) = software pkgs := by
          rw [software, List.filter_cons_of_neg (by simpa using hkey)]
          rfl
        rw [if_pos hkey, hsoftware]
      · have hsoftware : software (pkg :: pkgs) = pkg :: software pkgs := by
          rw [software, List.filter_cons_of_pos (by simpa using hkey)]
          rfl
        rw [if_neg hkey, hsoftware, List.filterMap_cons, List.filter_cons]
        cases hpurl : packagePurl lower context pkg with
        | none =>
            have hentry : sbomEntry lower context pkg = none := by rw [sbomEntry, hpurl]; rfl
            rw [hentry]
            simp only [decide_true, if_true, List.length_cons]
            congr 1
            omega
        | some purl =>
            have hentry : sbomEntry lower context pkg =
                some (refOf purl pkg.name, packageComponent pkg purl) := by
              rw [sbomEntry, hpurl]
              rfl
            rw [hentry]
            simp only [reduceCtorEq, decide_false, Bool.false_eq_true, if_false, List.foldl_cons]
            rfl

/-- What is known of a package's entry. -/
theorem sbomEntry_eq_some_iff {pkg : Listed} {entry : String × Component} :
    sbomEntry lower context pkg = some entry ↔
      ∃ purl, packagePurl lower context pkg = some purl ∧
        entry = (refOf purl pkg.name, packageComponent pkg purl) := by
  rw [sbomEntry, Option.map_eq_some_iff]
  simp only [eq_comm]

/-- A package has a purl exactly if it has an identity. -/
theorem packagePurl_eq_none_iff (pkg : Listed) :
    packagePurl lower context pkg = none ↔ identity lower context pkg = none := by
  have hsame := @packageRef_eq lower context pkg
  constructor
  · intro hnone
    rw [hnone, Option.map_none] at hsame
    exact Option.map_eq_none_iff.mp hsame.symm
  · intro hnone
    rw [hnone, Option.map_none] at hsame
    exact Option.map_eq_none_iff.mp hsame

/-- The identities of an inventory. -/
def identities (pkgs : List Listed) : List Identity :=
  ((software pkgs).filterMap (identity lower context)).dedup

/-- The component of the first package of an identity. -/
def firstComponent (pkgs : List Listed) (id : Identity) : Option Component :=
  ((software pkgs).find? fun pkg => identity lower context pkg = some id).bind fun pkg =>
    (packagePurl lower context pkg).map (packageComponent pkg)

/-- The text of a reference. -/
def Identity.refText (id : Identity) : String := String.ofList (id.ref lower context)

theorem mem_identities {pkgs : List Listed} {id : Identity} :
    id ∈ identities lower context pkgs ↔
      ∃ pkg ∈ software pkgs, identity lower context pkg = some id := by
  rw [identities, List.mem_dedup, List.mem_filterMap]

theorem known_of_mem_identities {pkgs : List Listed} {id : Identity}
    (hid : id ∈ identities lower context pkgs) : id.Known := by
  obtain ⟨pkg, -, hidentity⟩ := (mem_identities lower context).mp hid
  exact known_identity hidentity

/-- The reference of a package is that of its identity. -/
theorem ref_eq_refText_iff {pkg : Listed} {purl : String} {id : Identity} (hknown : id.Known)
    (hpurl : packagePurl lower context pkg = some purl) :
    refOf purl pkg.name = id.refText lower context ↔ identity lower context pkg = some id := by
  have hsame := @packageRef_eq lower context pkg
  rw [hpurl, Option.map_some] at hsame
  obtain ⟨own, hown, href⟩ := Option.map_eq_some_iff.mp hsame.symm
  rw [hown, Option.some_inj, ← String.toList_inj, Identity.refText, String.toList_ofList, ← href]
  constructor
  · exact Identity.ref_inj (known_identity hown) hknown
  · rintro rfl
    rfl

theorem find_filterMap {α κ ν : Type*} [DecidableEq κ] (f : α → Option (κ × ν)) (key : κ)
    (xs : List α) :
    find key (xs.filterMap f) =
      (xs.find? fun x => (f x).any fun entry => entry.1 = key).bind fun x =>
        (f x).map Prod.snd := by
  induction xs with
  | nil => rfl
  | cons x xs ih =>
      rw [List.filterMap_cons, List.find?_cons]
      cases hx : f x with
      | none => exact ih
      | some entry =>
          rw [find, Option.any_some]
          by_cases hkey : entry.1 = key
          · rw [if_pos hkey, decide_eq_true hkey, Option.bind_some, hx]
            rfl
          · rw [if_neg hkey, decide_eq_false hkey]
            exact ih

section Loop

variable (pkgs : List Listed)

/-- `components`. -/
def sbomComponents : Dict String Component :=
  Dict.ofFirst ((software pkgs).filterMap (sbomEntry lower context))

theorem get?_sbomComponents {id : Identity} (hknown : id.Known) :
    (sbomComponents lower context pkgs).get? (id.refText lower context) =
      firstComponent lower context pkgs id := by
  have hpredicate : (fun pkg => (sbomEntry lower context pkg).any fun entry =>
      entry.1 = id.refText lower context) =
        fun pkg => decide (identity lower context pkg = some id) := by
    funext pkg
    rw [sbomEntry]
    cases hpurl : packagePurl lower context pkg with
    | none =>
        have hnone := (packagePurl_eq_none_iff lower context pkg).mp hpurl
        rw [hnone]
        rfl
    | some purl =>
        rw [Option.map_some, Option.any_some]
        exact decide_eq_decide.mpr (ref_eq_refText_iff lower context hknown hpurl)
  rw [sbomComponents, Dict.get?_ofFirst, find_filterMap, firstComponent, hpredicate]
  congr 1
  funext pkg
  rw [sbomEntry, Option.map_map]
  rfl

theorem mem_entries_of_mem_sbomComponents {entry : String × Component}
    (hentry : entry ∈ (sbomComponents lower context pkgs).entries) :
    ∃ pkg ∈ software pkgs, sbomEntry lower context pkg = some entry := by
  have hget := (Dict.mem_entries_iff _).mp hentry
  rw [sbomComponents, Dict.get?_ofFirst] at hget
  exact List.mem_filterMap.mp (mem_of_find_eq_some hget)

theorem mem_keys_sbomComponents {ref : String} :
    ref ∈ (sbomComponents lower context pkgs).keys ↔
      ref ∈ (identities lower context pkgs).map (Identity.refText lower context) := by
  rw [List.mem_map]
  constructor
  · intro hmem
    obtain ⟨entry, hentry, rfl⟩ := List.mem_map.mp hmem
    obtain ⟨pkg, hpkg, hsome⟩ := mem_entries_of_mem_sbomComponents lower context pkgs hentry
    obtain ⟨purl, hpurl, rfl⟩ := (sbomEntry_eq_some_iff lower context).mp hsome
    have hidentity : (identity lower context pkg).isSome := by
      rw [Option.isSome_iff_ne_none, ne_eq, ← packagePurl_eq_none_iff, hpurl]
      rintro ⟨⟩
    obtain ⟨id, hid⟩ := Option.isSome_iff_exists.mp hidentity
    exact ⟨id, (mem_identities lower context).mpr ⟨pkg, hpkg, hid⟩,
      ((ref_eq_refText_iff lower context (known_identity hid) hpurl).mpr hid).symm⟩
  · rintro ⟨id, hid, rfl⟩
    have hknown := known_of_mem_identities lower context hid
    obtain ⟨pkg, hpkg, hidentity⟩ := (mem_identities lower context).mp hid
    rw [Dict.mem_keys_iff, get?_sbomComponents lower context pkgs hknown, firstComponent]
    have hfound : ((software pkgs).find? fun pkg => identity lower context pkg = some id).isSome :=
      List.find?_isSome.mpr ⟨pkg, hpkg, by simpa using hidentity⟩
    obtain ⟨first, hfirst⟩ := Option.isSome_iff_exists.mp hfound
    have hfirstId := List.find?_some hfirst
    rw [hfirst, Option.bind_some, Option.isSome_map, Option.isSome_iff_ne_none, ne_eq,
      packagePurl_eq_none_iff, of_decide_eq_true hfirstId]
    rintro ⟨⟩

theorem keys_sbomComponents_perm : (sbomComponents lower context pkgs).keys.Perm
    ((identities lower context pkgs).map (Identity.refText lower context)) := by
  refine (List.perm_ext_iff_of_nodup (sbomComponents lower context pkgs).nodup ?_).mpr fun ref =>
    mem_keys_sbomComponents lower context pkgs
  refine List.Nodup.map_on ?_ (List.nodup_dedup _)
  intro one hone other hother hsame
  exact Identity.ref_inj (known_of_mem_identities lower context hone)
    (known_of_mem_identities lower context hother) (String.ofList_inj.mp hsame)

theorem bomRef_of_mem {entry : String × Component}
    (hentry : entry ∈ (sbomComponents lower context pkgs).entries) : entry.2.bomRef = entry.1 := by
  obtain ⟨pkg, -, hsome⟩ := mem_entries_of_mem_sbomComponents lower context pkgs hentry
  obtain ⟨purl, -, rfl⟩ := (sbomEntry_eq_some_iff lower context).mp hsome
  rfl

/-- The values of a dictionary are found under its keys. -/
theorem values_eq_filterMap {κ ν : Type*} [DecidableEq κ] (d : Dict κ ν) :
    d.values = d.keys.filterMap d.get? := by
  rw [Dict.keys, List.filterMap_map, Dict.values, ← List.filterMap_eq_map]
  refine List.filterMap_congr fun entry hentry => ?_
  exact ((Dict.mem_entries_iff d).mp hentry).symm

theorem values_sbomComponents_perm : (sbomComponents lower context pkgs).values.Perm
    ((identities lower context pkgs).filterMap (firstComponent lower context pkgs)) := by
  have hlookup : ((identities lower context pkgs).map (Identity.refText lower context)).filterMap
      (sbomComponents lower context pkgs).get? =
      (identities lower context pkgs).filterMap (firstComponent lower context pkgs) := by
    rw [List.filterMap_map]
    exact List.filterMap_congr fun id hid =>
      get?_sbomComponents lower context pkgs (known_of_mem_identities lower context hid)
  rw [values_eq_filterMap, ← hlookup]
  exact (keys_sbomComponents_perm lower context pkgs).filterMap _

/-- `ordered`. -/
def sbomPackages : List Component :=
  (sortedBy Prod.fst (sbomComponents lower context pkgs).entries).map Prod.snd

theorem map_bomRef_sbomPackages : (sbomPackages lower context pkgs).map Component.bomRef =
    (sortedBy Prod.fst (sbomComponents lower context pkgs).entries).map Prod.fst := by
  rw [sbomPackages, List.map_map]
  exact List.map_congr_left fun entry hentry =>
    bomRef_of_mem lower context pkgs (mem_sortedBy.mp hentry)

theorem sbomPackages_perm : (sbomPackages lower context pkgs).Perm
    ((identities lower context pkgs).filterMap (firstComponent lower context pkgs)) :=
  ((sortedBy_perm _ _).map Prod.snd).trans (values_sbomComponents_perm lower context pkgs)

theorem pairwise_sbomPackages :
    (sbomPackages lower context pkgs).Pairwise fun one other => one.bomRef ≤ other.bomRef := by
  rw [← List.pairwise_map, map_bomRef_sbomPackages, List.pairwise_map]
  exact pairwise_sortedBy _ _

theorem length_sbomComponents : (sbomComponents lower context pkgs).entries.length =
    (identities lower context pkgs).length := by
  have hlength := (keys_sbomComponents_perm lower context pkgs).length_eq
  rwa [List.length_map, Dict.keys, List.length_map] at hlength

/-- A reference of a package begins as a purl does. -/
theorem startsWith_pkg_of_mem {ref : String}
    (href : ref ∈ (sbomPackages lower context pkgs).map Component.bomRef) :
    startsWith "p" ref = true := by
  rw [map_bomRef_sbomPackages] at href
  have hkey : ref ∈ (sbomComponents lower context pkgs).keys :=
    ((sortedBy_perm _ _).map Prod.fst).mem_iff.mp href
  obtain ⟨id, -, rfl⟩ := List.mem_map.mp ((mem_keys_sbomComponents lower context pkgs).mp hkey)
  rw [startsWith, Identity.refText, @String.toList_ofList (id.ref lower context),
    List.isPrefixOf_iff_prefix]
  have hstart : ∀ first rest : List Char, "p".toList <+: first → "p".toList <+: first ++ rest :=
    fun first rest hfirst => hfirst.trans (List.prefix_append _ _)
  cases id with
  | recipe built name =>
      rw [Identity.ref, recipePurl, String.append_assoc, String.append_assoc, String.toList_append,
        List.append_assoc]
      exact hstart "pkg:yocto/".toList _ (by decide)
  | plain name version =>
      rw [Identity.ref, opkgStart, String.toList_append, List.append_assoc]
      exact hstart "pkg:generic/".toList _ (by decide)
  | typed ptype name version arch epoch =>
      rw [Identity.ref]
      exact hstart "pkg:".toList _ (by decide)

/-- No two packages have one reference, nor does the host or its system share one. -/
theorem nodup_bomRefs (facts : HostFacts) :
    (("host/" ++ (present facts.hostname).getD "unknown") ::
      (osComponent context facts).bomRef ::
        (sbomPackages lower context pkgs).map Component.bomRef).Nodup := by
  have hpackages : ((sbomPackages lower context pkgs).map Component.bomRef).Nodup := by
    rw [map_bomRef_sbomPackages]
    exact ((sortedBy_perm _ _).map Prod.fst).nodup_iff.mpr
      (sbomComponents lower context pkgs).nodup
  have hapart : ∀ first rest, startsWith "p" (first ++ rest) = false →
      first ++ rest ∉ (sbomPackages lower context pkgs).map Component.bomRef := by
    intro first rest hfirst hmem
    rw [startsWith_pkg_of_mem lower context pkgs hmem] at hfirst
    cases hfirst
  refine List.nodup_cons.mpr ⟨?_, List.nodup_cons.mpr ⟨?_, hpackages⟩⟩
  · rw [List.mem_cons, not_or]
    refine ⟨?_, hapart _ _ ?_⟩
    · intro hsame
      have hchars := congrArg String.toList hsame
      rw [osComponent, String.toList_append, String.toList_append] at hchars
      exact absurd (List.cons.inj hchars).1 (by decide)
    · rw [startsWith, String.toList_append]
      rfl
  · refine hapart _ _ ?_
    rw [startsWith, String.toList_append]
    rfl

end Loop

/-- What `build_sbom` returns. -/
theorem buildSbom_eq (host : PackageHost) (facts : HostFacts) :
    let pkgs := installedPackages host context.osRelease.family
    buildSbom lower context host facts =
      { hostRef := "host/" ++ (present facts.hostname).getD "unknown"
        components := osComponent context facts :: sbomPackages lower context pkgs
        dependsOn := (osComponent context facts).bomRef ::
          (sbomPackages lower context pkgs).map Component.bomRef
        packageCount := (sbomComponents lower context pkgs).entries.length
        withoutPurl := ((software pkgs).filter fun pkg =>
          identity lower context pkg = none).length } := by
  intro pkgs
  have hstate : pkgs.foldl (sbomTurn lower context) {} =
      { components := sbomComponents lower context pkgs
        noPurl := ((software pkgs).filter fun pkg =>
          identity lower context pkg = none).length } := by
    rw [foldl_sbomTurn_eq]
    simp only [packagePurl_eq_none_iff, Nat.zero_add]
    rfl
  rw [buildSbom, hstate]
  rfl

/-- **`build_sbom` has one component for each distinct package, that of the first one, in the order
of the references; no reference is used twice, and the host depends on each.** -/
theorem buildSbom_complete (host : PackageHost) (facts : HostFacts) :
    let sbom := buildSbom lower context host facts
    let pkgs := installedPackages host context.osRelease.family
    (∃ packages, sbom.components = osComponent context facts :: packages ∧
      packages.Perm ((identities lower context pkgs).filterMap
        (firstComponent lower context pkgs)) ∧
      packages.Pairwise fun one other => one.bomRef ≤ other.bomRef) ∧
    (sbom.hostRef :: sbom.components.map Component.bomRef).Nodup ∧
    sbom.dependsOn = sbom.components.map Component.bomRef ∧
    sbom.components.length = (identities lower context pkgs).length + 1 ∧
    sbom.packageCount = (identities lower context pkgs).length ∧
    sbom.withoutPurl =
      ((software pkgs).filter fun pkg => identity lower context pkg = none).length := by
  intro sbom pkgs
  rw [show sbom = buildSbom lower context host facts from rfl, buildSbom_eq]
  refine ⟨⟨_, rfl, sbomPackages_perm lower context pkgs, pairwise_sbomPackages lower context pkgs⟩,
    nodup_bomRefs lower context pkgs facts, rfl, ?_, length_sbomComponents lower context pkgs, rfl⟩
  rw [List.length_cons, sbomPackages, List.length_map, (sortedBy_perm _ _).length_eq,
    length_sbomComponents]

end Complete

end PqcReadiness.Bom
