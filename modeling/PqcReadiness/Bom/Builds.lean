import PqcReadiness.Bom.Index

/-!
# What a purl of an rpm package tells

The purl of an installed rpm package tells its name and version, its release, epoch and architecture
(`typedPurl_inj`), or the recipe that it was built from.  Two packages of one name and version have
one purl exactly if they are of one build (`packagePurl_eq_iff`).
-/

namespace PqcReadiness.Bom

open PqcReadiness.Lib PqcReadiness.Packages

variable {lower : String → String} {context : Context} {vendor : String}

theorem append_cons_inj {c : Char} {xs ys rest rest' : List Char} (hxs : c ∉ xs) (hys : c ∉ ys)
    (happend : xs ++ c :: rest = ys ++ c :: rest') : xs = ys ∧ rest = rest' := by
  induction xs generalizing ys with
  | nil =>
      cases ys with
      | nil => exact ⟨rfl, (List.cons.inj happend).2⟩
      | cons y ys => exact absurd ((List.cons.inj happend).1 ▸ List.mem_cons_self) hys
  | cons x xs ih =>
      cases ys with
      | nil => exact absurd ((List.cons.inj happend).1 ▸ List.mem_cons_self) hxs
      | cons y ys =>
          obtain ⟨rfl, htail⟩ := List.cons.inj happend
          obtain ⟨rfl, hrest⟩ := ih (fun hmem => hxs (List.mem_cons_of_mem _ hmem))
            (fun hmem => hys (List.mem_cons_of_mem _ hmem)) htail
          exact ⟨rfl, hrest⟩

theorem yoctoPurl_of_none {pkg : Listed} (hrecipe : pkg.sourcerpm = none) :
    yoctoPurl pkg = none := by
  unfold yoctoPurl
  rw [hrecipe]
  decide +kernel

/-! ## The qualifiers -/

section Qualifiers

/-- The epoch that a purl tells. -/
def epochOf (pkg : Package) : Option String :=
  pkg.epoch.filter fun epoch => epoch ≠ "" ∧ epoch ≠ "0"

/-- The text of the qualifiers. -/
def qualifierText (context : Context) (vendor : String) (pkg : Listed) : String :=
  join "&" ((sortedBy Prod.fst (qualifiers context pkg vendor)).map
    fun (key, value) => key ++ "=" ++ purlEncode value)

/-- The qualifier of the distribution, without its first letter. -/
def distroText (context : Context) (vendor : String) : String :=
  "istro=" ++ purlEncode (rstripChar '-' (vendor ++ "-" ++ context.distroVersion.getD ""))

/-- The qualifier of an architecture, in front of that of the distribution. -/
def archChars (arch : Option String) : List Char :=
  arch.elim [] fun arch => 'a' :: ("rch=".toList ++ ((purlEncode arch).toList ++ ['&']))

/-- The qualifier of an epoch, behind that of the distribution. -/
def epochChars (epoch : Option String) : List Char :=
  epoch.elim [] fun epoch => '&' :: ("epoch=".toList ++ (purlEncode epoch).toList)

theorem toList_qualifierText (pkg : Listed) : (qualifierText context vendor pkg).toList =
    archChars (present pkg.arch) ++
      ('d' :: (distroText context vendor).toList ++ epochChars (epochOf pkg.toPackage)) := by
  unfold qualifierText qualifiers epochOf distroText archChars epochChars
  cases present pkg.arch with
  | none =>
      cases pkg.epoch.filter fun epoch => epoch ≠ "" ∧ epoch ≠ "0" with
      | none => simp [sortedBy, join]
      | some epoch => simp [sortedBy, join]
  | some arch =>
      cases pkg.epoch.filter fun epoch => epoch ≠ "" ∧ epoch ≠ "0" with
      | none => simp [sortedBy, join]
      | some epoch => simp [sortedBy, join]

theorem purlEncode_injective : Function.Injective purlEncode :=
  percentEncode_injective keepsAscii_isPurlByte

theorem epochChars_injective : Function.Injective epochChars := by
  intro epoch epoch' hsame
  cases epoch with
  | none =>
      cases epoch' with
      | none => rfl
      | some epoch' => cases hsame
  | some epoch =>
      cases epoch' with
      | none => cases hsame
      | some epoch' =>
          have hchars := List.append_cancel_left (List.cons.inj hsame).2
          rw [purlEncode_injective (String.toList_inj.mp hchars)]

/-- The qualifiers tell the architecture and the epoch. -/
theorem qualifierText_inj {pkg other : Listed}
    (hsame : qualifierText context vendor pkg = qualifierText context vendor other) :
    present pkg.arch = present other.arch ∧ epochOf pkg.toPackage = epochOf other.toPackage := by
  have hlists := congrArg String.toList hsame
  rw [toList_qualifierText, toList_qualifierText] at hlists
  cases harch : present pkg.arch with
  | none =>
      cases harch' : present other.arch with
      | none =>
          rw [harch, harch'] at hlists
          exact ⟨rfl, epochChars_injective (List.append_cancel_left hlists)⟩
      | some arch' =>
          rw [harch, harch'] at hlists
          exact absurd (List.cons.inj hlists).1 (by decide)
  | some arch =>
      cases harch' : present other.arch with
      | none =>
          rw [harch, harch'] at hlists
          exact absurd (List.cons.inj hlists).1 (by decide)
      | some arch' =>
          rw [harch, harch'] at hlists
          simp only [archChars, Option.elim_some, List.cons_append, List.append_assoc] at hlists
          obtain ⟨hname, hrest⟩ := append_cons_inj (fun hc => (mem_purlEncode hc).2.2.2.2 rfl)
            (fun hc => (mem_purlEncode hc).2.2.2.2 rfl)
            (List.append_cancel_left (List.cons.inj hlists).2)
          rw [purlEncode_injective (String.toList_inj.mp hname)]
          exact ⟨rfl, epochChars_injective (List.append_cancel_left (List.cons.inj hrest).2)⟩

end Qualifiers

/-! ## Purls -/

section Purls

variable {pkg other : Listed}

theorem toList_typedPurl (pkg : Listed) : (typedPurl lower context "rpm" vendor pkg).toList =
    "pkg:rpm/".toList ++ ((purlEncode (lower vendor)).toList ++ ('/' ::
      ((purlEncode pkg.name).toList ++ ('@' ::
        ((purlEncode (fullVersion pkg.version pkg.release)).toList ++ ('?' ::
          (qualifierText context vendor pkg).toList)))))) := by
  unfold typedPurl qualifierText
  simp

/-- A typed purl tells the name and the version of its package, and the qualifiers. -/
theorem typedPurl_inj (hsame : typedPurl lower context "rpm" vendor pkg =
      typedPurl lower context "rpm" vendor other) :
    pkg.key = other.key ∧
      qualifierText context vendor pkg = qualifierText context vendor other := by
  have hlists := congrArg String.toList hsame
  rw [toList_typedPurl, toList_typedPurl] at hlists
  have hname := (List.cons.inj (List.append_cancel_left (List.append_cancel_left hlists))).2
  obtain ⟨hname, hfull⟩ := append_cons_inj (fun hc => (mem_purlEncode hc).2.1 rfl)
    (fun hc => (mem_purlEncode hc).2.1 rfl) hname
  obtain ⟨hfull, hquals⟩ := append_cons_inj (fun hc => (mem_purlEncode hc).2.2.2.1 rfl)
    (fun hc => (mem_purlEncode hc).2.2.2.1 rfl) hfull
  refine ⟨Prod.ext ?_ ?_, String.toList_inj.mp hquals⟩
  · exact purlEncode_injective (String.toList_inj.mp hname)
  · exact purlEncode_injective (String.toList_inj.mp hfull)

/-- The recipe that a package is built from, where a purl tells it. -/
def recipe (context : Context) (pkg : Package) : Option (String × String) :=
  if context.isYocto then srpmOf (pkg.sourcerpm.getD "") else none

/-- Two packages, of one name and version, are of one build. -/
def SameBuild (context : Context) (pkg other : Package) : Prop :=
  recipe context pkg = recipe context other ∧
    (recipe context pkg = none → present pkg.release = present other.release ∧
      present pkg.arch = present other.arch ∧ epochOf pkg = epochOf other)

instance (context : Context) (pkg other : Package) : Decidable (SameBuild context pkg other) :=
  inferInstanceAs (Decidable (_ ∧ (_ → _)))

/-- The purl of a recipe. -/
def recipePurl (recipe : String × String) : String :=
  "pkg:yocto/" ++ purlEncode recipe.1 ++ "@" ++ purlEncode recipe.2

theorem recipePurl_injective : Function.Injective recipePurl := by
  rintro ⟨name, version⟩ ⟨name', version'⟩ hsame
  have hlists := congrArg String.toList hsame
  simp only [recipePurl, String.toList_append, List.append_assoc] at hlists
  obtain ⟨hname, hversion⟩ := append_cons_inj (fun hc => (mem_purlEncode hc).2.1 rfl)
    (fun hc => (mem_purlEncode hc).2.1 rfl) (List.append_cancel_left hlists)
  exact Prod.ext (purlEncode_injective (String.toList_inj.mp hname))
    (purlEncode_injective (String.toList_inj.mp hversion))

/-- The purl of a recipe has a type of its own. -/
theorem recipePurl_ne_typedPurl (recipe : String × String) :
    recipePurl recipe ≠ typedPurl lower context "rpm" vendor pkg := by
  intro hsame
  have hlists := congrArg String.toList hsame
  rw [toList_typedPurl] at hlists
  simp [recipePurl] at hlists

theorem packagePurl_rpm (hvendor : context.vendor = some vendor) (hdb : pkg.db = some .rpm)
    (hname : pkg.name ≠ "") (hversion : pkg.version ≠ "") : packagePurl lower context pkg =
      some (((recipe context pkg.toPackage).map recipePurl).getD
        (typedPurl lower context "rpm" vendor pkg)) := by
  have hyocto : (if context.isYocto then yoctoPurl pkg else none) =
      (recipe context pkg.toPackage).map recipePurl := by
    unfold recipe
    split
    · rfl
    · rfl
  unfold packagePurl
  rw [hdb, hvendor]
  simp only [Option.or, if_neg (not_or.mpr ⟨hname, hversion⟩), true_and, hyocto]
  cases (recipe context pkg.toPackage).map recipePurl <;> rfl

/-- Without a vendor, an rpm package has no purl. -/
theorem packagePurl_rpm_none (hvendor : context.vendor = none) (hdb : pkg.db = some .rpm) :
    packagePurl lower context pkg = none := by
  have hyocto : context.isYocto = false := by
    unfold Context.vendor at hvendor
    obtain ⟨hid, hdistro⟩ := Option.or_eq_none_iff.mp hvendor
    unfold Context.isYocto
    rw [hid, hdistro]
    rfl
  unfold packagePurl
  rw [hdb, hvendor, hyocto]
  dsimp only [Option.or]
  split <;> rfl

/-- A package with the purl that is built from a name and a version has these. -/
theorem key_of_packagePurl (hvendor : context.vendor = some vendor) (hdb : pkg.db = some .rpm)
    (hpurl : packagePurl lower context pkg = some (typedPurl lower context "rpm" vendor other)) :
    pkg.key = other.key := by
  have hempty : pkg.name ≠ "" ∧ pkg.version ≠ "" := by
    rw [← not_or]
    intro hempty
    unfold packagePurl at hpurl
    rw [hdb] at hpurl
    simp only [Option.or, if_pos hempty, reduceCtorEq] at hpurl
  rw [packagePurl_rpm hvendor hdb hempty.1 hempty.2] at hpurl
  cases hrecipe : recipe context pkg.toPackage with
  | none =>
      rw [hrecipe] at hpurl
      exact (typedPurl_inj (Option.some.inj hpurl)).1
  | some built =>
      rw [hrecipe] at hpurl
      exact absurd (Option.some.inj hpurl) (recipePurl_ne_typedPurl built)

theorem fullVersion_inj {version : String} {release release' : Option String}
    (hsame : fullVersion version release = fullVersion version release') :
    present release = present release' := by
  have hlong : ∀ release : String, version ≠ version ++ "-" ++ release := by
    intro release hsame
    have hlength := congrArg String.length hsame
    simp only [String.length_append] at hlength
    have hdash : "-".length = 1 := rfl
    omega
  unfold fullVersion at hsame
  cases hrelease : present release with
  | none =>
      cases hrelease' : present release' with
      | none => rfl
      | some text =>
          rw [hrelease, hrelease'] at hsame
          exact absurd hsame (hlong text)
  | some text =>
      cases hrelease' : present release' with
      | none =>
          rw [hrelease, hrelease'] at hsame
          exact absurd hsame.symm (hlong text)
      | some text' =>
          rw [hrelease, hrelease'] at hsame
          rw [(String.append_right_inj _).mp hsame]

/-- A package of a probed rpm database. -/
def rpmOf (pkg : Package) : Listed := { toPackage := pkg, db := some .rpm }

/-- Packages of one name and version have one purl exactly if they are of one build. -/
theorem packagePurl_eq_iff {pkg other : Package} (hvendor : context.vendor = some vendor)
    (hname : pkg.name ≠ "") (hversion : pkg.version ≠ "") (hname' : other.name = pkg.name)
    (hversion' : other.version = pkg.version) :
    packagePurl lower context (rpmOf pkg) = packagePurl lower context (rpmOf other) ↔
      SameBuild context pkg other := by
  rw [packagePurl_rpm hvendor rfl hname hversion,
    packagePurl_rpm hvendor rfl (hname'.trans_ne hname) (hversion'.trans_ne hversion),
    Option.some_inj, rpmOf, rpmOf]
  unfold SameBuild
  cases hrecipe : recipe context pkg with
  | none =>
      cases hrecipe' : recipe context other with
      | none =>
          dsimp only [Option.map_none, Option.getD_none]
          constructor
          · intro htyped
            obtain ⟨hkey, hquals⟩ := typedPurl_inj htyped
            have hfull : fullVersion pkg.version pkg.release =
                fullVersion other.version other.release := congrArg Prod.snd hkey
            rw [hversion'] at hfull
            exact ⟨rfl, fun _ => ⟨fullVersion_inj hfull, qualifierText_inj hquals⟩⟩
          · rintro ⟨-, hbuild⟩
            obtain ⟨hrelease, harch, hepoch⟩ := hbuild rfl
            have hfull : fullVersion pkg.version pkg.release =
                fullVersion other.version other.release := by
              unfold fullVersion
              rw [hrelease, hversion']
            rw [← String.toList_inj, toList_typedPurl, toList_typedPurl, hname', hfull,
              toList_qualifierText, toList_qualifierText, harch, hepoch]
      | some built' =>
          refine ⟨fun hpurl => absurd hpurl.symm (recipePurl_ne_typedPurl built'), ?_⟩
          rintro ⟨hnone, -⟩
          cases hnone
  | some built =>
      cases hrecipe' : recipe context other with
      | none =>
          refine ⟨fun hpurl => absurd hpurl (recipePurl_ne_typedPurl built), ?_⟩
          rintro ⟨hnone, -⟩
          cases hnone
      | some built' =>
          dsimp only [Option.map_some, Option.getD_some]
          rw [recipePurl_injective.eq_iff, Option.some_inj]
          exact ⟨fun hsame => ⟨hsame, nofun⟩, And.left⟩

end Purls

end PqcReadiness.Bom
