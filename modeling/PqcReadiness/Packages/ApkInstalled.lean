import PqcReadiness.Packages.DpkgStatus

/-!
# The installed database of apk, read twice

`parse_apk_installed` keeps the last name and the last version of a record, without white space
around them; `_apk_versions` keeps the last of each that is not empty, as it stands.  Both split a
record at every break of `str.splitlines`.  `agree_iff` says of which records the two report the
same.

`readers_iff` is the result about both kinds of database.
-/

namespace PqcReadiness.Packages

open PqcReadiness.Lib

/-! ## The readers -/

/-- A line of a record as `parse_apk_installed` reads it: the name and the version so far. -/
def apkStep (fields : List Char × List Char) (line : List Char) : List Char × List Char :=
  if ['P', ':'].isPrefixOf line then (stripChars (line.drop 2), fields.2)
  else if ['V', ':'].isPrefixOf line then (fields.1, stripChars (line.drop 2))
  else fields

/-- A record as `parse_apk_installed` reads it. -/
def apkPackage (record : List Char) : Option PackageVersion :=
  let fields := (splitLinesChars record).foldl apkStep ([], [])
  if fields.1 ≠ [] ∧ fields.2 ≠ [] then some ⟨fields.1, fields.2⟩ else none

/-- `parse_apk_installed`. -/
def parseApkInstalled (text : List Char) : List PackageVersion :=
  (splitMatches blankLines 0 text).filterMap apkPackage

/-- A line of a record as `_apk_versions` reads it. -/
def apkField (text : List Char) : Option (Char × List Char) :=
  if 2 < text.length ∧ text[1]? = some ':' then text.head?.map fun letter => (letter, text.drop 2)
  else none

/-- A record as `_apk_versions` reads it. -/
def probedApk (names : List (List Char)) (record : List Char) : Option PackageVersion :=
  let fields := Dict.ofLast ((splitLinesChars record).filterMap apkField)
  match fields.get? 'P' with
  | none => none
  | some name => if name ∈ names then some ⟨name, (fields.get? 'V').getD []⟩ else none

/-- `_apk_versions`, of a database that can be read. -/
def apkVersions (names : List (List Char)) (text : List Char) : List PackageVersion :=
  (splitMatches emptyLine 0 text).filterMap (probedApk names)

/-! ## The database -/

/-- A record: fields of one letter, one of them the name and one the version. -/
structure ApkRecord where
  fields : List (Char × List Char)
  letter : ∀ field ∈ fields, isSpace field.1 = false
  value_line : ∀ field ∈ fields, '\n' ∉ field.2
  one_name : (fields.filter fun field => field.1 = 'P').length = 1
  one_version : (fields.filter fun field => field.1 = 'V').length = 1

namespace ApkRecord

variable (record : ApkRecord)

def lines : List (List Char) := record.fields.map fun field => field.1 :: ':' :: field.2

def text : List Char := ['\n'].intercalate record.lines

end ApkRecord

/-- The text of a database. -/
def apkText (db : List ApkRecord) (ending : List Char) : List Char :=
  stanzasText (db.map ApkRecord.lines) ending

/-- The two readers report the same packages of some names. -/
def Agree (db : List ApkRecord) : Prop :=
  ∀ ending ∈ stanzaEndings, ∀ names, apkVersions names (apkText db ending) =
    (parseApkInstalled (apkText db ending)).filter fun package => package.name ∈ names

/-- What stands behind a letter in a line. -/
def apkValue (letter : Char) (line : List Char) : Option (List Char) :=
  if [letter, ':'].isPrefixOf line then some (line.drop 2) else none

/-- What stands behind a letter in the lines of a text, in the sense of `str.splitlines`. -/
def apkValues (letter : Char) (text : List Char) : List (List Char) :=
  (splitLinesChars text).filterMap (apkValue letter)

/-- A text that is not empty, without white space around it. -/
def Trimmed (value : List Char) : Prop := value ≠ [] ∧ stripChars value = value

/-- The last name and the last version of the record are trimmed, or it has no name at all. -/
def ApkRecord.Plain (record : ApkRecord) : Prop :=
  (∃ name ∈ (apkValues 'P' record.text).getLast?, Trimmed name) ∧
      (∃ version ∈ (apkValues 'V' record.text).getLast?, Trimmed version) ∨
    ∀ name ∈ apkValues 'P' record.text, name = []

/-! ## What the readers find in a record -/

section Record

variable {text : List Char}

theorem foldl_apkStep (lines : List (List Char)) (fields : List Char × List Char) :
    lines.foldl apkStep fields =
      (((lines.filterMap (apkValue 'P')).getLast?.map stripChars).getD fields.1,
        ((lines.filterMap (apkValue 'V')).getLast?.map stripChars).getD fields.2) := by
  induction lines generalizing fields with
  | nil => rfl
  | cons line lines ih =>
      have hlast : ∀ (value : List Char) (values : List (List Char)) (old : List Char),
          ((value :: values).getLast?.map stripChars).getD old =
            (values.getLast?.map stripChars).getD (stripChars value) := by
        intro value values old
        rw [List.getLast?_cons]
        cases values.getLast? <;> rfl
      rw [List.foldl_cons, ih, List.filterMap_cons, List.filterMap_cons, apkStep, apkValue,
        apkValue]
      by_cases hname : ['P', ':'].isPrefixOf line
      · have hversion : ['V', ':'].isPrefixOf line = false := by
          cases line with
          | nil => rfl
          | cons c rest =>
              have hc : ('P' == c) = true := (Bool.and_eq_true_iff.mp hname).1
              obtain rfl := beq_iff_eq.mp hc
              rfl
        rw [if_pos hname, if_pos hname, if_neg (by simp [hversion]), hlast]
      · by_cases hversion : ['V', ':'].isPrefixOf line
        · rw [if_neg hname, if_pos hversion, if_neg hname, if_pos hversion, hlast]
        · rw [if_neg hname, if_neg hversion, if_neg hname, if_neg hversion]

theorem apkPackage_eq (text : List Char) :
    apkPackage text =
      if ((apkValues 'P' text).getLast?.map stripChars).getD [] ≠ [] ∧
          ((apkValues 'V' text).getLast?.map stripChars).getD [] ≠ [] then
        some ⟨((apkValues 'P' text).getLast?.map stripChars).getD [],
          ((apkValues 'V' text).getLast?.map stripChars).getD []⟩
      else none := by
  rw [apkPackage, foldl_apkStep]
  rfl

/-- A line of two characters says nothing to `_apk_versions`. -/
theorem find_apkField (letter : Char) (line : List Char) :
    find letter (apkField line).toList = (apkValue letter line).filter (· ≠ []) := by
  cases line with
  | nil => rfl
  | cons c line =>
      cases line with
      | nil => simp [apkField, apkValue, find]
      | cons d rest =>
          by_cases hd : d = ':'
          · subst hd
            by_cases hc : c = letter
            · subst hc
              cases rest <;> simp [apkField, apkValue, find, Option.filter_some]
            · cases rest <;> simp [apkField, apkValue, find, hc, Ne.symm hc]
          · simp [apkField, apkValue, find, hd, Ne.symm hd]

theorem find_apkFields (letter : Char) (text : List Char) :
    find letter ((splitLinesChars text).filterMap apkField).reverse =
      ((apkValues letter text).filter (· ≠ [])).getLast? := by
  rw [apkValues]
  induction splitLinesChars text with
  | nil => rfl
  | cons line lines ih =>
      have hcons : ∀ {β : Type} (f : List Char → Option β),
          (line :: lines).filterMap f = (f line).toList ++ lines.filterMap f := by
        intro β f
        rw [List.filterMap_cons]
        cases f line <;> rfl
      have hreverse : (apkField line).toList.reverse = (apkField line).toList := by
        cases apkField line <;> rfl
      rw [hcons, hcons, List.reverse_append, find_append, ih, hreverse, find_apkField,
        List.filter_append, List.getLast?_append]
      cases apkValue letter line with
      | none => rfl
      | some value =>
          rw [Option.toList_some, Option.filter_some, List.filter_cons, List.filter_nil]
          split <;> rfl

theorem probedApk_eq (names : List (List Char)) (text : List Char) :
    probedApk names text =
      match ((apkValues 'P' text).filter (· ≠ [])).getLast? with
      | none => none
      | some name =>
          if name ∈ names then
            some ⟨name, (((apkValues 'V' text).filter (· ≠ [])).getLast?).getD []⟩
          else none := by
  rw [probedApk]
  simp only [Dict.get?_ofLast, find_apkFields]

/-- The last value, if it is not empty. -/
theorem getLast?_filter {values : List (List Char)} {value : List Char}
    (hlast : values.getLast? = some value) (hne : value ≠ []) :
    (values.filter (· ≠ [])).getLast? = some value := by
  obtain ⟨init, rfl⟩ := List.getLast?_eq_some_iff.mp hlast
  rw [List.filter_append, List.filter_cons_of_pos (by simpa using hne), List.filter_nil,
    List.getLast?_append, List.getLast?_singleton]
  rfl

theorem trimmed_of_last {values : List (List Char)} {value : List Char} (hne : value ≠ [])
    (hstrip : (values.getLast?.map stripChars).getD [] = value)
    (hlast : ((values.filter (· ≠ [])).getLast?).getD [] = value) :
    ∃ last ∈ values.getLast?, Trimmed last := by
  cases hvalues : values.getLast? with
  | none =>
      rw [hvalues] at hstrip
      exact absurd hstrip.symm hne
  | some last =>
      rw [hvalues, Option.map_some, Option.getD_some] at hstrip
      have hne' : last ≠ [] := by
        rintro rfl
        exact hne hstrip.symm
      rw [getLast?_filter hvalues hne', Option.getD_some] at hlast
      exact ⟨last, rfl, hne', hstrip.trans hlast.symm⟩

/-- **The readers report the same of a record, whatever the names, if and only if it is plain.** -/
theorem probedApk_iff (text : List Char) :
    (∀ names, probedApk names text =
        (apkPackage text).filter fun package => package.name ∈ names) ↔
      (∃ name ∈ (apkValues 'P' text).getLast?, Trimmed name) ∧
          (∃ version ∈ (apkValues 'V' text).getLast?, Trimmed version) ∨
        ∀ name ∈ apkValues 'P' text, name = [] := by
  constructor
  · intro h
    cases hname : ((apkValues 'P' text).filter (· ≠ [])).getLast? with
    | none =>
        rw [List.getLast?_eq_none_iff, List.filter_eq_nil_iff] at hname
        exact .inr fun name hmem => by simpa using hname name hmem
    | some name =>
        have hread := h [name]
        rw [probedApk_eq, hname, apkPackage_eq] at hread
        simp only [List.mem_singleton, if_true] at hread
        split at hread
        · next hboth =>
            rw [Option.filter_some] at hread
            split at hread
            · obtain ⟨hfirst, hsecond⟩ := PackageVersion.mk.inj (Option.some.inj hread)
              refine .inl ⟨trimmed_of_last hboth.1 rfl ?_, trimmed_of_last hboth.2 rfl hsecond⟩
              rw [hname, Option.getD_some]
              exact hfirst
            · cases hread
        · cases hread
  · rintro (⟨⟨name, hname, hne, hstrip⟩, version, hversion, hne', hstrip'⟩ | hempty) names
    · rw [probedApk_eq, getLast?_filter hname hne, getLast?_filter hversion hne', apkPackage_eq,
        hname, hversion]
      simp only [Option.map_some, Option.getD_some, hstrip, hstrip', hne, hne', ne_eq,
        not_false_eq_true, and_self, if_true, Option.filter_some, decide_eq_true_eq]
    · have hnone : (apkValues 'P' text).filter (· ≠ []) = [] :=
        List.filter_eq_nil_iff.mpr fun name hmem => by simp [hempty name hmem]
      have hblank : ((apkValues 'P' text).getLast?.map stripChars).getD [] = [] := by
        cases hlast : (apkValues 'P' text).getLast? with
        | none => rfl
        | some name =>
            rw [hempty name (List.mem_of_getLast? hlast)]
            rfl
      rw [probedApk_eq, hnone, apkPackage_eq, if_neg fun h => h.1 hblank]
      rfl

end Record

/-! ## Databases -/

theorem apkValues_newline (letter : Char) (text : List Char) :
    apkValues letter (text ++ ['\n']) = apkValues letter text := by
  have happend := filterMap_splitLines_append (f := apkValue letter) rfl text []
  exact happend.trans (List.append_nil _)

theorem isStanza_record (record : ApkRecord) {Line : List Char → Prop}
    (hline : ∀ line : List Char, NonBlank line → Line line) :
    IsStanza Line record.lines where
  ne_nil := by
    have hone := record.one_name
    intro hnil
    rw [List.map_eq_nil_iff.mp hnil] at hone
    cases hone
  unbroken line hmem := by
    obtain ⟨field, hfield, rfl⟩ := List.mem_map.mp hmem
    rw [List.mem_cons, List.mem_cons]
    rintro (hletter | hcolon | hvalue)
    · exact absurd (record.letter field hfield) (by rw [← hletter]; decide)
    · exact absurd hcolon (by decide)
    · exact record.value_line field hfield hvalue
  line line hmem := by
    obtain ⟨field, hfield, rfl⟩ := List.mem_map.mp hmem
    exact hline _ ⟨field.1, List.mem_cons_self, record.letter field hfield⟩
  head line hhead := by
    obtain ⟨field, hfield, rfl⟩ := List.mem_map.mp (List.mem_of_head? hhead)
    exact ⟨field.1, _, rfl, record.letter field hfield⟩

theorem parseApkInstalled_eq (db : List ApkRecord) {ending : List Char}
    (hending : ending ∈ stanzaEndings) :
    parseApkInstalled (apkText db ending) = db.filterMap fun record => apkPackage record.text := by
  have hnewline : ∀ text, apkPackage (text ++ ['\n']) = apkPackage text := by
    intro text
    rw [apkPackage_eq, apkPackage_eq, apkValues_newline, apkValues_newline]
  rw [parseApkInstalled, apkText, filterMap_splitMatches stanzaBreak_blankLines rfl hnewline _
    hending, List.map_map, List.filterMap_map]
  · rfl
  · intro lines hlines
    obtain ⟨record, -, rfl⟩ := List.mem_map.mp hlines
    exact isStanza_record record fun _ h => h

theorem apkVersions_eq (names : List (List Char)) (db : List ApkRecord) {ending : List Char}
    (hending : ending ∈ stanzaEndings) :
    apkVersions names (apkText db ending) =
      db.filterMap fun record => probedApk names record.text := by
  have hnewline : ∀ text, probedApk names (text ++ ['\n']) = probedApk names text := by
    intro text
    rw [probedApk_eq, probedApk_eq, apkValues_newline, apkValues_newline]
  rw [apkVersions, apkText, filterMap_splitMatches stanzaBreak_emptyLine rfl hnewline _ hending,
    List.map_map, List.filterMap_map]
  · rfl
  · intro lines hlines
    obtain ⟨record, -, rfl⟩ := List.mem_map.mp hlines
    refine isStanza_record record ?_
    rintro line ⟨c, hc, -⟩
    exact List.ne_nil_of_mem hc

theorem length_filterMap_le {α β : Type} {f g : α → Option β} {xs : List α}
    (hdrops : ∀ x ∈ xs, f x = none → g x = none) :
    (xs.filterMap g).length ≤ (xs.filterMap f).length := by
  induction xs with
  | nil => exact le_rfl
  | cons x rest ih =>
      obtain ⟨hfirst, hrest⟩ := List.forall_mem_cons.mp hdrops
      cases hf : f x with
      | none =>
          rw [List.filterMap_cons_none hf, List.filterMap_cons_none (hfirst hf)]
          exact ih hrest
      | some first =>
          rw [List.filterMap_cons_some hf, List.length_cons]
          cases hg : g x with
          | none =>
              rw [List.filterMap_cons_none hg]
              exact (ih hrest).trans (Nat.le_succ _)
          | some second =>
              rw [List.filterMap_cons_some hg, List.length_cons]
              exact Nat.succ_le_succ (ih hrest)

/-- If what the first function drops the second drops too, they make the same of a list only if
they make the same of every member. -/
theorem forall_eq_of_filterMap_eq {α β : Type} {f g : α → Option β} {xs : List α}
    (hdrops : ∀ x ∈ xs, f x = none → g x = none)
    (heq : xs.filterMap f = xs.filterMap g) : ∀ x ∈ xs, f x = g x := by
  -- By induction on the list; a member that only one of them drops leaves that one too few.
  induction xs with
  | nil => nofun
  | cons x rest ih =>
      obtain ⟨hfirst, hothers⟩ := List.forall_mem_cons.mp hdrops
      rw [List.forall_mem_cons]
      cases hf : f x with
      | none =>
          have hg := hfirst hf
          rw [List.filterMap_cons_none hf, List.filterMap_cons_none hg] at heq
          exact ⟨hg.symm, ih hothers heq⟩
      | some first =>
          rw [List.filterMap_cons_some hf] at heq
          cases hg : g x with
          | none =>
              -- What is left is too short.
              rw [List.filterMap_cons_none hg] at heq
              have hlength := congrArg List.length heq
              have hshort := length_filterMap_le hothers
              rw [List.length_cons] at hlength
              omega
          | some second =>
              rw [List.filterMap_cons_some hg] at heq
              obtain ⟨rfl, hrest⟩ := List.cons.inj heq
              exact ⟨rfl, ih hothers hrest⟩

/-- The name of a record to `_apk_versions`. -/
def apkName (record : ApkRecord) : Option (List Char) :=
  ((apkValues 'P' record.text).filter (· ≠ [])).getLast?

theorem probedApk_of_name {record : ApkRecord} {name : List Char} (hname : apkName record = some name)
    (names : List (List Char)) : probedApk names record.text =
      if name ∈ names then
        some ⟨name, (((apkValues 'V' record.text).filter (· ≠ [])).getLast?).getD []⟩
      else none := by
  rw [apkName] at hname
  rw [probedApk_eq, hname]

theorem probedApk_of_no_name {record : ApkRecord} (hname : apkName record = none)
    (names : List (List Char)) : probedApk names record.text = none := by
  rw [apkName] at hname
  rw [probedApk_eq, hname]

/-- Without a name, neither reader reports a record. -/
theorem apkPackage_of_no_name {record : ApkRecord} (hname : apkName record = none) :
    apkPackage record.text = none := by
  rw [apkName, List.getLast?_eq_none_iff, List.filter_eq_nil_iff] at hname
  rw [apkPackage_eq, if_neg]
  rintro ⟨hblank, -⟩
  cases hlast : (apkValues 'P' record.text).getLast? with
  | none => exact hblank (by rw [hlast]; rfl)
  | some name =>
      have hempty : name = [] := by simpa using hname name (List.mem_of_getLast? hlast)
      exact hblank (by rw [hlast, hempty]; rfl)

/-- A record whose name is among the names is reported alike under all names if it is reported
alike under these. -/
theorem plain_of_names {record : ApkRecord} {names : List (List Char)}
    (hnames : ∀ name ∈ apkName record, name ∈ names)
    (hsame : probedApk names record.text = apkPackage record.text) : record.Plain := by
  refine (probedApk_iff record.text).mp fun others => ?_
  rw [← hsame]
  cases hname : apkName record with
  | none =>
      rw [probedApk_of_no_name hname, probedApk_of_no_name hname]
      rfl
  | some name =>
      rw [probedApk_of_name hname, probedApk_of_name hname, if_pos (hnames name hname),
        Option.filter_some]
      simp only [decide_eq_true_eq]

/-- The readers agree on a database if and only if its records are plain. -/
theorem agree_iff (db : List ApkRecord) : Agree db ↔ ∀ record ∈ db, record.Plain := by
  constructor
  · intro hagree
    -- All names that one of the readers may report.
    let names := db.filterMap apkName ++
      (db.filterMap fun record => apkPackage record.text).map PackageVersion.name
    have hread := hagree [] List.mem_cons_self names
    rw [apkVersions_eq _ _ List.mem_cons_self, parseApkInstalled_eq _ List.mem_cons_self,
      List.filter_eq_self.mpr fun package hpackage => by
        rw [decide_eq_true_eq]
        exact List.mem_append_right _ (List.mem_map_of_mem hpackage)] at hread
    have hnames : ∀ record ∈ db, ∀ name ∈ apkName record, name ∈ names :=
      fun record hrecord name hname =>
        List.mem_append_left _ (List.mem_filterMap.mpr ⟨record, hrecord, hname⟩)
    have hdrops : ∀ record ∈ db, probedApk names record.text = none →
        apkPackage record.text = none := by
      intro record hrecord hnone
      refine apkPackage_of_no_name ?_
      by_contra hsome
      obtain ⟨name, hname⟩ := Option.ne_none_iff_exists'.mp hsome
      rw [probedApk_of_name hname, if_pos (hnames record hrecord name hname)] at hnone
      cases hnone
    exact fun record hrecord => plain_of_names (hnames record hrecord)
      (forall_eq_of_filterMap_eq hdrops hread record hrecord)
  · intro hplain ending hending names
    rw [apkVersions_eq _ _ hending, parseApkInstalled_eq _ hending, List.filter_filterMap]
    exact List.filterMap_congr fun record hmem =>
      (probedApk_iff record.text).mpr (hplain record hmem) names

/-- **The readers of a dpkg database read it as it was written if and only if its texts are
harmless, and those of an apk database agree if and only if its records are plain.** -/
theorem readers_iff (texts : DpkgTexts) (db : List ApkRecord) :
    (ReadsAll texts ↔ texts.Harmless) ∧ (Agree db ↔ ∀ record ∈ db, record.Plain) :=
  ⟨⟨harmless_of_readsAll, readsAll_of_harmless⟩, agree_iff db⟩

/-- A description whose second line is indented by a tab. -/
def tabbedStanza : DpkgStanza :=
  versioned [oneField packageKey "libwolfssl42".toList isName_package (by decide +kernel),
    oneField statusKey "install ok installed".toList isName_status (by decide +kernel),
    oneField versionKey "5.7.2-0.1".toList isName_version (by decide +kernel),
    { name := "Description".toList
      value := " wolfSSL".toList
      more := ["\tVersion: see changelog".toList]
      name_ne := by decide +kernel
      name_char := by decide +kernel
      value_line := by decide +kernel
      more_line := by decide +kernel }] (by decide +kernel) (by decide +kernel)

/-- A record with a space behind its name. -/
def paddedRecord : ApkRecord where
  fields := [('P', "gnutls ".toList), ('V', "3.8.8-r0".toList)]
  letter := by decide +kernel
  value_line := by decide +kernel
  one_name := by decide +kernel
  one_version := by decide +kernel

theorem not_read_tabbed : ¬ ReadRight [tabbedStanza] [] ∧ ¬ Agree [paddedRecord] := by
  have htabbed : dpkgVersions (fun _ => true) (dpkgText [tabbedStanza] []) =
      [⟨"libwolfssl42".toList, "see changelog".toList⟩] := by
    decide +kernel
  have hpadded : apkVersions ["gnutls".toList] (apkText [paddedRecord] []) = [] := by
    decide +kernel
  constructor
  · rintro ⟨-, hversions⟩
    have hread := hversions fun _ => true
    rw [htabbed] at hread
    exact absurd hread (by decide +kernel)
  · intro hagree
    have hread := hagree [] List.mem_cons_self ["gnutls".toList]
    rw [hpadded] at hread
    exact absurd hread (by decide +kernel)

end PqcReadiness.Packages
