import PqcReadiness.Lib.Dict
import PqcReadiness.Lib.Stanzas

/-!
# The status database of dpkg, read twice

`parse_dpkg_status` makes the inventory of a host, and `_dpkg_versions` looks for a library.  The
one keeps the first value of a field, skips lines that begin with a space or a tab, and ends a
stanza at any blank line; the other keeps the last value, skips lines that begin with a space, and
ends a stanza at an empty line.  Both split a stanza at every break of `str.splitlines`.

A database has its texts from a vocabulary (`DpkgTexts`).  `readsAll_of_harmless` and
`harmless_of_readsAll` say which vocabularies the two readers read as they were written: those in
which every text is harmless.
-/

namespace PqcReadiness.Packages

open PqcReadiness.Lib

/-! ## The readers -/

/-- A package as the readers report it. -/
structure PackageVersion where
  name : List Char
  version : List Char
  deriving DecidableEq

/-- The separator `\n\s*\n`: how long it is at the start of a text. -/
def blankLines : List Char → Option ℕ
  | [] => none
  | c :: rest =>
      if c = '\n' ∧ '\n' ∈ rest.takeWhile isSpace then
        some (1 + ((rest.takeWhile isSpace).reverse.dropWhile (· ≠ '\n')).length)
      else none

/-- The separator `"\n\n"`. -/
def emptyLine (text : List Char) : Option ℕ :=
  if ['\n', '\n'].isPrefixOf text then some 2 else none

/-- `line.partition(":")`, if the line has a colon. -/
def partitionColon (line : List Char) : Option (List Char × List Char) :=
  match line.dropWhile (· ≠ ':') with
  | [] => none
  | _ :: value => some (line.takeWhile (· ≠ ':'), value)

/-- `text.split()`. -/
def textWords (text : List Char) : List (List Char) := (splitWhere isSpace text).filter (· ≠ [])

def packageKey : List Char := "Package".toList

def versionKey : List Char := "Version".toList

def statusKey : List Char := "Status".toList

def installedWord : List Char := "installed".toList

/-- A line as `parse_dpkg_status` reads it. -/
def statusField (line : List Char) : Option (List Char × List Char) :=
  if line = [] ∨ line.head? = some ' ' ∨ line.head? = some '\t' then none
  else (partitionColon line).map fun field => (field.1, stripChars field.2)

/-- A stanza as `parse_dpkg_status` reads it. -/
def statusPackage (stanza : List Char) : Option PackageVersion :=
  let fields := Dict.ofFirst ((splitLinesChars stanza).filterMap statusField)
  let name := (fields.get? packageKey).getD []
  let version := (fields.get? versionKey).getD []
  if name ≠ [] ∧ version ≠ [] then some ⟨name, version⟩ else none

/-- `parse_dpkg_status`. -/
def parseDpkgStatus (text : List Char) : List PackageVersion :=
  (splitMatches blankLines 0 text).filterMap statusPackage

/-- A line as `_dpkg_versions` reads it. -/
def probedField (line : List Char) : Option (List Char × List Char) :=
  if line.head? = some ' ' then none
  else (partitionColon line).map fun field => (stripChars field.1, stripChars field.2)

/-- A stanza as `_dpkg_versions` reads it; `found` is the search for the pattern. -/
def probedPackage (found : List Char → Bool) (stanza : List Char) : Option PackageVersion :=
  let fields := Dict.ofLast ((splitLinesChars stanza).filterMap probedField)
  let name := (fields.get? packageKey).getD []
  if found name ∧ installedWord ∈ textWords ((fields.get? statusKey).getD []) then
    some ⟨name, (fields.get? versionKey).getD []⟩
  else none

/-- `_dpkg_versions`, of a database that can be read. -/
def dpkgVersions (found : List Char → Bool) (text : List Char) : List PackageVersion :=
  (splitMatches emptyLine 0 text).filterMap (probedPackage found)

/-! ## The database -/

/-- A field: a line, and the lines that continue it. -/
structure DpkgField where
  name : List Char
  value : List Char
  more : List (List Char)
  name_ne : name ≠ []
  name_char : ∀ c ∈ name, isSpace c = false ∧ c ≠ ':'
  value_line : '\n' ∉ value
  more_line : ∀ line ∈ more, '\n' ∉ line ∧ (line.head? = some ' ' ∨ line.head? = some '\t')

/-- The first line of a field. -/
def fieldLine (name value : List Char) : List Char := name ++ ':' :: value

def DpkgField.lines (field : DpkgField) : List (List Char) :=
  fieldLine field.name field.value :: field.more

/-- The value of a field, if a stanza has one with this name. -/
def valueOf (key : List Char) (fields : List DpkgField) : Option (List Char) :=
  find key (fields.map fun field => (field.name, field.value))

/-- A status that ends in `installed`. -/
def isInstalled (status : List Char) : Bool := (textWords status).getLast? = some installedWord

/-- The stanza is that of an installed package. -/
def Installed (fields : List DpkgField) : Prop :=
  ∃ status ∈ valueOf statusKey fields, isInstalled status

/-- A stanza. -/
structure DpkgStanza where
  fields : List DpkgField
  ne_nil : fields ≠ []
  nodup : (fields.map DpkgField.name).Nodup
  version : Installed fields → (valueOf versionKey fields).isSome

namespace DpkgStanza

variable (stanza : DpkgStanza)

def lines : List (List Char) := stanza.fields.flatMap DpkgField.lines

/-- The value of a field without the white space around it; empty without such a field. -/
def trimmed (key : List Char) : List Char := stripChars ((valueOf key stanza.fields).getD [])

/-- The package and the version that the stanza was written with, if it has both. -/
def package : Option PackageVersion :=
  if stanza.trimmed packageKey ≠ [] ∧ stanza.trimmed versionKey ≠ [] then
    some ⟨stanza.trimmed packageKey, stanza.trimmed versionKey⟩
  else none

instance : Decidable (Installed stanza.fields) := inferInstanceAs (Decidable (∃ _ ∈ _, _))

end DpkgStanza

/-- The text of a database. -/
def dpkgText (db : List DpkgStanza) (ending : List Char) : List Char :=
  stanzasText (db.map DpkgStanza.lines) ending

/-- Both readers read the database as it was written. -/
def ReadRight (db : List DpkgStanza) (ending : List Char) : Prop :=
  parseDpkgStatus (dpkgText db ending) = db.filterMap DpkgStanza.package ∧
    ∀ found, dpkgVersions found (dpkgText db ending) =
      ((db.filter fun stanza => Installed stanza.fields).filterMap DpkgStanza.package).filter
        fun package => found package.name

/-! ## The texts -/

/-- The texts that a database may have: values of fields and lines that continue them.  Whether an
installed package may be without a name is part of it.  Any word may be the value of the three
fields that are read. -/
structure DpkgTexts where
  value : List Char → List Char → Prop
  continuation : List Char → Prop
  nameless : Prop
  word : ∀ key ∈ [packageKey, versionKey, statusKey], ∀ word ≠ [],
    (∀ c ∈ word, isSpace c = false) → value key word

/-- The stanza has its texts from a vocabulary. -/
structure DpkgTexts.Has (texts : DpkgTexts) (stanza : DpkgStanza) : Prop where
  value : ∀ field ∈ stanza.fields, texts.value field.name field.value
  continuation : ∀ field ∈ stanza.fields, ∀ line ∈ field.more, texts.continuation line
  named : Installed stanza.fields → stanza.trimmed packageKey ≠ [] ∨ texts.nameless

/-- There is only white space behind the first line break. -/
def OneLine (value : List Char) : Prop :=
  ∀ c ∈ value.dropWhile fun c => !isLineBreak c, isSpace c = true

/-- What `parse_dpkg_status` takes from a line for a field. -/
def firstDeclared (key line : List Char) : Option (List Char) :=
  find key ((splitLinesChars line).filterMap statusField)

/-- What `_dpkg_versions` takes from a line for a field. -/
def lastDeclared (key line : List Char) : Option (List Char) :=
  find key ((splitLinesChars line).filterMap probedField).reverse

/-- No part of the line is taken for one of the three fields. -/
def Quiet (line : List Char) : Prop :=
  ∀ key ∈ [packageKey, versionKey, statusKey], lastDeclared key line = none

/-- A status that both readers see as it was written: it hides no package and no version, and the
word `installed` is in what is read of it just when the status ends in it. -/
structure PlainStatus (status : List Char) : Prop where
  first : ∀ key ∈ [packageKey, versionKey], firstDeclared key (fieldLine statusKey status) = none
  installed : installedWord ∈ textWords ((lastDeclared statusKey
    (fieldLine statusKey status)).getD []) ↔ isInstalled status
  last : isInstalled status → ∀ key ∈ [packageKey, versionKey],
    lastDeclared key (fieldLine statusKey status) = none

/-- The value is harmless in a field with this name. -/
def HarmlessValue (name value : List Char) : Prop :=
  if name = packageKey then OneLine value
  else if name = versionKey then OneLine value ∧ stripChars value ≠ []
  else if name = statusKey then PlainStatus value
  else Quiet (fieldLine name value)

/-- Every text of the vocabulary is harmless. -/
structure DpkgTexts.Harmless (texts : DpkgTexts) : Prop where
  value : ∀ field : DpkgField, texts.value field.name field.value →
    HarmlessValue field.name field.value
  continuation : ∀ field : DpkgField, ∀ line ∈ field.more, texts.continuation line →
    stripChars line ≠ [] ∧ Quiet line
  named : ¬ texts.nameless

/-! ## The separators -/

/-- A line that is not blank. -/
def NonBlank (line : List Char) : Prop := ∃ c ∈ line, isSpace c = false

theorem stanzaBreak_blankLines : StanzaBreak blankLines NonBlank where
  char c rest hc := if_neg fun h => hc h.1
  line line rest hline hblank := by
    refine if_neg fun h => ?_
    obtain ⟨c, hc, hspace⟩ := hblank
    have hne : line.dropWhile isSpace ≠ [] := by
      intro hnil
      rw [List.dropWhile_eq_nil_iff.mp hnil c hc] at hspace
      cases hspace
    have htake : (line ++ rest).takeWhile isSpace = line.takeWhile isSpace := by
      conv_lhs => rw [← List.takeWhile_append_dropWhile (p := isSpace) (l := line)]
      obtain ⟨d, more, hdrop⟩ := List.exists_cons_of_ne_nil hne
      have hd := List.head_dropWhile_not isSpace hne
      simp only [hdrop, List.head_cons] at hd
      rw [hdrop, List.append_assoc, List.cons_append,
        List.takeWhile_append_of_pos fun x hx => List.mem_takeWhile_imp hx,
        List.takeWhile_cons_of_neg (by simp [hd]), List.append_nil]
    have hmem : '\n' ∈ (line ++ rest).takeWhile isSpace := h.2
    rw [htake] at hmem
    exact hline ((List.takeWhile_prefix isSpace).subset hmem)
  last := rfl
  between rest hrest := by
    have htake : ('\n' :: rest).takeWhile isSpace = ['\n'] := by
      rw [List.takeWhile_cons_of_pos rfl]
      cases rest with
      | nil => rfl
      | cons c rest => rw [List.takeWhile_cons_of_neg (by simp [hrest c rfl])]
    rw [blankLines, htake]
    rfl

theorem stanzaBreak_emptyLine : StanzaBreak emptyLine (· ≠ []) where
  char c rest hc := if_neg (by simp [Ne.symm hc])
  line line rest hline hne := by
    obtain ⟨c, more, rfl⟩ := List.exists_cons_of_ne_nil hne
    have hc : '\n' ≠ c := fun h => hline (h ▸ List.mem_cons_self)
    exact if_neg (by simp [hc])
  last := rfl
  between rest _ := rfl

/-! ## Lines as the readers see them -/

section Lines

variable {key name value line : List Char}

theorem partitionColon_append (hname : ':' ∉ name) (value : List Char) :
    partitionColon (fieldLine name value) = some (name, value) := by
  have hkeep : ∀ c ∈ name, decide (c ≠ ':') = true := fun c hc =>
    decide_eq_true fun h => hname (h ▸ hc)
  rw [partitionColon, fieldLine, List.dropWhile_append_of_pos hkeep,
    List.takeWhile_append_of_pos hkeep, List.dropWhile_cons_of_neg (by simp),
    List.takeWhile_cons_of_neg (by simp), List.append_nil]

/-- A blank line is no field. -/
theorem partitionColon_blank (hblank : ∀ c ∈ line, isSpace c = true) :
    partitionColon line = none := by
  have hdrop : line.dropWhile (fun c => decide (c ≠ ':')) = [] := by
    refine List.dropWhile_eq_nil_iff.mpr fun c hc => decide_eq_true ?_
    rintro rfl
    exact absurd (hblank ':' hc) (by decide)
  rw [partitionColon, hdrop]

theorem statusField_blank (hblank : ∀ c ∈ line, isSpace c = true) : statusField line = none := by
  rw [statusField, partitionColon_blank hblank]
  exact ite_self _

theorem probedField_blank (hblank : ∀ c ∈ line, isSpace c = true) : probedField line = none := by
  rw [probedField, partitionColon_blank hblank]
  exact ite_self _

/-- The name of a field. -/
structure IsName (name : List Char) : Prop where
  ne_nil : name ≠ []
  char : ∀ c ∈ name, isSpace c = false ∧ c ≠ ':'

theorem DpkgField.isName (field : DpkgField) : IsName field.name := ⟨field.name_ne, field.name_char⟩

theorem isName_of_mem (hkey : key ∈ [packageKey, versionKey, statusKey]) : IsName key := by
  simp only [List.mem_cons, List.not_mem_nil, or_false] at hkey
  rcases hkey with rfl | rfl | rfl
  · exact ⟨by decide, by decide +kernel⟩
  · exact ⟨by decide, by decide +kernel⟩
  · exact ⟨by decide, by decide +kernel⟩

theorem IsName.no_colon (hname : IsName name) : ':' ∉ name := fun hmem =>
  (hname.char ':' hmem).2 rfl

theorem IsName.strip (hname : IsName name) : stripChars name = name :=
  stripChars_of_noSpace fun c hc => (hname.char c hc).1

theorem IsName.head (hname : IsName name) (value : List Char) {c : Char} (hc : isSpace c = true) :
    (fieldLine name value).head? ≠ some c := by
  obtain ⟨d, more, heq⟩ := List.exists_cons_of_ne_nil hname.ne_nil
  have hd := (hname.char d (heq ▸ List.mem_cons_self)).1
  subst heq
  intro hhead
  obtain rfl : d = c := Option.some.inj hhead
  rw [hc] at hd
  cases hd

theorem IsName.takeWhile (hname : IsName name) (value : List Char) :
    (fieldLine name value).takeWhile isSpace = [] := by
  obtain ⟨c, more, heq⟩ := List.exists_cons_of_ne_nil hname.ne_nil
  have hc := (hname.char c (heq ▸ List.mem_cons_self)).1
  subst heq
  exact List.takeWhile_cons_of_neg (by simp [hc])

theorem IsName.statusField (hname : IsName name) (value : List Char) :
    statusField (fieldLine name value) = some (name, stripChars value) := by
  have hfirst : ¬ (fieldLine name value = [] ∨ (fieldLine name value).head? = some ' ' ∨
      (fieldLine name value).head? = some '\t') := by
    rintro (hnil | hhead | hhead)
    · exact absurd hnil (by simp [fieldLine])
    · exact hname.head value rfl hhead
    · exact hname.head value rfl hhead
  rw [Packages.statusField, if_neg hfirst, partitionColon_append hname.no_colon]
  rfl

theorem IsName.probedField (hname : IsName name) (value : List Char) :
    probedField (fieldLine name value) = some (name, stripChars value) := by
  rw [Packages.probedField, if_neg (hname.head value rfl), partitionColon_append hname.no_colon,
    Option.map_some, hname.strip]

/-- The line of a field, split as `str.splitlines` splits it. -/
theorem IsName.splitLines (hname : IsName name) (value : List Char) :
    splitLinesChars (fieldLine name value) =
      fieldLine name (value.takeWhile fun c => !isLineBreak c) :: (splitLinesChars value).tail := by
  have hline : IsLine (name ++ [':']) := by
    intro c hc
    rcases List.mem_append.mp hc with hc | hc
    · by_contra hbreak
      have hspace := isSpace_of_isLineBreak (Bool.not_eq_false _ ▸ hbreak)
      rw [(hname.char c hc).1] at hspace
      cases hspace
    · rw [List.mem_singleton.mp hc]
      rfl
  have happend : ∀ value, fieldLine name value = (name ++ [':']) ++ value := fun value => by
    simp [fieldLine]
  rw [happend, happend, splitLinesChars_line hline (by simp)]

/-- A value in one line is read whole, and nothing behind it. -/
theorem filterMap_oneLine (hname : IsName name) (hone : OneLine value)
    {read : List Char → Option (List Char × List Char)}
    (hread : ∀ value, read (fieldLine name value) = some (name, stripChars value))
    (hblank : ∀ line : List Char, (∀ c ∈ line, isSpace c = true) → read line = none) :
    (splitLinesChars (fieldLine name value)).filterMap read = [(name, stripChars value)] := by
  have htail : (splitLinesChars value).tail.filterMap read = [] :=
    List.filterMap_eq_nil_iff.mpr fun piece hpiece => hblank piece fun c hc =>
      hone c (mem_of_mem_tail_splitLinesChars hpiece hc)
  have hstrip : stripChars (value.takeWhile fun c => !isLineBreak c) = stripChars value := by
    conv_rhs => rw [← List.takeWhile_append_dropWhile (p := fun c => !isLineBreak c) (l := value)]
    exact (stripChars_append_space hone).symm
  rw [hname.splitLines, List.filterMap_cons, hread, htail, hstrip]

/-- What the one reader takes for a field the other takes for it too. -/
theorem firstDeclared_of_lastDeclared (hkey : IsName key) (hnone : lastDeclared key line = none) :
    firstDeclared key line = none := by
  rw [firstDeclared, lastDeclared, find_eq_none_iff] at *
  intro hmem
  obtain ⟨⟨other, value⟩, hfield, rfl⟩ := List.mem_map.mp hmem
  obtain ⟨piece, hpiece, hread⟩ := List.mem_filterMap.mp hfield
  refine hnone (List.mem_map.mpr ⟨(other, value), ?_, rfl⟩)
  refine List.mem_reverse.mpr (List.mem_filterMap.mpr ⟨piece, hpiece, ?_⟩)
  rw [statusField] at hread
  split at hread
  · cases hread
  · next hfirst =>
      obtain ⟨field, hpartition, heq⟩ := Option.map_eq_some_iff.mp hread
      obtain ⟨rfl, rfl⟩ := Prod.mk.inj heq
      rw [probedField, if_neg fun hhead => hfirst (.inr (.inl hhead)), hpartition, Option.map_some,
        hkey.strip]

end Lines

/-! ## Stanzas as the readers see them -/

section Stanza

variable {key : List Char} {fields : List DpkgField}

/-- What is found in the chunks of the fields is found in that of one field. -/
theorem find_flatMap_fields {chunk : DpkgField → List (List Char × List Char)}
    (read : List Char → List Char) (hchunk : ∀ field ∈ fields,
      find key (chunk field) = if field.name = key then some (read field.value) else none) :
    find key (fields.flatMap chunk) = (valueOf key fields).map read := by
  induction fields with
  | nil => rfl
  | cons field fields ih =>
      obtain ⟨hfield, hrest⟩ := List.forall_mem_cons.mp hchunk
      have hvalue : valueOf key (field :: fields) =
          if field.name = key then some field.value else valueOf key fields := rfl
      rw [List.flatMap_cons, find_append, hfield, ih hrest, hvalue]
      split <;> rfl

theorem valueOf_reverse (hnodup : (fields.map DpkgField.name).Nodup) :
    valueOf key fields.reverse = valueOf key fields := by
  rw [valueOf, List.map_reverse, find_reverse]
  · rfl
  · rwa [List.map_map]

/-- The lines of a stanza and the fields that a reader makes of them. -/
theorem filterMap_stanza {read : List Char → Option (List Char × List Char)}
    (hnil : read [] = none) (stanza : DpkgStanza) :
    (splitLinesChars (['\n'].intercalate stanza.lines)).filterMap read =
      stanza.fields.flatMap fun field => field.lines.flatMap fun line =>
        (splitLinesChars line).filterMap read := by
  rw [filterMap_splitLines hnil, DpkgStanza.lines, List.flatMap_assoc]

/-- What `parse_dpkg_status` finds in a stanza. -/
theorem find_statusField (stanza : DpkgStanza) (read : List Char → List Char)
    (hmore : ∀ field ∈ stanza.fields, ∀ line ∈ field.more, firstDeclared key line = none)
    (hfirst : ∀ field ∈ stanza.fields, firstDeclared key (fieldLine field.name field.value) =
      if field.name = key then some (read field.value) else none) :
    find key ((splitLinesChars (['\n'].intercalate stanza.lines)).filterMap statusField) =
      (valueOf key stanza.fields).map read := by
  rw [filterMap_stanza rfl]
  refine find_flatMap_fields read fun field hfield => ?_
  have hrest : find key (field.more.flatMap fun line =>
      (splitLinesChars line).filterMap statusField) = none := by
    rw [find_eq_none_iff]
    intro hmem
    obtain ⟨entry, hentry, heq⟩ := List.mem_map.mp hmem
    obtain ⟨line, hline, hin⟩ := List.mem_flatMap.mp hentry
    exact find_eq_none_iff.mp (hmore field hfield line hline) (List.mem_map.mpr ⟨entry, hin, heq⟩)
  rw [DpkgField.lines, List.flatMap_cons, find_append, hrest, Option.or_none]
  exact hfirst field hfield

/-- What `_dpkg_versions` finds in a stanza. -/
theorem find_probedField (stanza : DpkgStanza) (read : List Char → List Char)
    (hmore : ∀ field ∈ stanza.fields, ∀ line ∈ field.more, lastDeclared key line = none)
    (hfirst : ∀ field ∈ stanza.fields, lastDeclared key (fieldLine field.name field.value) =
      if field.name = key then some (read field.value) else none) :
    find key ((splitLinesChars (['\n'].intercalate stanza.lines)).filterMap probedField).reverse =
      (valueOf key stanza.fields).map read := by
  rw [filterMap_stanza rfl, List.reverse_flatMap, ← valueOf_reverse stanza.nodup]
  refine find_flatMap_fields read fun field hfield => ?_
  rw [List.mem_reverse] at hfield
  have hrest : find key (field.more.flatMap fun line =>
      (splitLinesChars line).filterMap probedField).reverse = none := by
    rw [find_eq_none_iff]
    intro hmem
    obtain ⟨entry, hentry, heq⟩ := List.mem_map.mp hmem
    obtain ⟨line, hline, hin⟩ := List.mem_flatMap.mp (List.mem_reverse.mp hentry)
    exact find_eq_none_iff.mp (hmore field hfield line hline)
      (List.mem_map.mpr ⟨entry, List.mem_reverse.mpr hin, heq⟩)
  rw [Function.comp_apply, DpkgField.lines, List.flatMap_cons, List.reverse_append, find_append,
    hrest, Option.none_or]
  exact hfirst field hfield

end Stanza

/-! ## Harmless texts are read as they were written -/

section Harmless

variable {texts : DpkgTexts} {stanza : DpkgStanza} {field : DpkgField}

theorem lastDeclared_oneLine {key name value : List Char} (hname : IsName name)
    (hone : OneLine value) : lastDeclared key (fieldLine name value) =
      if name = key then some (stripChars value) else none := by
  rw [lastDeclared, filterMap_oneLine hname hone hname.probedField fun _ => probedField_blank]
  rfl

theorem firstDeclared_oneLine {key name value : List Char} (hname : IsName name)
    (hone : OneLine value) : firstDeclared key (fieldLine name value) =
      if name = key then some (stripChars value) else none := by
  rw [firstDeclared, filterMap_oneLine hname hone hname.statusField fun _ => statusField_blank]
  rfl

theorem packageKey_ne : packageKey ≠ versionKey ∧ packageKey ≠ statusKey ∧
    versionKey ≠ statusKey := by
  decide +kernel

theorem key_of_mem {key : List Char} (hkey : key ∈ [packageKey, versionKey]) :
    key ∈ [packageKey, versionKey, statusKey] ∧ statusKey ≠ key := by
  obtain ⟨hpv, hps, hvs⟩ := packageKey_ne
  rcases List.mem_cons.mp hkey with rfl | hkey
  · exact ⟨List.mem_cons_self, hps.symm⟩
  · rw [List.mem_singleton.mp hkey]
    exact ⟨List.mem_cons_of_mem _ List.mem_cons_self, hvs.symm⟩

/-- A package or a version: what both readers take from the line of a harmless field. -/
theorem declared_of_harmless (hfield : HarmlessValue field.name field.value) {key : List Char}
    (hkey : key ∈ [packageKey, versionKey]) :
    firstDeclared key (fieldLine field.name field.value) =
        (if field.name = key then some (stripChars field.value) else none) ∧
      (field.name ≠ statusKey → lastDeclared key (fieldLine field.name field.value) =
        if field.name = key then some (stripChars field.value) else none) := by
  obtain ⟨hkeys, -⟩ := key_of_mem hkey
  rw [HarmlessValue] at hfield
  split at hfield
  · exact ⟨firstDeclared_oneLine field.isName hfield, fun _ =>
      lastDeclared_oneLine field.isName hfield⟩
  · split at hfield
    · exact ⟨firstDeclared_oneLine field.isName hfield.1, fun _ =>
        lastDeclared_oneLine field.isName hfield.1⟩
    · next hpackage hversion =>
        have hne : field.name ≠ key := by
          rintro rfl
          simp [hpackage, hversion] at hkey
        rw [if_neg hne]
        split at hfield
        · next hstatus =>
            refine ⟨?_, fun h => absurd hstatus h⟩
            rw [hstatus]
            exact hfield.first key hkey
        · have hlast := hfield key hkeys
          exact ⟨firstDeclared_of_lastDeclared (isName_of_mem hkeys) hlast, fun _ => hlast⟩

/-- The line of a status is taken for one. -/
theorem isSome_lastDeclared_status (status : List Char) :
    (lastDeclared statusKey (fieldLine statusKey status)).isSome := by
  have hname : IsName statusKey := isName_of_mem (by simp)
  rw [Option.isSome_iff_ne_none, ne_eq, lastDeclared, find_eq_none_iff, not_not, hname.splitLines,
    List.filterMap_cons, hname.probedField]
  simp

theorem status_of_harmless (hfield : HarmlessValue field.name field.value) :
    lastDeclared statusKey (fieldLine field.name field.value) =
      if field.name = statusKey then
        some ((lastDeclared statusKey (fieldLine statusKey field.value)).getD [])
      else none := by
  obtain ⟨hpv, hps, hvs⟩ := packageKey_ne
  rw [HarmlessValue] at hfield
  split at hfield
  · next hpackage =>
      rw [lastDeclared_oneLine field.isName hfield, hpackage, if_neg hps, if_neg hps]
  · split at hfield
    · next hversion =>
        rw [lastDeclared_oneLine field.isName hfield.1, hversion, if_neg hvs, if_neg hvs]
    · split at hfield
      · next hstatus =>
          obtain ⟨value, hvalue⟩ :=
            Option.isSome_iff_exists.mp (isSome_lastDeclared_status field.value)
          rw [hstatus, if_pos rfl, hvalue]
          rfl
      · next hstatus => rw [if_neg hstatus, hfield statusKey (by simp)]

theorem trimmed_eq (stanza : DpkgStanza) (key : List Char) :
    ((valueOf key stanza.fields).map stripChars).getD [] = stanza.trimmed key := by
  rw [DpkgStanza.trimmed]
  cases valueOf key stanza.fields <;> rfl

theorem field_of_valueOf {key value : List Char} {fields : List DpkgField}
    (hvalue : valueOf key fields = some value) :
    ∃ field ∈ fields, field.name = key ∧ field.value = value := by
  obtain ⟨field, hfield, heq⟩ := List.mem_map.mp (mem_of_find_eq_some hvalue)
  exact ⟨field, hfield, Prod.mk.inj heq⟩

variable (hharmless : texts.Harmless) (hhas : texts.Has stanza)

include hharmless hhas

theorem harmlessValue_of_mem {field : DpkgField} (hfield : field ∈ stanza.fields) :
    HarmlessValue field.name field.value := hharmless.value field (hhas.value field hfield)

theorem quiet_of_mem {field : DpkgField} (hfield : field ∈ stanza.fields) {line : List Char}
    (hline : line ∈ field.more) : Quiet line :=
  (hharmless.continuation field line hline (hhas.continuation field hfield line hline)).2

/-- The inventory takes the package and the version that were written. -/
theorem statusPackage_of_harmless :
    statusPackage (['\n'].intercalate stanza.lines) = stanza.package := by
  have hfind : ∀ key ∈ [packageKey, versionKey],
      find key ((splitLinesChars (['\n'].intercalate stanza.lines)).filterMap statusField) =
        (valueOf key stanza.fields).map stripChars := by
    intro key hkey
    obtain ⟨hkeys, -⟩ := key_of_mem hkey
    refine find_statusField stanza stripChars (fun field hfield line hline => ?_)
      fun field hfield => ?_
    · exact firstDeclared_of_lastDeclared (isName_of_mem hkeys)
        (quiet_of_mem hharmless hhas hfield hline key hkeys)
    · exact (declared_of_harmless (harmlessValue_of_mem hharmless hhas hfield) hkey).1
  rw [statusPackage, DpkgStanza.package]
  simp only [Dict.get?_ofFirst, hfind packageKey (by simp), hfind versionKey (by simp),
    trimmed_eq]

/-- The probe sees the status that was written. -/
theorem installed_of_harmless :
    installedWord ∈ textWords ((find statusKey ((splitLinesChars
        (['\n'].intercalate stanza.lines)).filterMap probedField).reverse).getD []) ↔
      Installed stanza.fields := by
  have hfind := @find_probedField statusKey stanza
    (fun value => (lastDeclared statusKey (fieldLine statusKey value)).getD [])
    (fun field hfield line hline => quiet_of_mem hharmless hhas hfield hline statusKey (by simp))
    fun field hfield => status_of_harmless (harmlessValue_of_mem hharmless hhas hfield)
  rw [hfind, Installed]
  cases hvalue : valueOf statusKey stanza.fields with
  | none =>
      have hnone : installedWord ∉ textWords [] := by decide
      exact ⟨fun h => absurd h hnone, by rintro ⟨_, ⟨⟩, -⟩⟩
  | some status =>
      obtain ⟨field, hfield, hname, rfl⟩ := field_of_valueOf hvalue
      have hplain := harmlessValue_of_mem hharmless hhas hfield
      obtain ⟨hpv, hps, hvs⟩ := packageKey_ne
      rw [HarmlessValue, hname, if_neg hps.symm, if_neg hvs.symm, if_pos rfl] at hplain
      refine hplain.installed.trans ⟨fun h => ⟨_, rfl, h⟩, ?_⟩
      rintro ⟨_, ⟨⟩, h⟩
      exact h

/-- The probe takes the package and the version that were written, of what is installed. -/
theorem probedPackage_of_harmless (found : List Char → Bool) :
    probedPackage found (['\n'].intercalate stanza.lines) =
      if Installed stanza.fields then stanza.package.filter fun package => found package.name
      else none := by
  obtain ⟨hpv, hps, hvs⟩ := packageKey_ne
  have hstatus := installed_of_harmless hharmless hhas
  rw [probedPackage]
  simp only [Dict.get?_ofLast]
  by_cases hinstalled : Installed stanza.fields
  · rw [if_pos hinstalled]
    have hfind : ∀ key ∈ [packageKey, versionKey],
        find key ((splitLinesChars (['\n'].intercalate stanza.lines)).filterMap
          probedField).reverse = (valueOf key stanza.fields).map stripChars := by
      intro key hkey
      obtain ⟨hkeys, hne⟩ := key_of_mem hkey
      refine find_probedField stanza stripChars (fun field hfield line hline =>
        quiet_of_mem hharmless hhas hfield hline key hkeys) fun field hfield => ?_
      have hvalue := harmlessValue_of_mem hharmless hhas hfield
      by_cases hname : field.name = statusKey
      · have hone : valueOf statusKey stanza.fields = some field.value :=
          find_eq_some_of_mem (by rw [List.map_map]; exact stanza.nodup)
            (List.mem_map.mpr ⟨field, hfield, by rw [hname]⟩)
        have hends : isInstalled field.value := by
          obtain ⟨status, hin, hends⟩ := hinstalled
          rwa [Option.some.inj (hone.symm.trans hin)]
        rw [HarmlessValue, hname, if_neg hps.symm, if_neg hvs.symm, if_pos rfl] at hvalue
        rw [hname, if_neg hne]
        exact hvalue.last hends key hkey
      · exact (declared_of_harmless hvalue hkey).2 hname
    have hpackage : stanza.trimmed packageKey ≠ [] :=
      (hhas.named hinstalled).resolve_right hharmless.named
    have hversion : stanza.trimmed versionKey ≠ [] := by
      obtain ⟨version, hvalue⟩ := Option.isSome_iff_exists.mp (stanza.version hinstalled)
      obtain ⟨field, hfield, hname, rfl⟩ := field_of_valueOf hvalue
      have hharm := harmlessValue_of_mem hharmless hhas hfield
      rw [HarmlessValue, hname, if_neg hpv.symm, if_pos rfl] at hharm
      rw [DpkgStanza.trimmed, hvalue]
      exact hharm.2
    have hwritten : stanza.package =
        some ⟨stanza.trimmed packageKey, stanza.trimmed versionKey⟩ :=
      if_pos ⟨hpackage, hversion⟩
    rw [hwritten, Option.filter_some, hfind packageKey (by simp), hfind versionKey (by simp),
      trimmed_eq, trimmed_eq]
    exact if_congr (and_iff_left (hstatus.mpr hinstalled)) rfl rfl
  · rw [if_neg hinstalled, if_neg fun h => hinstalled (hstatus.mp h.2)]

omit hharmless hhas

end Harmless

/-! ## Databases -/

section Database

variable {texts : DpkgTexts}

theorem statusPackage_newline (text : List Char) :
    statusPackage (text ++ ['\n']) = statusPackage text := by
  have happend : (splitLinesChars (text ++ ['\n'])).filterMap statusField =
      (splitLinesChars text).filterMap statusField ++ (splitLinesChars []).filterMap statusField :=
    filterMap_splitLines_append rfl text []
  rw [statusPackage, happend]
  simp only [splitLinesChars, List.filterMap_nil, List.append_nil]
  rfl

theorem probedPackage_newline (found : List Char → Bool) (text : List Char) :
    probedPackage found (text ++ ['\n']) = probedPackage found text := by
  have happend : (splitLinesChars (text ++ ['\n'])).filterMap probedField =
      (splitLinesChars text).filterMap probedField ++ (splitLinesChars []).filterMap probedField :=
    filterMap_splitLines_append rfl text []
  rw [probedPackage, happend]
  simp only [splitLinesChars, List.filterMap_nil, List.append_nil]
  rfl

theorem probedPackage_nil (found : List Char → Bool) : probedPackage found [] = none := by
  have hnone : installedWord ∉ textWords [] := by decide
  exact if_neg fun h => hnone h.2

/-- The lines of a stanza are those that a separator expects. -/
theorem isStanza_lines (stanza : DpkgStanza) {Line : List Char → Prop}
    (hline : ∀ line ∈ stanza.lines, Line line) : IsStanza Line stanza.lines where
  ne_nil := by
    obtain ⟨field, fields, hfields⟩ := List.exists_cons_of_ne_nil stanza.ne_nil
    rw [DpkgStanza.lines, hfields, List.flatMap_cons, DpkgField.lines]
    exact List.cons_ne_nil _ _
  unbroken line hmem := by
    obtain ⟨field, -, hin⟩ := List.mem_flatMap.mp hmem
    rcases List.mem_cons.mp hin with rfl | hin
    · rw [fieldLine, List.mem_append, List.mem_cons]
      rintro (hname | hcolon | hvalue)
      · exact absurd (field.name_char _ hname).1 (by decide)
      · exact absurd hcolon (by decide)
      · exact field.value_line hvalue
    · exact (field.more_line line hin).1
  line := hline
  head := by
    obtain ⟨field, fields, hfields⟩ := List.exists_cons_of_ne_nil stanza.ne_nil
    obtain ⟨c, more, hname⟩ := List.exists_cons_of_ne_nil field.name_ne
    have hlines : stanza.lines.head? = some (fieldLine field.name field.value) := by
      rw [DpkgStanza.lines, hfields]
      rfl
    rw [hlines]
    rintro _ ⟨⟩
    rw [hname]
    exact ⟨c, _, rfl, (field.name_char c (hname ▸ List.mem_cons_self)).1⟩

theorem nonBlank_fieldLine (field : DpkgField) : NonBlank (fieldLine field.name field.value) := by
  obtain ⟨c, more, hname⟩ := List.exists_cons_of_ne_nil field.name_ne
  have hmem : c ∈ field.name := hname ▸ List.mem_cons_self
  exact ⟨c, List.mem_append_left _ hmem, (field.name_char c hmem).1⟩

theorem nonBlank_of_strip {line : List Char} (hne : stripChars line ≠ []) : NonBlank line := by
  rw [ne_eq, stripChars_eq_nil_iff] at hne
  push Not at hne
  obtain ⟨c, hc, hspace⟩ := hne
  exact ⟨c, hc, by simpa using hspace⟩

/-- The inventory reads a database stanza by stanza, if no line of a stanza is blank. -/
theorem parseDpkgStatus_eq {db : List DpkgStanza} {ending : List Char}
    (hblank : ∀ stanza ∈ db, ∀ line ∈ stanza.lines, NonBlank line)
    (hending : ending ∈ stanzaEndings) :
    parseDpkgStatus (dpkgText db ending) =
      db.filterMap fun stanza => statusPackage (['\n'].intercalate stanza.lines) := by
  rw [parseDpkgStatus, dpkgText, filterMap_splitMatches stanzaBreak_blankLines rfl
    statusPackage_newline _ hending, List.map_map, List.filterMap_map]
  · rfl
  · intro lines hlines
    obtain ⟨stanza, hstanza, rfl⟩ := List.mem_map.mp hlines
    exact isStanza_lines stanza (hblank stanza hstanza)

/-- The probe reads a database stanza by stanza. -/
theorem dpkgVersions_eq (found : List Char → Bool) (db : List DpkgStanza) {ending : List Char}
    (hending : ending ∈ stanzaEndings) :
    dpkgVersions found (dpkgText db ending) =
      db.filterMap fun stanza => probedPackage found (['\n'].intercalate stanza.lines) := by
  rw [dpkgVersions, dpkgText, filterMap_splitMatches stanzaBreak_emptyLine (probedPackage_nil found)
    (probedPackage_newline found) _ hending, List.map_map, List.filterMap_map]
  · rfl
  · intro lines hlines
    obtain ⟨stanza, -, rfl⟩ := List.mem_map.mp hlines
    refine isStanza_lines stanza fun line hline => ?_
    obtain ⟨field, -, hin⟩ := List.mem_flatMap.mp hline
    rcases List.mem_cons.mp hin with rfl | hin
    · simp [fieldLine]
    · rintro rfl
      rcases (field.more_line [] hin).2 with hhead | hhead <;> cases hhead

/-- Both readers read the databases of a vocabulary as they were written. -/
def ReadsAll (texts : DpkgTexts) : Prop :=
  ∀ (db : List DpkgStanza) (ending : List Char), (∀ stanza ∈ db, texts.Has stanza) →
    ending ∈ stanzaEndings → ReadRight db ending

theorem readsAll_of_harmless (hharmless : texts.Harmless) : ReadsAll texts := by
  intro db ending hdb hending
  have hblank : ∀ stanza ∈ db, ∀ line ∈ stanza.lines, NonBlank line := by
    intro stanza hstanza line hline
    obtain ⟨field, hfield, hin⟩ := List.mem_flatMap.mp hline
    rcases List.mem_cons.mp hin with rfl | hin
    · exact nonBlank_fieldLine field
    · have hcontinuation := (hdb stanza hstanza).continuation field hfield line hin
      exact nonBlank_of_strip (hharmless.continuation field line hin hcontinuation).1
  refine ⟨?_, fun found => ?_⟩
  · rw [parseDpkgStatus_eq hblank hending]
    exact List.filterMap_congr fun stanza hstanza =>
      statusPackage_of_harmless hharmless (hdb stanza hstanza)
  · rw [dpkgVersions_eq found db hending, List.filterMap_congr fun stanza hstanza =>
      probedPackage_of_harmless hharmless (hdb stanza hstanza) found]
    clear hblank
    induction db with
    | nil => rfl
    | cons stanza db ih =>
        have hrest := ih fun other hother => hdb other (List.mem_cons_of_mem _ hother)
        rw [List.filterMap_cons, hrest]
        by_cases hinstalled : Installed stanza.fields
        · rw [if_pos hinstalled, List.filter_cons_of_pos (by simpa using hinstalled),
            List.filterMap_cons]
          cases stanza.package with
          | none => rfl
          | some package =>
              rw [Option.filter_some, List.filter_cons]
              cases found package.name <;> rfl
        · rw [if_neg hinstalled, List.filter_cons_of_neg (by simpa using hinstalled)]

end Database

/-! ## Texts that do harm -/

section Harm

variable {texts : DpkgTexts} {stanza : DpkgStanza}

/-- What the readers take from some lines. -/
theorem find_firstDeclared (key : List Char) (lines : List (List Char)) :
    find key ((splitLinesChars (['\n'].intercalate lines)).filterMap statusField) =
      lines.findSome? (firstDeclared key) := by
  rw [filterMap_splitLines rfl]
  induction lines with
  | nil => rfl
  | cons line lines ih =>
      rw [List.flatMap_cons, find_append, ih, List.findSome?_cons, ← firstDeclared]
      cases firstDeclared key line <;> rfl

theorem find_lastDeclared (key : List Char) (lines : List (List Char)) :
    find key ((splitLinesChars (['\n'].intercalate lines)).filterMap probedField).reverse =
      lines.reverse.findSome? (lastDeclared key) := by
  rw [filterMap_splitLines rfl, List.reverse_flatMap]
  induction lines.reverse with
  | nil => rfl
  | cons line lines ih =>
      rw [List.flatMap_cons, find_append, ih, List.findSome?_cons, Function.comp_apply,
        ← lastDeclared]
      cases lastDeclared key line <;> rfl

/-- A word that is none of these texts. -/
theorem exists_word (others : List (List Char)) :
    ∃ word : List Char, word ≠ [] ∧ (∀ c ∈ word, isSpace c = false) ∧ word ∉ others := by
  refine ⟨List.replicate (others.flatten.length + 1) 'a', by simp, ?_, ?_⟩
  · intro c hc
    rw [(List.mem_replicate.mp hc).2]
    rfl
  · intro hmem
    have hle := (List.sublist_flatten_of_mem hmem).length_le
    rw [List.length_replicate] at hle
    omega

/-- A word: it can be the value of any of the fields that are read. -/
structure IsWord (word : List Char) : Prop where
  ne_nil : word ≠ []
  char : ∀ c ∈ word, isSpace c = false

theorem IsWord.unbroken {word : List Char} (hword : IsWord word) : '\n' ∉ word := fun hmem =>
  absurd (hword.char _ hmem) (by decide)

theorem IsWord.strip {word : List Char} (hword : IsWord word) : stripChars word = word :=
  stripChars_of_noSpace hword.char

theorem IsWord.oneLine {word : List Char} (hword : IsWord word) : OneLine word := by
  intro c hc
  have hnil : word.dropWhile (fun c => !isLineBreak c) = [] := by
    refine List.dropWhile_eq_nil_iff.mpr fun d hd => ?_
    by_contra hbreak
    have hspace := isSpace_of_isLineBreak (c := d) (by simpa using hbreak)
    rw [hword.char d hd] at hspace
    cases hspace
  rw [hnil] at hc
  cases hc

theorem isWord_installed : IsWord installedWord := ⟨by decide, by decide +kernel⟩

/-- A field in one line. -/
def oneField (name value : List Char) (hname : IsName name) (hvalue : '\n' ∉ value) : DpkgField :=
  ⟨name, value, [], hname.ne_nil, hname.char, hvalue, List.forall_mem_nil _⟩

theorem stanza_of_readsAll (hreads : ReadsAll texts) (hhas : texts.Has stanza)
    (hblank : ∀ line ∈ stanza.lines, NonBlank line) :
    statusPackage (['\n'].intercalate stanza.lines) = stanza.package ∧
      probedPackage (fun _ => true) (['\n'].intercalate stanza.lines) =
        if Installed stanza.fields then stanza.package else none := by
  have hread := hreads [stanza] [] (List.forall_mem_singleton.mpr hhas) List.mem_cons_self
  have hsome : ∀ {x y : Option PackageVersion},
      [stanza].filterMap (fun _ => x) = [stanza].filterMap (fun _ => y) → x = y := by
    intro x y
    cases x <;> cases y <;> simp
  constructor
  · have hstatus := hread.1
    rw [parseDpkgStatus_eq (List.forall_mem_singleton.mpr hblank) List.mem_cons_self] at hstatus
    exact hsome hstatus
  · have hprobed := hread.2 fun _ => true
    rw [dpkgVersions_eq _ _ List.mem_cons_self] at hprobed
    refine hsome (hprobed.trans ?_)
    by_cases hinstalled : Installed stanza.fields
    · simp [hinstalled, List.filterMap_cons]
    · simp [hinstalled]

/-! ### Values -/

variable {value : List Char}

/-- What stands behind a line break is lost to both readers. -/
theorem strip_firstLine (hone : ¬ OneLine value) :
    stripChars (value.takeWhile fun c => !isLineBreak c) ≠ stripChars value ∧
      stripChars value ≠ [] := by
  have hbehind : (value.dropWhile fun c => !isLineBreak c).filter (fun c => !isSpace c) ≠ [] := by
    intro hnil
    refine hone fun c hc => ?_
    simpa using List.filter_eq_nil_iff.mp hnil c hc
  have hvalue : value.filter (fun c => !isSpace c) =
      (value.takeWhile fun c => !isLineBreak c).filter (fun c => !isSpace c) ++
        (value.dropWhile fun c => !isLineBreak c).filter (fun c => !isSpace c) := by
    rw [← List.filter_append, List.takeWhile_append_dropWhile]
  constructor
  · intro heq
    have hfilter := filter_stripChars (value.takeWhile fun c => !isLineBreak c)
    rw [heq, filter_stripChars, hvalue, List.append_right_eq_self] at hfilter
    exact hbehind hfilter
  · intro hnil
    have hfilter := filter_stripChars value
    rw [hnil, List.filter_nil, hvalue, eq_comm, List.append_eq_nil_iff] at hfilter
    exact hbehind hfilter.2

theorem firstDeclared_own {name : List Char} (hname : IsName name) (value : List Char) :
    firstDeclared name (fieldLine name value) =
      some (stripChars (value.takeWhile fun c => !isLineBreak c)) := by
  rw [firstDeclared, hname.splitLines, List.filterMap_cons, hname.statusField, find, if_pos rfl]

/-- Two fields and more, of which the inventory takes the first. -/
theorem statusPackage_lines (lines : List (List Char)) :
    statusPackage (['\n'].intercalate lines) =
      if (lines.findSome? (firstDeclared packageKey)).getD [] ≠ [] ∧
          (lines.findSome? (firstDeclared versionKey)).getD [] ≠ [] then
        some ⟨(lines.findSome? (firstDeclared packageKey)).getD [],
          (lines.findSome? (firstDeclared versionKey)).getD []⟩
      else none := by
  rw [statusPackage]
  simp only [Dict.get?_ofFirst, find_firstDeclared]

theorem probedPackage_lines (lines : List (List Char)) :
    probedPackage (fun _ => true) (['\n'].intercalate lines) =
      if installedWord ∈ textWords ((lines.reverse.findSome? (lastDeclared statusKey)).getD []) then
        some ⟨(lines.reverse.findSome? (lastDeclared packageKey)).getD [],
          (lines.reverse.findSome? (lastDeclared versionKey)).getD []⟩
      else none := by
  rw [probedPackage]
  simp only [Dict.get?_ofLast, find_lastDeclared, true_and]

/-! ### Stanzas with them -/

theorem valueOf_cons (key : List Char) (field : DpkgField) (fields : List DpkgField) :
    valueOf key (field :: fields) = if field.name = key then some field.value else
      valueOf key fields := rfl

theorem isSome_valueOf {key : List Char} {fields : List DpkgField}
    (hmem : key ∈ fields.map DpkgField.name) : (valueOf key fields).isSome := by
  rw [Option.isSome_iff_ne_none, ne_eq, valueOf, find_eq_none_iff, not_not, List.map_map]
  exact hmem

/-- A stanza with a version. -/
def versioned (fields : List DpkgField) (hnodup : (fields.map DpkgField.name).Nodup)
    (hversion : versionKey ∈ fields.map DpkgField.name) : DpkgStanza where
  fields := fields
  ne_nil := List.ne_nil_of_mem (List.mem_map.mp hversion).choose_spec.1
  nodup := hnodup
  version _ := isSome_valueOf hversion

theorem isName_package : IsName packageKey := isName_of_mem (by simp)

theorem isName_version : IsName versionKey := isName_of_mem (by simp)

theorem isName_status : IsName statusKey := isName_of_mem (by simp)

/-- What the readers take from a word. -/
theorem lastDeclared_word {key name word : List Char} (hname : IsName name) (hword : IsWord word) :
    lastDeclared key (fieldLine name word) = if name = key then some word else none := by
  rw [lastDeclared_oneLine hname hword.oneLine, hword.strip]

theorem firstDeclared_word {key name word : List Char} (hname : IsName name) (hword : IsWord word) :
    firstDeclared key (fieldLine name word) = if name = key then some word else none := by
  rw [firstDeclared_oneLine hname hword.oneLine, hword.strip]

/-- Fields that are read as they were written, and what the readers find in them. -/
structure Reading (fields : List DpkgField) : Prop where
  first : ∀ key ∈ [packageKey, versionKey],
    ((fields.flatMap DpkgField.lines).findSome? (firstDeclared key)).getD [] =
      stripChars ((valueOf key fields).getD [])
  last : Installed fields → ∀ key ∈ [packageKey, versionKey],
    ((fields.flatMap DpkgField.lines).reverse.findSome? (lastDeclared key)).getD [] =
      stripChars ((valueOf key fields).getD [])
  installed : installedWord ∈ textWords (((fields.flatMap DpkgField.lines).reverse.findSome?
    (lastDeclared statusKey)).getD []) ↔ Installed fields

theorem reading_of_readsAll (hreads : ReadsAll texts) (hhas : texts.Has stanza)
    (hblank : ∀ line ∈ stanza.lines, NonBlank line) (hname : stanza.trimmed packageKey ≠ [])
    (hversion : stanza.trimmed versionKey ≠ []) : Reading stanza.fields := by
  obtain ⟨hstatus, hprobed⟩ := stanza_of_readsAll hreads hhas hblank
  have hpackage : stanza.package =
      some ⟨stanza.trimmed packageKey, stanza.trimmed versionKey⟩ := if_pos ⟨hname, hversion⟩
  have hkeys : ∀ {p : List Char → Prop}, p packageKey → p versionKey →
      ∀ key ∈ [packageKey, versionKey], p key := by
    intro p hp hv
    exact List.forall_mem_cons.mpr ⟨hp, List.forall_mem_singleton.mpr hv⟩
  rw [hpackage, statusPackage_lines] at hstatus
  rw [hpackage, probedPackage_lines] at hprobed
  refine ⟨?_, fun hinstalled => ?_, ?_⟩
  · split at hstatus
    · obtain ⟨hp, hv⟩ := PackageVersion.mk.inj (Option.some.inj hstatus)
      exact hkeys hp hv
    · cases hstatus
  · rw [if_pos hinstalled] at hprobed
    split at hprobed
    · obtain ⟨hp, hv⟩ := PackageVersion.mk.inj (Option.some.inj hprobed)
      exact hkeys hp hv
    · cases hprobed
  · by_cases hinstalled : Installed stanza.fields
    · refine ⟨fun _ => hinstalled, fun _ => ?_⟩
      rw [if_pos hinstalled] at hprobed
      by_contra hnot
      rw [DpkgStanza.lines, if_neg hnot] at hprobed
      cases hprobed
    · refine ⟨fun hword => ?_, fun h => absurd h hinstalled⟩
      rw [if_neg hinstalled, DpkgStanza.lines, if_pos hword] at hprobed
      cases hprobed

/-- A stanza in which every field is one line. -/
theorem reading_of_fields (hreads : ReadsAll texts) (fields : List DpkgField)
    (hnodup : (fields.map DpkgField.name).Nodup)
    (hversion : versionKey ∈ fields.map DpkgField.name)
    (hmore : ∀ field ∈ fields, field.more = [])
    (hvalues : ∀ field ∈ fields, texts.value field.name field.value)
    (hname : stripChars ((valueOf packageKey fields).getD []) ≠ [])
    (hnumber : stripChars ((valueOf versionKey fields).getD []) ≠ []) : Reading fields := by
  refine @reading_of_readsAll texts (versioned fields hnodup hversion) hreads
    ⟨hvalues, ?_, fun _ => .inl hname⟩ ?_ hname hnumber
  · intro field hfield line hline
    rw [hmore field hfield] at hline
    cases hline
  · intro line hline
    obtain ⟨field, hfield, hin⟩ := List.mem_flatMap.mp hline
    rw [DpkgField.lines, hmore field hfield] at hin
    rw [List.mem_singleton.mp hin]
    exact nonBlank_fieldLine field

variable (hreads : ReadsAll texts)

include hreads

theorem oneLine_package (hline : '\n' ∉ value) (hvalue : texts.value packageKey value) :
    OneLine value := by
  by_contra hone
  obtain ⟨hpv, -, -⟩ := packageKey_ne
  obtain ⟨hfirst, hstrip⟩ := strip_firstLine hone
  obtain ⟨word, hne, hchar, -⟩ := exists_word []
  have hword : IsWord word := ⟨hne, hchar⟩
  have hread := reading_of_fields hreads [oneField packageKey value isName_package hline,
    oneField versionKey word isName_version hword.unbroken] (by simp [oneField, hpv])
    (by simp [oneField]) (by simp [oneField])
    (by simpa [oneField] using ⟨hvalue, texts.word versionKey (by simp) word hne hchar⟩)
    (by simpa [valueOf_cons, oneField] using hstrip)
    (by simpa [valueOf_cons, oneField, hpv, hword.strip] using hne)
  have hname := hread.first packageKey (by simp)
  simp only [DpkgField.lines, oneField, List.flatMap_cons, List.singleton_append,
    List.findSome?_cons, firstDeclared_own isName_package, valueOf_cons, if_true,
    Option.getD_some] at hname
  exact hfirst hname

theorem oneLine_version (hline : '\n' ∉ value) (hvalue : texts.value versionKey value) :
    OneLine value := by
  by_contra hone
  obtain ⟨hpv, -, -⟩ := packageKey_ne
  obtain ⟨hfirst, hstrip⟩ := strip_firstLine hone
  obtain ⟨word, hne, hchar, -⟩ := exists_word []
  have hword : IsWord word := ⟨hne, hchar⟩
  have hread := reading_of_fields hreads [oneField packageKey word isName_package hword.unbroken,
    oneField versionKey value isName_version hline] (by simp [oneField, hpv]) (by simp [oneField])
    (by simp [oneField])
    (by simpa [oneField] using ⟨texts.word packageKey (by simp) word hne hchar, hvalue⟩)
    (by simpa [valueOf_cons, oneField, hword.strip] using hne)
    (by simpa [valueOf_cons, oneField, hpv] using hstrip)
  have hnumber := hread.first versionKey (by simp)
  simp only [DpkgField.lines, oneField, List.flatMap_cons, List.singleton_append,
    List.findSome?_cons, firstDeclared_word isName_package hword, firstDeclared_own isName_version,
    valueOf_cons, if_neg hpv, if_true, Option.getD_some] at hnumber
  exact hfirst hnumber

/-- The probe reports what is installed, with a package and a version or not. -/
theorem probed_of_unpackaged (hhas : texts.Has stanza)
    (hmore : ∀ field ∈ stanza.fields, field.more = [])
    (hlast : (stanza.fields.getLast stanza.ne_nil).name = statusKey ∧
      (stanza.fields.getLast stanza.ne_nil).value = installedWord)
    (hpackage : stanza.package = none) : False := by
  have hprobed := (stanza_of_readsAll hreads hhas fun line hmem => by
    obtain ⟨field, hfield, hin⟩ := List.mem_flatMap.mp hmem
    rw [DpkgField.lines, hmore field hfield] at hin
    rw [List.mem_singleton.mp hin]
    exact nonBlank_fieldLine field).2
  have hreverse : ∃ more, stanza.lines.reverse = fieldLine statusKey installedWord :: more := by
    have hsplit := List.dropLast_append_getLast stanza.ne_nil
    rw [DpkgStanza.lines, ← hsplit, List.flatMap_append, List.flatMap_singleton, DpkgField.lines,
      hmore _ (List.getLast_mem stanza.ne_nil), hlast.1, hlast.2, List.reverse_append,
      List.reverse_singleton]
    exact ⟨_, rfl⟩
  obtain ⟨more, hreverse⟩ := hreverse
  have hinstalled : installedWord ∈ textWords
      ((stanza.lines.reverse.findSome? (lastDeclared statusKey)).getD []) := by
    have hword : installedWord ∈ textWords installedWord := by decide
    rw [hreverse, List.findSome?_cons, lastDeclared_word isName_status isWord_installed, if_pos rfl]
    exact hword
  rw [hpackage, ite_self, probedPackage_lines, if_pos hinstalled] at hprobed
  cases hprobed

/-- Without a version the probe reports an empty one. -/
theorem version_ne (hline : '\n' ∉ value) (hvalue : texts.value versionKey value) :
    stripChars value ≠ [] := by
  intro hblank
  obtain ⟨hpv, hps, hvs⟩ := packageKey_ne
  have hone := oneLine_version hreads hline hvalue
  obtain ⟨word, hne, hchar, -⟩ := exists_word []
  have hword : IsWord word := ⟨hne, hchar⟩
  let stanza := versioned [oneField packageKey word isName_package hword.unbroken,
    oneField versionKey value isName_version hline,
    oneField statusKey installedWord isName_status isWord_installed.unbroken]
    (by simp [oneField, hpv, hps, hvs]) (by simp [oneField])
  have hname : stanza.trimmed packageKey = word := by
    simp [stanza, DpkgStanza.trimmed, versioned, valueOf_cons, oneField, hword.strip]
  have hhas : texts.Has stanza := by
    refine ⟨?_, by simp [stanza, versioned, oneField], fun _ => .inl (hname ▸ hne)⟩
    simpa [stanza, versioned, oneField] using ⟨texts.word packageKey (by simp) word hne hchar,
      hvalue, texts.word statusKey (by simp) _ isWord_installed.ne_nil isWord_installed.char⟩
  have hpackage : stanza.package = none := by
    refine if_neg fun h => h.2 ?_
    simp [stanza, DpkgStanza.trimmed, versioned, valueOf_cons, oneField, hpv, hblank]
  exact probed_of_unpackaged hreads hhas (by simp [stanza, versioned, oneField])
    (by simp [stanza, versioned, oneField]) hpackage

/-- A status hides nothing, and is seen as it was written. -/
theorem plainStatus_of_readsAll (hline : '\n' ∉ value) (hvalue : texts.value statusKey value) :
    PlainStatus value := by
  obtain ⟨hpv, hps, hvs⟩ := packageKey_ne
  obtain ⟨word, hne, hchar, hfresh⟩ := exists_word
    ([packageKey, versionKey].filterMap (firstDeclared · (fieldLine statusKey value)) ++
      [packageKey, versionKey].filterMap (lastDeclared · (fieldLine statusKey value)))
  have hword : IsWord word := ⟨hne, hchar⟩
  rw [List.mem_append, not_or, List.mem_filterMap, List.mem_filterMap] at hfresh
  let status := oneField statusKey value isName_status hline
  let package := oneField packageKey word isName_package hword.unbroken
  let version := oneField versionKey word isName_version hword.unbroken
  have hvalues : texts.value packageKey word ∧ texts.value versionKey word :=
    ⟨texts.word packageKey (by simp) word hne hchar, texts.word versionKey (by simp) word hne hchar⟩
  have hwritten : ∀ key ∈ [packageKey, versionKey],
      stripChars ((valueOf key [status, package, version]).getD []) = word ∧
        stripChars ((valueOf key [package, version, status]).getD []) = word := by
    refine List.forall_mem_cons.mpr ⟨?_, List.forall_mem_singleton.mpr ?_⟩
    · simp [valueOf_cons, status, package, oneField, hps.symm, hword.strip]
    · simp [valueOf_cons, status, package, version, oneField, hvs.symm, hpv, hword.strip]
  obtain ⟨hpackage, hversion⟩ := List.forall_mem_cons.mp hwritten
  replace hversion := List.forall_mem_singleton.mp hversion
  have hbefore := reading_of_fields hreads [status, package, version]
    (by simp [status, package, version, oneField, hpv, hps.symm, hvs.symm])
    (by simp [version, oneField]) (by simp [status, package, version, oneField])
    (by simpa [status, package, version, oneField] using ⟨hvalue, hvalues⟩)
    (hpackage.1.symm ▸ hne) (hversion.1.symm ▸ hne)
  have hbehind := reading_of_fields hreads [package, version, status]
    (by simp [status, package, version, oneField, hpv, hps, hvs])
    (by simp [version, oneField]) (by simp [status, package, version, oneField])
    (by simpa [status, package, version, oneField] using ⟨hvalues.1, hvalues.2, hvalue⟩)
    (hpackage.2.symm ▸ hne) (hversion.2.symm ▸ hne)
  have hlast : [package, version, status].flatMap DpkgField.lines =
      [fieldLine packageKey word, fieldLine versionKey word, fieldLine statusKey value] := rfl
  have hstatus : Installed [package, version, status] ↔ isInstalled value := by
    rw [Installed]
    simp [valueOf_cons, package, version, status, oneField, hps, hvs]
  obtain ⟨seen, hseen⟩ := Option.isSome_iff_exists.mp (isSome_lastDeclared_status value)
  refine ⟨fun key hkey => ?_, ?_, fun hinstalled key hkey => ?_⟩
  · have hread := hbefore.first key hkey
    rw [(hwritten key hkey).1] at hread
    cases hfound : firstDeclared key (fieldLine statusKey value) with
    | none => rfl
    | some found =>
        have hfirst : [status, package, version].flatMap DpkgField.lines =
            [fieldLine statusKey value, fieldLine packageKey word, fieldLine versionKey word] := rfl
        rw [hfirst, List.findSome?_cons, hfound, Option.getD_some] at hread
        exact absurd ⟨key, hkey, hfound.trans (congrArg some hread)⟩ hfresh.1
  · have hread := hbehind.installed
    rw [hstatus, hlast] at hread
    simpa only [List.reverse_cons, List.reverse_nil, List.nil_append, List.cons_append,
      List.findSome?_cons, hseen] using hread
  · have hread := hbehind.last (hstatus.mpr hinstalled) key hkey
    rw [(hwritten key hkey).2, hlast] at hread
    cases hfound : lastDeclared key (fieldLine statusKey value) with
    | none => rfl
    | some found =>
        simp only [List.reverse_cons, List.reverse_nil, List.nil_append, List.cons_append,
          List.findSome?_cons, hfound, Option.getD_some] at hread
        exact absurd ⟨key, hkey, hfound.trans (congrArg some hread)⟩ hfresh.2

/-- A line behind the three fields is taken for none of them. -/
theorem quiet_of_stanzas {line : List Char} (hblank : NonBlank line)
    (hstanza : ∀ word status, IsWord word → IsWord status → ∃ stanza : DpkgStanza,
      texts.Has stanza ∧ stanza.lines = [fieldLine packageKey word, fieldLine versionKey word,
        fieldLine statusKey status, line] ∧ valueOf packageKey stanza.fields = some word ∧
      valueOf versionKey stanza.fields = some word ∧
      valueOf statusKey stanza.fields = some status) : Quiet line := by
  obtain ⟨hpv, hps, hvs⟩ := packageKey_ne
  obtain ⟨word, hne, hchar, hfresh⟩ := exists_word
    ([packageKey, versionKey].filterMap (lastDeclared · line))
  have hword : IsWord word := ⟨hne, hchar⟩
  rw [List.mem_filterMap] at hfresh
  -- The status decides whether the probe reports the package.
  have hread : ∀ status, IsWord status →
      (isInstalled status → ∀ key ∈ [packageKey, versionKey], lastDeclared key line = none) ∧
      ∀ found, lastDeclared statusKey line = some found →
        (installedWord ∈ textWords found ↔ isInstalled status) := by
    intro status hstatus
    obtain ⟨stanza, hhas, hlines, hpackage, hversion, hvalue⟩ := hstanza word status hword hstatus
    have htrimmed : ∀ key ∈ [packageKey, versionKey],
        stripChars ((valueOf key stanza.fields).getD []) = word := by
      refine List.forall_mem_cons.mpr ⟨?_, List.forall_mem_singleton.mpr ?_⟩
      · rw [hpackage, Option.getD_some, hword.strip]
      · rw [hversion, Option.getD_some, hword.strip]
    have hinstalled : Installed stanza.fields ↔ isInstalled status := by
      rw [Installed, hvalue]
      simp
    have hnonblank : ∀ other ∈ stanza.lines, NonBlank other := by
      rw [hlines]
      simp only [List.forall_mem_cons]
      exact ⟨nonBlank_fieldLine (oneField packageKey word isName_package hword.unbroken),
        nonBlank_fieldLine (oneField versionKey word isName_version hword.unbroken),
        nonBlank_fieldLine (oneField statusKey status isName_status hstatus.unbroken), hblank,
        List.forall_mem_nil _⟩
    have hreading := reading_of_readsAll hreads hhas hnonblank
      (by rw [DpkgStanza.trimmed, htrimmed packageKey (by simp)]; exact hne)
      (by rw [DpkgStanza.trimmed, htrimmed versionKey (by simp)]; exact hne)
    have hreverse : (stanza.fields.flatMap DpkgField.lines).reverse = [line,
        fieldLine statusKey status, fieldLine versionKey word, fieldLine packageKey word] := by
      rw [← DpkgStanza.lines, hlines]
      rfl
    refine ⟨fun hends key hkey => ?_, fun found hfound => ?_⟩
    · have hlast := hreading.last (hinstalled.mpr hends) key hkey
      rw [htrimmed key hkey, hreverse, List.findSome?_cons] at hlast
      cases hfound : lastDeclared key line with
      | none => rfl
      | some found =>
          rw [hfound, Option.getD_some] at hlast
          exact absurd ⟨key, hkey, hfound.trans (congrArg some hlast)⟩ hfresh
    · have hseen := hreading.installed
      rw [hinstalled, hreverse, List.findSome?_cons, hfound] at hseen
      exact hseen
  have hno : IsWord ['n', 'o'] := ⟨by decide, by decide⟩
  obtain ⟨hkeys, hends⟩ := hread installedWord isWord_installed
  have hstatus : lastDeclared statusKey line = none := by
    cases hfound : lastDeclared statusKey line with
    | none => rfl
    | some found =>
        have hin := (hends found hfound).mpr (by decide)
        have hout := ((hread _ hno).2 found hfound).mp hin
        exact absurd hout (by decide)
  have hnone := hkeys (by decide)
  intro key hkey
  rcases List.mem_cons.mp hkey with rfl | hkey
  · exact hnone _ (by simp)
  · rcases List.mem_cons.mp hkey with rfl | hkey
    · exact hnone _ (by simp)
    · rw [List.mem_singleton.mp hkey]
      exact hstatus

/-- A value of another field hides none of the three. -/
theorem quiet_value (field : DpkgField) (hvalue : texts.value field.name field.value)
    (hpackage : field.name ≠ packageKey) (hversion : field.name ≠ versionKey)
    (hstatus : field.name ≠ statusKey) : Quiet (fieldLine field.name field.value) := by
  obtain ⟨hpv, hps, hvs⟩ := packageKey_ne
  refine quiet_of_stanzas hreads (nonBlank_fieldLine field) fun word status hword hends => ?_
  refine ⟨versioned [oneField packageKey word isName_package hword.unbroken,
    oneField versionKey word isName_version hword.unbroken,
    oneField statusKey status isName_status hends.unbroken,
    oneField field.name field.value field.isName field.value_line]
    (by simp [oneField, hpv, hps, hvs, hpackage.symm, hversion.symm, hstatus.symm])
    (by simp [oneField]), ⟨?_, by simp [versioned, oneField], fun _ => .inl ?_⟩, rfl, ?_, ?_, ?_⟩
  · simpa [versioned, oneField] using ⟨texts.word packageKey (by simp) word hword.ne_nil hword.char,
      texts.word versionKey (by simp) word hword.ne_nil hword.char,
      texts.word statusKey (by simp) status hends.ne_nil hends.char, hvalue⟩
  · simpa [DpkgStanza.trimmed, versioned, valueOf_cons, oneField, hword.strip] using hword.ne_nil
  · simp [versioned, valueOf_cons, oneField]
  · simp [versioned, valueOf_cons, oneField, hpv]
  · simp [versioned, valueOf_cons, oneField, hps, hvs]

variable {field : DpkgField} {line : List Char}

/-- A line that continues a field hides none of the three. -/
theorem quiet_continuation (hmem : line ∈ field.more) (hline : texts.continuation line)
    (hblank : NonBlank line) : Quiet line := by
  obtain ⟨hpv, hps, hvs⟩ := packageKey_ne
  refine quiet_of_stanzas hreads hblank fun word status hword hends => ?_
  let continued : DpkgField :=
    ⟨statusKey, status, [line], isName_status.ne_nil, isName_status.char, hends.unbroken,
      List.forall_mem_singleton.mpr (field.more_line line hmem)⟩
  refine ⟨versioned [oneField packageKey word isName_package hword.unbroken,
    oneField versionKey word isName_version hword.unbroken, continued]
    (by simp [oneField, continued, hpv, hps, hvs]) (by simp [oneField]),
    ⟨?_, by simpa [versioned, oneField, continued] using hline, fun _ => .inl ?_⟩, rfl, ?_, ?_, ?_⟩
  · simpa [versioned, oneField, continued] using
      ⟨texts.word packageKey (by simp) word hword.ne_nil hword.char,
        texts.word versionKey (by simp) word hword.ne_nil hword.char,
        texts.word statusKey (by simp) status hends.ne_nil hends.char⟩
  · simpa [DpkgStanza.trimmed, versioned, valueOf_cons, oneField, hword.strip] using hword.ne_nil
  · simp [versioned, valueOf_cons, oneField]
  · simp [versioned, valueOf_cons, oneField, hpv]
  · simp [versioned, valueOf_cons, oneField, continued, hps, hvs]

/-- At a blank line the inventory ends the stanza. -/
theorem continuation_ne (hmem : line ∈ field.more) (hline : texts.continuation line) :
    stripChars line ≠ [] := by
  intro hnil
  have hspace := stripChars_eq_nil_iff.mp hnil
  obtain ⟨hpv, hps, hvs⟩ := packageKey_ne
  obtain ⟨word, hne, hchar, -⟩ := exists_word []
  have hword : IsWord word := ⟨hne, hchar⟩
  let continued : DpkgField :=
    ⟨packageKey, word, [line], isName_package.ne_nil, isName_package.char, hword.unbroken,
      List.forall_mem_singleton.mpr (field.more_line line hmem)⟩
  let stanza := versioned [continued, oneField versionKey word isName_version hword.unbroken]
    (by simp [oneField, continued, hpv]) (by simp [oneField])
  have hname : stanza.trimmed packageKey = word := by
    simp [stanza, DpkgStanza.trimmed, versioned, valueOf_cons, continued, hword.strip]
  have hnumber : stanza.trimmed versionKey = word := by
    simp [stanza, DpkgStanza.trimmed, versioned, valueOf_cons, continued, oneField, hpv,
      hword.strip]
  have hhas : texts.Has stanza := by
    refine ⟨?_, by simpa [stanza, versioned, oneField, continued] using hline,
      fun _ => .inl (hname ▸ hne)⟩
    simpa [stanza, versioned, oneField, continued] using
      ⟨texts.word packageKey (by simp) word hne hchar,
        texts.word versionKey (by simp) word hne hchar⟩
  have hread := (hreads [stanza] [] (List.forall_mem_singleton.mpr hhas) List.mem_cons_self).1
  have hpackage : stanza.package = some ⟨word, word⟩ := by
    have hboth : stanza.package =
        some ⟨stanza.trimmed packageKey, stanza.trimmed versionKey⟩ :=
      if_pos ⟨hname ▸ hne, hnumber ▸ hne⟩
    rw [hboth, hname, hnumber]
  have htext : dpkgText [stanza] [] = fieldLine packageKey word ++
      (('\n' :: line ++ ['\n']) ++ fieldLine versionKey word) := by
    have hlines : stanza.lines =
        [fieldLine packageKey word, line, fieldLine versionKey word] := rfl
    rw [dpkgText, List.map_singleton, hlines, stanzasText]
    simp [List.intercalate_cons_cons]
  have hsep : blankLines (('\n' :: line ++ ['\n']) ++ fieldLine versionKey word) =
      some ('\n' :: line ++ ['\n']).length := by
    have htake : ((line ++ ['\n']) ++ fieldLine versionKey word).takeWhile isSpace =
        line ++ ['\n'] := by
      rw [List.takeWhile_append_of_pos, isName_version.takeWhile, List.append_nil]
      intro c hc
      rcases List.mem_append.mp hc with hc | hc
      · exact hspace c hc
      · rw [List.mem_singleton.mp hc]
        rfl
    have hlast : ((line ++ ['\n']).reverse.dropWhile (· ≠ '\n')).length = line.length + 1 := by
      rw [List.reverse_append, List.reverse_singleton, List.singleton_append,
        List.dropWhile_cons_of_neg (by simp), List.length_cons, List.length_reverse]
    rw [List.cons_append, List.cons_append, blankLines, htake,
      if_pos ⟨rfl, List.mem_append_right _ (List.mem_singleton_self _)⟩, hlast]
    simp [Nat.add_comm]
  have hsplit : splitMatches blankLines 0 (dpkgText [stanza] []) =
      [['\n'].intercalate [fieldLine packageKey word],
        ['\n'].intercalate [fieldLine versionKey word]] := by
    have hunbroken : ∀ {name : List Char}, IsName name → '\n' ∉ fieldLine name word := by
      intro name hname hmem
      rcases List.mem_append.mp hmem with hmem | hmem
      · exact absurd (hname.char _ hmem).1 (by decide)
      · rcases List.mem_cons.mp hmem with hcolon | hmem
        · exact absurd hcolon (by decide)
        · exact hword.unbroken hmem
    have htail : splitMatches blankLines 0 (fieldLine versionKey word) =
        [fieldLine versionKey word] := by
      have hline := splitMatches_line stanzaBreak_blankLines (hunbroken isName_version) []
      rw [List.append_nil] at hline
      rw [hline]
      simp [splitMatches]
    rw [htext, splitMatches_line stanzaBreak_blankLines (hunbroken isName_package),
      splitMatches_of_some (by simp) hsep, htail]
    simp
  have hfirst : statusPackage (['\n'].intercalate [fieldLine packageKey word]) = none := by
    rw [statusPackage_lines, List.findSome?_singleton, List.findSome?_singleton,
      firstDeclared_word isName_package hword, firstDeclared_word isName_package hword,
      if_neg hpv]
    exact if_neg fun h => h.2 rfl
  have hsecond : statusPackage (['\n'].intercalate [fieldLine versionKey word]) = none := by
    rw [statusPackage_lines, List.findSome?_singleton, List.findSome?_singleton,
      firstDeclared_word isName_version hword, firstDeclared_word isName_version hword,
      if_neg hpv.symm]
    exact if_neg fun h => h.1 rfl
  rw [parseDpkgStatus, hsplit, List.filterMap_cons, hfirst, List.filterMap_cons, hsecond,
    List.filterMap_nil] at hread
  rw [List.filterMap_cons, hpackage] at hread
  cases hread

/-- The probe reports an installed package without a name, if the pattern allows it. -/
theorem named_of_readsAll : ¬ texts.nameless := by
  intro hnameless
  obtain ⟨hpv, hps, hvs⟩ := packageKey_ne
  obtain ⟨word, hne, hchar, -⟩ := exists_word []
  have hword : IsWord word := ⟨hne, hchar⟩
  let stanza := versioned [oneField versionKey word isName_version hword.unbroken,
    oneField statusKey installedWord isName_status isWord_installed.unbroken]
    (by simp [oneField, hvs]) (by simp [oneField])
  have hhas : texts.Has stanza := by
    refine ⟨?_, by simp [stanza, versioned, oneField], fun _ => .inr hnameless⟩
    simpa [stanza, versioned, oneField] using ⟨texts.word versionKey (by simp) word hne hchar,
      texts.word statusKey (by simp) _ isWord_installed.ne_nil isWord_installed.char⟩
  have hpackage : stanza.package = none := by
    refine if_neg fun h => h.1 ?_
    simp [stanza, DpkgStanza.trimmed, versioned, oneField, hpv.symm, hps.symm, valueOf, find,
      stripChars]
  exact probed_of_unpackaged hreads hhas (by simp [stanza, versioned, oneField])
    (by simp [stanza, versioned, oneField]) hpackage

/-- Of a vocabulary that is read as it was written every text is harmless. -/
theorem harmless_of_readsAll : texts.Harmless where
  value field hvalue := by
    rw [HarmlessValue]
    split
    · next hname => exact oneLine_package hreads field.value_line (hname ▸ hvalue)
    · split
      · next hname =>
          rw [hname] at hvalue
          exact ⟨oneLine_version hreads field.value_line hvalue,
            version_ne hreads field.value_line hvalue⟩
      · split
        · next hname => exact plainStatus_of_readsAll hreads field.value_line (hname ▸ hvalue)
        · next hpackage hversion hstatus =>
            exact quiet_value hreads field hvalue hpackage hversion hstatus
  continuation field line hmem hline := by
    have hne := continuation_ne hreads hmem hline
    exact ⟨hne, quiet_continuation hreads hmem hline (nonBlank_of_strip hne)⟩
  named := named_of_readsAll hreads

end Harm


end PqcReadiness.Packages
