import PqcReadiness.Config.Includes

/-!
# Two readers of one section

`effective_settings` and `parse_crypto_config_openssl` on a configuration whose TLS settings stand
in one section.  The first writes the section out and reads the lines that start with `Groups`; the
second takes the key in any case, and `Curves` for it.  `readers_report_alike_iff` says when they report
groups alike, and then they judge alike.

## Strategy

The parser puts only keys and values into sections that come out of a written line as they went in
(`settingText_parseOpensslCnf`), so the first reader splits the value under `Groups`
(`groups_settingLines`), and the second the value under a key that is one of the two but for case
(`groupsText_profileSettings`).  A name with a PQC token is found in the list if it is found in the
text of the list, for either way to split it, so only the question remains whether something is
listed.
-/

namespace PqcReadiness.Config

open PqcReadiness.Lib

/-! ## Keys and values of a parsed configuration -/

/-- A key as the parser makes it. -/
structure KeyText (key : Chars) : Prop where
  line : IsLine key
  noEquals : '=' ∉ key
  ne : key ≠ []
  first : ∀ c ∈ key.head?, isSpace c = false
  last : ∀ c ∈ key.getLast?, isSpace c = false

/-- All settings have such keys, and values of one line. -/
def SettingTexts (body : Dict Chars Chars) : Prop :=
  ∀ key value, body.get? key = some value → KeyText key ∧ IsLine value

theorem mem_of_mem_rstripSpace {text : Chars} {c : Char} (hc : c ∈ rstripSpace text) : c ∈ text := by
  have hmem := (List.dropWhile_suffix isSpace).subset (List.mem_reverse.mp hc)
  exact List.mem_reverse.mp hmem

theorem rstripSpace_isPrefix (text : Chars) : rstripSpace text <+: text := by
  rw [rstripSpace, ← List.reverse_suffix, List.reverse_reverse]
  exact List.dropWhile_suffix isSpace

theorem mem_of_mem_stripChars {text : Chars} {c : Char} (hc : c ∈ stripChars text) : c ∈ text := by
  have hmem := (List.dropWhile_suffix isSpace).subset (List.mem_reverse.mp hc)
  exact (List.dropWhile_suffix isSpace).subset (List.mem_reverse.mp hmem)

theorem mem_of_mem_stripComment {text : Chars} {c : Char} (hc : c ∈ stripComment text) :
    c ∈ text := by
  fun_induction stripComment text with
  | case1 d rest ih =>
      rcases List.mem_cons.mp hc with rfl | hrest
      · exact List.mem_cons_of_mem _ List.mem_cons_self
      · exact List.mem_cons_of_mem _ (List.mem_cons_of_mem _ (ih hrest))
  | case2 => cases hc
  | case3 d rest _ _ ih =>
      rcases List.mem_cons.mp hc with rfl | hrest
      · exact List.mem_cons_self
      · exact List.mem_cons_of_mem _ (ih hrest)
  | case4 => cases hc

theorem mem_of_mem_unquote {value : Chars} {c : Char} (hc : c ∈ unquote value) : c ∈ value := by
  rw [unquote] at hc
  split at hc
  · split at hc
    · exact List.mem_of_mem_drop (List.mem_of_mem_dropLast hc)
    · exact hc
  · exact hc

theorem head?_dropWhile {p : Char → Bool} {text : Chars} :
    ∀ c ∈ (text.dropWhile p).head?, p c = false := by
  intro c hc
  have hnot := List.head?_dropWhile_not p text
  rw [Option.mem_def] at hc
  rw [hc] at hnot
  exact hnot

theorem keyText_settingOf {line key value : Chars} (hline : IsLine line)
    (hsetting : settingOf line = some (key, value)) : KeyText key ∧ IsLine value := by
  have hbody : ∀ c ∈ line.dropWhile isSpace, c ∈ line := (List.dropWhile_suffix isSpace).subset
  rw [settingOf] at hsetting
  split at hsetting
  · cases hsetting
  · next hkey =>
      rw [not_or] at hkey
      split at hsetting
      · next rest hrest =>
          obtain ⟨rfl, rfl⟩ := Prod.mk.inj (Option.some.inj hsetting)
          have hstarts := ( rstripSpace_isPrefix _).trans
            (List.takeWhile_prefix (p := (· ≠ '=')) (l := line.dropWhile isSpace))
          refine ⟨⟨?_, ?_, hkey.1, ?_, ?_⟩, ?_⟩
          · exact fun c hc => hline c (hbody c (hstarts.subset hc))
          · intro hequals
            have hmem := List.mem_takeWhile_imp (mem_of_mem_rstripSpace hequals)
            exact absurd hmem (by decide)
          · intro c hc
            obtain ⟨first, more, hcons⟩ := List.exists_cons_of_ne_nil hkey.1
            rw [hcons] at hc hstarts
            obtain ⟨tail, htail⟩ := hstarts
            refine @head?_dropWhile isSpace line c ?_
            rw [← htail]
            exact hc
          · intro c hc
            rw [rstripSpace, List.getLast?_reverse] at hc
            exact head?_dropWhile c hc
          · intro c hc
            have hmem := mem_of_mem_stripChars (mem_of_mem_unquote hc)
            have hafter : c ∈ (line.dropWhile isSpace).dropWhile (· ≠ '=') := by
              rw [hrest]
              exact List.mem_cons_of_mem _ hmem
            exact hline c (hbody c ((List.dropWhile_suffix _).subset hafter))
      · cases hsetting

theorem keyText_cnfLine {raw key value : Chars} (hline : IsLine raw)
    (hsetting : cnfLine raw = .setting key value) : KeyText key ∧ IsLine value := by
  have hstripped : IsLine (rstripSpace (stripComment raw)) :=
    fun c hc => hline c (mem_of_mem_stripComment (mem_of_mem_rstripSpace hc))
  rw [cnfLine] at hsetting
  split at hsetting
  · cases hsetting
  · split at hsetting
    · cases hsetting
    · split at hsetting
      · cases hsetting
      · split at hsetting
        · next hfound =>
            obtain ⟨rfl, rfl⟩ := CnfLine.setting.inj hsetting
            exact keyText_settingOf hstripped hfound
        · cases hsetting

/-- All sections have settings as the parser makes them. -/
def SectionTexts (sections : CnfSections) : Prop :=
  ∀ name body, sections.get? name = some body → SettingTexts body

theorem settingTexts_getD {sections : CnfSections} (hsections : SectionTexts sections)
    (name : Chars) : SettingTexts ((sections.get? name).getD .empty) := by
  cases hget : sections.get? name with
  | none => exact nofun
  | some body => exact hsections name body hget

theorem sectionTexts_read {map : CnfMap} {raw : Chars} (hline : IsLine raw)
    (hsections : SectionTexts map.sections) :
    SectionTexts (map.read (cnfLine raw)).sections := by
  cases hread : cnfLine raw with
  | skipped => exact hsections
  | «include» target => exact hsections
  | header name =>
      intro other body hbody
      rw [CnfMap.read, Dict.get?_update] at hbody
      split at hbody
      · obtain rfl := Option.some.inj hbody
        exact settingTexts_getD hsections name
      · exact hsections other body hbody
  | setting key value =>
      intro other body hbody
      rw [CnfMap.read, Dict.get?_update] at hbody
      split at hbody
      · obtain rfl := Option.some.inj hbody
        intro k v hget
        rw [Dict.get?_update] at hget
        split at hget
        · next hsame =>
            obtain rfl := Option.some.inj hget
            rw [hsame]
            exact keyText_cnfLine hline hread
        · exact settingTexts_getD hsections map.current k v hget
      · exact hsections other body hbody

/-- **A parsed configuration has such settings only.** -/
theorem settingText_parseOpensslCnf (host : CnfHost) (path : String) :
    SectionTexts (parseOpensslCnf host path).sections := by
  have hopened : ∀ path state, path ∉ state.seen → SectionTexts state.map.sections →
      SectionTexts (opened host path state).map.sections := by
    intro path state _ hstate
    rw [opened_map]
    exact hstate
  have hempty : SectionTexts ({} : CnfState).map.sections := nofun
  exact @load_keeps host (fun state => SectionTexts state.map.sections) hopened
    (fun _ _ hline hstate => sectionTexts_read hline hstate) (fun _ _ hstate => hstate) _ path _
    hempty

/-! ## The first reader -/

/-- Something else than white space stands in front of the equals sign. -/
theorem afterEquals_append {text rest : Chars} (hequals : '=' ∉ text)
    (hword : ∃ c ∈ text, isSpace c = false) : afterEquals (text ++ rest) = none := by
  have hne : text.dropWhile isSpace ≠ [] := by
    intro hnil
    obtain ⟨c, hc, hspace⟩ := hword
    rw [List.dropWhile_eq_nil_iff.mp hnil c hc] at hspace
    cases hspace
  obtain ⟨c, more, hmore⟩ := List.exists_cons_of_ne_nil hne
  have hc : c ≠ '=' := by
    rintro rfl
    refine hequals ((List.dropWhile_suffix isSpace).subset ?_)
    rw [hmore]
    exact List.mem_cons_self
  rw [afterEquals, List.dropWhile_append, hmore]
  simp [hc]

/-- A line that starts with `Groups` has a key that does. -/
theorem groups_prefix_key {key value : Chars} (hstarts : "Groups".toList <+: key ++ " = ".toList ++ value) :
    "Groups".toList <+: key := by
  rw [List.append_assoc] at hstarts
  rcases List.prefix_or_prefix_of_prefix hstarts (List.prefix_append key _) with h | h
  · exact h
  · obtain ⟨tail, htail⟩ := h
    rw [← htail, List.prefix_append_right_inj] at hstarts
    cases tail with
    | nil =>
        rw [List.append_nil] at htail
        rw [htail]
    | cons d tail =>
        obtain ⟨rfl, _⟩ := List.cons_prefix_cons.mp hstarts
        have hspace : ' ' ∈ "Groups".toList := by
          rw [← htail]
          exact List.mem_append_right _ List.mem_cons_self
        exact absurd hspace (by decide)

/-- Only the key `Groups` is written out as a line that sets groups. -/
theorem key_of_matchSetting {key value groups : Chars} (hkey : KeyText key)
    (hmatch : matchSetting (key ++ " = ".toList ++ value) = some (.groups, groups)) :
    key = "Groups".toList := by
  have hstart : (key ++ " = ".toList ++ value).dropWhile isSpace = key ++ " = ".toList ++ value := by
    obtain ⟨c, rest, rfl⟩ := List.exists_cons_of_ne_nil hkey.ne
    have hc : isSpace c = false := hkey.first c rfl
    exact List.dropWhile_cons_of_neg (by simp [hc])
  unfold matchSetting at hmatch
  simp only [hstart] at hmatch
  split at hmatch
  · next hgroups =>
      obtain ⟨tail, htail⟩ := groups_prefix_key (List.isPrefixOf_iff_prefix.mp hgroups)
      subst htail
      by_contra hne
      have htail : tail ≠ [] := by
        rintro rfl
        exact hne (List.append_nil _)
      have hdrop : ("Groups".toList ++ tail ++ " = ".toList ++ value).drop "Groups".length =
          tail ++ (" = ".toList ++ value) := by
        rw [List.append_assoc, List.append_assoc]
        rfl
      have hequals : '=' ∉ tail := fun h => hkey.noEquals (List.mem_append_right _ h)
      have hword : ∃ c ∈ tail, isSpace c = false := by
        refine ⟨tail.getLast htail, List.getLast_mem _, hkey.last _ ?_⟩
        rw [List.getLast?_append_of_ne_nil _ htail]
        exact List.getLast?_eq_some_getLast _
      rw [hdrop, afterEquals_append hequals hword] at hmatch
      cases hmatch
  · split at hmatch
    · obtain ⟨_, _, heq⟩ := Option.map_eq_some_iff.mp hmatch
      cases heq
    · cases hmatch

theorem matchSetting_groupsLine (value : Chars) :
    matchSetting ("Groups".toList ++ " = ".toList ++ value) =
      some (.groups, value.dropWhile isSpace) := by
  have hafter : afterEquals (" = ".toList ++ value) = some (value.dropWhile isSpace) := by
    show some ((' ' :: value).dropWhile isSpace) = _
    rw [List.dropWhile_cons, if_pos (by decide)]
  show (afterEquals (" = ".toList ++ value)).map (PolicyKey.groups, ·) = _
  rw [hafter]
  rfl

/-- White space in front of a list makes no difference. -/
theorem splitTokens_dropWhile (value : Chars) :
    splitTokens (value.dropWhile isSpace) [':', '/'] = splitTokens value [':', '/'] := by
  induction value with
  | nil => rfl
  | cons c rest ih =>
      rw [List.dropWhile_cons]
      split
      · next hspace =>
          have hsep : [':', '/'].contains c = false := by
            by_contra hsep
            rw [Bool.not_eq_false, List.contains_iff_mem] at hsep
            have hnone : ∀ d ∈ [':', '/'], isSpace d = false := by decide
            rw [hnone c hsep] at hspace
            cases hspace
          obtain ⟨first, more, hwords⟩ := List.exists_cons_of_ne_nil
            (splitWhere_ne_nil (fun c => [':', '/'].contains c) rest)
          have hstrip : stripChars (c :: first) = stripChars first := by
            rw [stripChars, stripChars, List.dropWhile_cons_of_pos hspace]
          rw [ih, splitTokens, splitTokens, splitWhere, hwords, hsep]
          simp [hstrip]
      · rfl

/-- What a setting adds to the groups. -/
def groupsOf (entry : Chars × Chars) : List Chars :=
  if entry.1 = "Groups".toList then splitTokens entry.2 [':', '/'] else []

theorem readSetting_line {entry : Chars × Chars} (hkey : KeyText entry.1)
    (lists : List Chars × List Chars) :
    (readSetting lists (entry.1 ++ " = ".toList ++ entry.2)).1 = lists.1 ++ groupsOf entry := by
  by_cases hgroups : entry.1 = "Groups".toList
  · rw [groupsOf, if_pos hgroups, hgroups, readSetting, matchSetting_groupsLine]
    exact congrArg (lists.1 ++ ·) (splitTokens_dropWhile entry.2)
  · rw [groupsOf, if_neg hgroups, List.append_nil, readSetting]
    split
    · rfl
    · next hmatch => exact absurd (key_of_matchSetting hkey hmatch) hgroups
    · rfl

theorem foldl_readSetting (entries : List (Chars × Chars))
    (hkeys : ∀ entry ∈ entries, KeyText entry.1) (lists : List Chars × List Chars) :
    ((entries.map fun entry => entry.1 ++ " = ".toList ++ entry.2).foldl readSetting lists).1 =
      lists.1 ++ entries.flatMap groupsOf := by
  induction entries generalizing lists with
  | nil => exact (List.append_nil _).symm
  | cons entry rest ih =>
      obtain ⟨hkey, hrest⟩ := List.forall_mem_cons.mp hkeys
      rw [List.map_cons, List.foldl_cons, ih hrest, readSetting_line hkey, List.flatMap_cons,
        List.append_assoc]

theorem flatMap_groupsOf (entries : List (Chars × Chars)) (hnodup : (entries.map Prod.fst).Nodup) :
    entries.flatMap groupsOf = splitTokens ((find "Groups".toList entries).getD []) [':', '/'] := by
  induction entries with
  | nil => rfl
  | cons entry rest ih =>
      obtain ⟨key, value⟩ := entry
      obtain ⟨hnot, hrest⟩ := List.nodup_cons.mp hnodup
      rw [List.flatMap_cons, find, groupsOf]
      by_cases hkey : key = "Groups".toList
      · have hnone : rest.flatMap groupsOf = [] := by
          rw [List.flatMap_eq_nil_iff]
          intro other hother
          exact if_neg fun hsame =>
            hnot (List.mem_map.mpr ⟨other, hother, hsame.trans hkey.symm⟩)
        rw [if_pos hkey, if_pos hkey, hnone, List.append_nil]
        rfl
      · rw [if_neg hkey, if_neg hkey, ih hrest, List.nil_append]

/-- **The first reader splits the value under the key `Groups`.** -/
theorem groups_settingLines {body : Dict Chars Chars} (hbody : SettingTexts body) :
    (parseOpensslcnfBackend (settingLines body)).groups =
      splitTokens ((body.get? "Groups".toList).getD []) [':', '/'] := by
  have hentries : ∀ entry ∈ body.entries, KeyText entry.1 ∧ IsLine entry.2 :=
    fun entry hentry => hbody entry.1 entry.2 ((Dict.mem_entries_iff _).mp hentry)
  have hlines : splitLinesChars (settingLines body) =
      body.entries.map fun entry => entry.1 ++ " = ".toList ++ entry.2 := by
    refine splitLinesChars_intercalate .lf ?_ ?_
    · intro line hline
      obtain ⟨entry, hentry, rfl⟩ := List.mem_map.mp hline
      have hequals : IsLine " = ".toList := by
        show ∀ c ∈ " = ".toList, isLineBreak c = false
        decide
      intro c hc
      rcases List.mem_append.mp hc with hc | hc
      · rcases List.mem_append.mp hc with hc | hc
        · exact (hentries entry hentry).1.line c hc
        · exact hequals c hc
      · exact (hentries entry hentry).2 c hc
    · intro line hline
      obtain ⟨entry, hentry, rfl⟩ := List.mem_map.mp (List.mem_of_getLast? hline)
      simp
  have hfold := foldl_readSetting body.entries (fun entry hentry => (hentries entry hentry).1) ([], [])
  rw [parseOpensslcnfBackend, hlines]
  exact hfold.trans (flatMap_groupsOf body.entries body.nodup)

/-! ## The second reader -/

/-- The value under a key that is this one but for case, or nothing. -/
def spelled (canon : Chars) (body : Dict Chars Chars) : Chars :=
  ((body.entries.find? fun entry => canonKey entry.1 = some canon).map Prod.snd).getD []

/-- `openssl_conf`, `ssl_conf` and `system_default` name one section, and only that section has TLS
settings, with groups and curves at most once. -/
structure OneSection (sections : CnfSections) (name : Chars) (body : Dict Chars Chars) : Prop where
  named : ∃ init ssl,
    sectionValue sections (some "default".toList) "openssl_conf".toList = some init ∧
      sectionValue sections (some init) "ssl_conf".toList = some ssl ∧
      sectionValue sections (some ssl) "system_default".toList = some name
  found : sections.get? name = some body
  alone : ∀ other content, other ≠ name → sections.get? other = some content →
    ∀ key ∈ content.keys, canonKey key = none
  once : ∀ canon ∈ ["Groups".toList, "Curves".toList], ∀ key ∈ body.keys, ∀ other ∈ body.keys,
    canonKey key = some canon → canonKey other = some canon → key = other

section OneSection

variable {sections : CnfSections} {name : Chars} {body : Dict Chars Chars}

/-- A list with one part that is not empty starts with that part. -/
theorem head?_flatMap_of_one {α β : Type*} {f : α → List β} {xs : List α} {x : α} (hx : x ∈ xs)
    (hone : ∀ y ∈ xs, y = x ∨ f y = []) : (xs.flatMap f).head? = (f x).head? := by
  by_cases hempty : f x = []
  · have hall : xs.flatMap f = [] := by
      rw [List.flatMap_eq_nil_iff]
      intro y hy
      rcases hone y hy with rfl | h
      · exact hempty
      · exact h
    rw [hall, hempty]
  · induction xs with
    | nil => cases hx
    | cons y rest ih =>
        obtain ⟨hy, hrest⟩ := List.forall_mem_cons.mp hone
        rw [List.flatMap_cons]
        rcases hy with rfl | hnil
        · exact List.head?_append_of_ne_nil _ hempty
        · rw [hnil, List.nil_append]
          refine ih ?_ hrest
          rcases List.mem_cons.mp hx with rfl | hx
          · exact absurd hnil hempty
          · exact hx

/-- The settings of a profile are those of the one section. -/
theorem get?_profileSettings (hone : OneSection sections name body) (canon : Chars) :
    (profileSettings sections).get? canon =
      (body.entries.find? fun entry => canonKey entry.1 = some canon).map Prod.snd := by
  have hhead := @Dict.map_absorbAll_none Chars (Chars × Chars) Chars
    (fun old entry => old.getD entry.2) id Prod.snd (fun _ => rfl) (fun _ _ => rfl)
  simp only [Option.map_id_fun, id_eq] at hhead
  have hbody : body ∈ sections.values := (Dict.mem_values_iff _).mpr ⟨name, hone.found⟩
  rw [profileSettings, Dict.get?_collect, Dict.get?_empty, hhead, List.filter_flatMap,
    head?_flatMap_of_one hbody, List.head?_filter]
  · intro content hcontent
    obtain ⟨other, hother⟩ := (Dict.mem_values_iff _).mp hcontent
    by_cases hsame : other = name
    · left
      rw [hsame, hone.found] at hother
      exact (Option.some.inj hother).symm
    · right
      rw [List.filter_eq_nil_iff]
      intro entry hentry
      rw [hone.alone other content hsame hother entry.1 (List.mem_map_of_mem hentry)]
      simp

/-- **The second reader splits the value of the groups, or else of the curves, in any case.** -/
theorem groupsText_profileSettings (hone : OneSection sections name body) :
    groupsText (profileSettings sections) =
      if spelled "Groups".toList body ≠ [] then spelled "Groups".toList body
      else spelled "Curves".toList body := by
  rw [groupsText, get?_profileSettings hone, get?_profileSettings hone]
  rfl

theorem systemDefault_of_oneSection (hone : OneSection sections name body) :
    (effectiveSettings sections).groupsConfigured =
      namesOrNone (parseOpensslcnfBackend (settingLines body)).groups := by
  obtain ⟨init, ssl, hinit, hssl, hname⟩ := hone.named
  have hgroups : (effectiveSettings sections).groupsConfigured =
      namesOrNone (parseOpensslcnfBackend (settingLines ((sections.get?
        ((sectionValue sections (sectionValue sections (sectionValue sections
          (some "default".toList) "openssl_conf".toList) "ssl_conf".toList)
          "system_default".toList).getD [])).getD .empty))).groups := rfl
  rw [hgroups, hinit, hssl, hname, Option.getD_some, hone.found, Option.getD_some]

/-- The key `Groups` itself is the one that both readers take. -/
theorem spelled_groups (hone : OneSection sections name body) {value : Chars}
    (hvalue : body.get? "Groups".toList = some value) : spelled "Groups".toList body = value := by
  have hcanon : canonKey "Groups".toList = some "Groups".toList := by decide
  have hmem := (Dict.mem_entries_iff _).mpr hvalue
  have hkey : "Groups".toList ∈ body.keys := List.mem_map_of_mem hmem
  have hfind : (body.entries.find? fun entry => canonKey entry.1 = some "Groups".toList) =
      some ("Groups".toList, value) := by
    cases hfound : body.entries.find? fun entry => canonKey entry.1 = some "Groups".toList with
    | none =>
        have hno := List.find?_eq_none.mp hfound _ hmem
        exact absurd hcanon (by simpa using hno)
    | some entry =>
        obtain ⟨key, other⟩ := entry
        have hentry := List.mem_of_find?_eq_some hfound
        have hsame : key = "Groups".toList := by
          refine hone.once _ List.mem_cons_self key (List.mem_map_of_mem hentry) _ hkey ?_ hcanon
          simpa using List.find?_some hfound
        rw [(Dict.mem_entries_iff _).mp (hsame ▸ hentry)] at hvalue
        rw [hsame, Option.some.inj hvalue]
  rw [spelled, hfind]
  rfl

end OneSection

/-! ## Lists that say nothing -/

/-- White space, and marks in the middle of it. -/
def Blank (piece : Chars) : Prop :=
  ∃ left marks right, piece = left ++ marks ++ right ∧ (∀ c ∈ left, isSpace c = true) ∧
    (∀ c ∈ marks, isMark c = true) ∧ ∀ c ∈ right, isSpace c = true

/-- A list of marks or slashes, with no name in it: the first reader finds nothing in it, and the
second takes the marks for names. -/
def MarksOnly (value : Chars) : Prop :=
  (∀ piece ∈ splitWhere (fun c => [':', '/'].contains c) value, Blank piece) ∧
    ∃ c ∈ value, c = '/' ∨ isMark c = true

/-- A list of separators with a comma among them: the first reader takes the comma for a name, and
the second finds nothing. -/
def CommasOnly (value : Chars) : Prop := ',' ∈ value ∧ ∀ c ∈ value, isListSep c = true

theorem isSpace_of_isMark {c : Char} (hc : isMark c = true) : isSpace c = false := by
  rw [isMark, Bool.or_eq_true, decide_eq_true_eq, decide_eq_true_eq] at hc
  rcases hc with rfl | rfl <;> decide

theorem blank_iff {piece : Chars} :
    stripChars ((stripChars piece).dropWhile isMark) = [] ↔ Blank piece := by
  obtain ⟨left, right, hpiece, hleft, hright⟩ := eq_stripChars piece
  constructor
  · intro hnil
    rw [stripChars_eq_nil_iff] at hnil
    refine ⟨left, (stripChars piece).takeWhile isMark, (stripChars piece).dropWhile isMark ++ right,
      ?_, hleft, fun c hc => List.mem_takeWhile_imp hc, ?_⟩
    · rw [List.append_assoc, ← List.append_assoc _ _ right, List.takeWhile_append_dropWhile,
        ← List.append_assoc]
      exact hpiece
    · intro c hc
      exact (List.mem_append.mp hc).elim (hnil c) (hright c)
  · rintro ⟨left, marks, right, rfl, hleft, hmarks, hright⟩
    cases marks with
    | nil =>
        have hspaces : stripChars (left ++ [] ++ right) = [] := by
          rw [stripChars_eq_nil_iff, List.append_nil]
          intro c hc
          exact (List.mem_append.mp hc).elim (hleft c) (hright c)
        rw [hspaces]
        rfl
    | cons mark marks =>
        have hnoSpace : ∀ c ∈ mark :: marks, isSpace c = false :=
          fun c hc => isSpace_of_isMark (hmarks c hc)
        have hstrip : stripChars (left ++ (mark :: marks) ++ right) = mark :: marks := by
          rw [stripChars, List.append_assoc, List.dropWhile_append_of_pos hleft,
            List.cons_append, List.dropWhile_cons_of_neg (by simp [hnoSpace mark List.mem_cons_self]),
            ← List.cons_append, List.reverse_append,
            List.dropWhile_append_of_pos fun c hc => hright c (List.mem_reverse.mp hc),
            List.reverse_eq_iff]
          obtain ⟨last, more, hlast⟩ := List.exists_cons_of_ne_nil
            (show (mark :: marks).reverse ≠ [] by simp)
          have hmem : last ∈ mark :: marks := by
            rw [← List.mem_reverse, hlast]
            exact List.mem_cons_self
          rw [hlast]
          exact List.dropWhile_cons_of_neg (by simp [hnoSpace last hmem])
        rw [hstrip, List.dropWhile_eq_nil_iff.mpr hmarks]
        rfl

section Lists

variable {value : Chars}

theorem splitTokens_eq_nil_iff : splitTokens value [':', '/'] = [] ↔
    ∀ piece ∈ splitWhere (fun c => [':', '/'].contains c) value, Blank piece := by
  rw [splitTokens, List.filter_eq_nil_iff]
  constructor
  · intro hnone piece hpiece
    have htoken := hnone _ (List.mem_map_of_mem hpiece)
    exact blank_iff.mp (by simpa using htoken)
  · intro hblank token htoken
    obtain ⟨piece, hpiece, rfl⟩ := List.mem_map.mp htoken
    rw [blank_iff.mpr (hblank piece hpiece)]
    simp

/-- A character of a blank list. -/
theorem char_of_blank
    (hblank : ∀ piece ∈ splitWhere (fun c => [':', '/'].contains c) value, Blank piece) {c : Char}
    (hc : c ∈ value) : c = ':' ∨ c = '/' ∨ isSpace c = true ∨ isMark c = true := by
  by_cases hsep : [':', '/'].contains c = true
  · rw [List.contains_iff_mem] at hsep
    rcases List.mem_cons.mp hsep with rfl | hsep
    · exact Or.inl rfl
    · exact Or.inr (Or.inl (List.mem_singleton.mp hsep))
  · obtain ⟨piece, hpiece, hmem⟩ := mem_splitWhere_iff.mpr ⟨hc, Bool.not_eq_true _ ▸ hsep⟩
    obtain ⟨left, marks, right, rfl, hleft, hmarks, hright⟩ := hblank piece hpiece
    rcases List.mem_append.mp hmem with hmem | hmem
    · rcases List.mem_append.mp hmem with hmem | hmem
      · exact Or.inr (Or.inr (Or.inl (hleft c hmem)))
      · exact Or.inr (Or.inr (Or.inr (hmarks c hmem)))
    · exact Or.inr (Or.inr (Or.inl (hright c hmem)))

/-- **The two ways to split a list find something alike, but for marks and for commas.** -/
theorem lists_alike_iff :
    (splitTokens value [':', '/'] = [] ↔ (splitWhere isListSep value).filter (· ≠ []) = []) ↔
      ¬ MarksOnly value ∧ ¬ CommasOnly value := by
  rw [splitTokens_eq_nil_iff, filter_splitWhere_eq_nil_iff]
  constructor
  · intro halike
    refine ⟨?_, ?_⟩
    · rintro ⟨hblank, c, hc, hslash⟩
      have hsep := halike.mp hblank c hc
      rcases hslash with rfl | hmark
      · exact absurd hsep (by decide)
      · rw [isMark, Bool.or_eq_true, decide_eq_true_eq, decide_eq_true_eq] at hmark
        rcases hmark with rfl | rfl <;> exact absurd hsep (by decide)
    · rintro ⟨hcomma, hseps⟩
      have hchar := char_of_blank (halike.mpr hseps) hcomma
      revert hchar
      decide
  · rintro ⟨hmarks, hcommas⟩
    constructor
    · intro hblank c hc
      rcases char_of_blank hblank hc with rfl | rfl | hspace | hmark
      · rfl
      · exact absurd ⟨hblank, _, hc, Or.inl rfl⟩ hmarks
      · rw [isListSep, hspace, Bool.or_true]
      · exact absurd ⟨hblank, c, hc, Or.inr hmark⟩ hmarks
    · intro hseps piece hpiece
      -- There is no comma, so the piece is white space.
      refine ⟨piece, [], [], by simp, fun c hc => ?_, nofun, nofun⟩
      obtain ⟨hmem, hsep⟩ := mem_splitWhere_iff.mp ⟨piece, hpiece, hc⟩
      have hlist := hseps c hmem
      rw [isListSep, Bool.or_eq_true, Bool.or_eq_true, decide_eq_true_eq, decide_eq_true_eq] at hlist
      rcases hlist with (rfl | rfl) | hspace
      · cases hsep
      · exact absurd ⟨hmem, hseps⟩ hcommas
      · exact hspace

end Lists

/-! ## Names with a PQC token -/

/-- The code points of white space. -/
def spaces : List ℕ :=
  [9, 10, 11, 12, 13, 28, 29, 30, 31, 32, 0x85, 0xA0, 0x1680, 0x2000, 0x2001, 0x2002, 0x2003, 0x2004,
    0x2005, 0x2006, 0x2007, 0x2008, 0x2009, 0x200A, 0x2028, 0x2029, 0x202F, 0x205F, 0x3000]

theorem mem_spaces {c : Char} (hc : isSpace c = true) : c.toNat ∈ spaces := by
  simp only [isSpace, Bool.or_eq_true, Bool.and_eq_true, decide_eq_true_eq, beq_iff_eq] at hc
  simp only [spaces, List.mem_cons, List.not_mem_nil, or_false]
  omega

theorem pqcKemTokenRe_ignores_space : pqcKemTokenRe.Ignores isSpace := by
  refine ⟨by decide +kernel, fun c hc => ?_⟩
  have hall : ∀ n ∈ spaces, pqcKemTokenRe.avoids (Char.ofNat n) = true := by decide +kernel
  have havoids := hall c.toNat (mem_spaces hc)
  rwa [Char.ofNat_toNat] at havoids

theorem pqcKemTokenRe_ignores {p : Char → Bool} (chars : List Char)
    (hp : ∀ c, p c = true → isSpace c = true ∨ c ∈ chars)
    (hchars : ∀ c ∈ chars, pqcKemTokenRe.avoids c = true) : pqcKemTokenRe.Ignores p := by
  refine ⟨pqcKemTokenRe_ignores_space.nullable, fun c hc => ?_⟩
  rcases hp c hc with hspace | hmem
  · exact pqcKemTokenRe_ignores_space.avoids c hspace
  · exact hchars c hmem

/-- **A token is found in a name of the list if it is found in the list**, for the first reader. -/
theorem search_splitTokens (value : Chars) :
    (∃ name ∈ splitTokens value [':', '/'], pqcKemTokenRe.searchChars name = true) ↔
      pqcKemTokenRe.searchChars value = true := by
  have hseps : pqcKemTokenRe.Ignores fun c => [':', '/'].contains c :=
    pqcKemTokenRe_ignores [':', '/'] (fun c hc => Or.inr (List.contains_iff_mem.mp hc))
      (by decide +kernel)
  have hmarks : pqcKemTokenRe.Ignores isMark :=
    pqcKemTokenRe_ignores ['*', '?'] (fun c hc => Or.inr (by simpa [isMark] using hc))
      (by decide +kernel)
  have htoken : ∀ piece : Chars,
      pqcKemTokenRe.searchChars (stripChars ((stripChars piece).dropWhile isMark)) =
        pqcKemTokenRe.searchChars piece := by
    intro piece
    rw [pqcKemTokenRe_ignores_space.stripChars, hmarks.dropWhile,
      pqcKemTokenRe_ignores_space.stripChars]
  have hempty : pqcKemTokenRe.searchChars [] = false :=
    Regex.searchChars_nil.trans pqcKemTokenRe_ignores_space.nullable
  rw [hseps.splitWhere value, splitTokens]
  constructor
  · rintro ⟨name, hname, hfound⟩
    obtain ⟨piece, hpiece, rfl⟩ := List.mem_map.mp (List.mem_filter.mp hname).1
    rw [htoken] at hfound
    exact ⟨piece, hpiece, hfound⟩
  · rintro ⟨piece, hpiece, hfound⟩
    rw [← htoken] at hfound
    refine ⟨_, List.mem_filter.mpr ⟨List.mem_map_of_mem hpiece, ?_⟩, hfound⟩
    rw [decide_eq_true_eq]
    intro hnil
    rw [hnil, hempty] at hfound
    cases hfound

/-- The same for the second reader. -/
theorem search_listWords (value : Chars) :
    (∃ name ∈ (splitWhere isListSep value).filter (· ≠ []),
        pqcKemTokenRe.searchChars name = true) ↔ pqcKemTokenRe.searchChars value = true := by
  have hseps : pqcKemTokenRe.Ignores isListSep := by
    refine pqcKemTokenRe_ignores [':', ','] (fun c hc => ?_) (by decide +kernel)
    rw [isListSep, Bool.or_eq_true, Bool.or_eq_true, decide_eq_true_eq, decide_eq_true_eq] at hc
    rcases hc with (rfl | rfl) | hspace
    · exact Or.inr (by decide)
    · exact Or.inr (by decide)
    · exact Or.inl hspace
  have hempty : pqcKemTokenRe.searchChars [] = false :=
    Regex.searchChars_nil.trans pqcKemTokenRe_ignores_space.nullable
  rw [hseps.splitWhere value]
  constructor
  · rintro ⟨name, hname, hfound⟩
    exact ⟨name, (List.mem_filter.mp hname).1, hfound⟩
  · rintro ⟨name, hname, hfound⟩
    refine ⟨name, List.mem_filter.mpr ⟨hname, ?_⟩, hfound⟩
    rw [decide_eq_true_eq]
    rintro rfl
    rw [hempty] at hfound
    cases hfound

/-! ## The agreement -/

/-- The groups, or else the curves, in any case. -/
def listText (body : Dict Chars Chars) : Chars :=
  if spelled "Groups".toList body ≠ [] then spelled "Groups".toList body
  else spelled "Curves".toList body

/-- Both readers read the section alike: a list under the key `Groups` is neither marks nor commas
only, and without one there is no list under another spelling of the key, or under the curves. -/
def ReadAlike (body : Dict Chars Chars) : Prop :=
  let groups := (body.get? "Groups".toList).getD []
  if groups ≠ [] then ¬ MarksOnly groups ∧ ¬ CommasOnly groups
  else ∀ c ∈ listText body, isListSep c = true

/-- Is a PQC group among the configured groups? -/
def judgedPqc (groups : Option (List Chars)) : Bool := (classifyGroups (groups.getD [])).reported

theorem isSome_namesOrNone {names : List Chars} :
    (namesOrNone names).isSome = true ↔ names ≠ [] := by
  rw [namesOrNone]
  split
  · next hnil => simp [hnil]
  · next hne => simp [hne]

theorem judgedPqc_namesOrNone {names : List Chars} :
    judgedPqc (namesOrNone names) = true ↔
      ∃ name ∈ names, pqcKemTokenRe.searchChars name = true := by
  have hnames : (namesOrNone names).getD [] = names := by
    rw [namesOrNone]
    split
    · next hnil => exact hnil.symm
    · rfl
  rw [judgedPqc, hnames]
  exact reported_classifyPqc names pqcKemTokenRe

section Agreement

variable {sections : CnfSections} {name : Chars} {body : Dict Chars Chars}

theorem readAlike_iff (hone : OneSection sections name body) :
    ((splitTokens ((body.get? "Groups".toList).getD []) [':', '/'] = [] ↔
        (splitWhere isListSep (listText body)).filter (· ≠ []) = []) ∧
      ((∃ name ∈ splitTokens ((body.get? "Groups".toList).getD []) [':', '/'],
          pqcKemTokenRe.searchChars name = true) ↔
        ∃ name ∈ (splitWhere isListSep (listText body)).filter (· ≠ []),
          pqcKemTokenRe.searchChars name = true)) ↔
      ReadAlike body := by
  by_cases hne : (body.get? "Groups".toList).getD [] ≠ []
  · have hget : body.get? "Groups".toList = some ((body.get? "Groups".toList).getD []) := by
      cases hget : body.get? "Groups".toList with
      | none => exact absurd (by rw [hget]; rfl) hne
      | some value => rfl
    have htext : listText body = (body.get? "Groups".toList).getD [] := by
      rw [listText, spelled_groups hone hget, if_pos hne]
    rw [search_splitTokens, search_listWords, htext, ReadAlike, if_pos hne, lists_alike_iff]
    exact and_iff_left Iff.rfl
  · -- The first reader finds nothing, so the second must not either.
    have hfirst : splitTokens ((body.get? "Groups".toList).getD []) [':', '/'] = [] := by
      rw [not_not.mp hne]
      rfl
    rw [ReadAlike, if_neg hne, ← filter_splitWhere_eq_nil_iff, hfirst]
    constructor
    · rintro ⟨hnil, _⟩
      exact hnil.mp rfl
    · intro hnil
      rw [hnil]
      exact ⟨Iff.rfl, Iff.rfl⟩

/-- The list of the first reader. -/
theorem groupsConfigured_first (hone : OneSection sections name body)
    (htexts : SettingTexts body) :
    (effectiveSettings sections).groupsConfigured =
      namesOrNone (splitTokens ((body.get? "Groups".toList).getD []) [':', '/']) := by
  rw [systemDefault_of_oneSection hone, groups_settingLines htexts]

/-- The list of the second reader, and what it says of it. -/
theorem groupsConfigured_second (hone : OneSection sections name body) :
    (parseCryptoConfigOpenssl sections).groupsConfigured =
        namesOrNone ((splitWhere isListSep (listText body)).filter (· ≠ [])) ∧
      (parseCryptoConfigOpenssl sections).pqcGroups.any PqcNames.reported =
        judgedPqc (parseCryptoConfigOpenssl sections).groupsConfigured := by
  have htext : groupsText (profileSettings sections) = listText body :=
    groupsText_profileSettings hone
  constructor
  · rw [← htext]
    rfl
  · show Option.any PqcNames.reported (if _ = [] then none else some (classifyGroups _)) =
      judgedPqc (namesOrNone _)
    rw [namesOrNone]
    split
    · rfl
    · rfl

end Agreement

/-- **The readers agree exactly if they read the section alike.** -/
theorem readers_report_alike_iff (host : CnfHost) (path : String) {name : Chars} {body : Dict Chars Chars}
    (hone : OneSection (parseOpensslCnf host path).sections name body) :
    (((effectiveSettings (parseOpensslCnf host path).sections).groupsConfigured.isSome ↔
        (parseCryptoConfigOpenssl (parseOpensslCnf host path).sections).groupsConfigured.isSome) ∧
      judgedPqc (effectiveSettings (parseOpensslCnf host path).sections).groupsConfigured =
        (parseCryptoConfigOpenssl (parseOpensslCnf host path).sections).pqcGroups.any
          PqcNames.reported) ↔
      ReadAlike body := by
  have htexts : SettingTexts body := settingText_parseOpensslCnf host path name body hone.found
  obtain ⟨hsecond, hpqc⟩ := groupsConfigured_second hone
  rw [hpqc, hsecond, groupsConfigured_first hone htexts, isSome_namesOrNone, isSome_namesOrNone,
    not_iff_not, Bool.eq_iff_iff, judgedPqc_namesOrNone, judgedPqc_namesOrNone]
  exact readAlike_iff hone

/-! A section with groups, and one with curves. -/

/-- A configuration whose one section has one setting. -/
def oneSetting (setting : String) : CnfSections :=
  (parseOpensslCnf (oneFile ("openssl_conf = i\n[i]\nssl_conf = s\n[s]\nsystem_default = d\n[d]\n" ++
    setting).toList) "/o").sections

/-- Where the setting stands. -/
def oneSettingBody (setting : String) : Dict Chars Chars :=
  ((oneSetting setting).get? ['d']).getD .empty

theorem oneSection_of_entries {setting : String}
    (hnamed : sectionValue (oneSetting setting) (some "default".toList) "openssl_conf".toList =
        some ['i'] ∧
      sectionValue (oneSetting setting) (some ['i']) "ssl_conf".toList = some ['s'] ∧
      sectionValue (oneSetting setting) (some ['s']) "system_default".toList = some ['d'])
    (hfound : ((oneSetting setting).get? ['d']).isSome = true)
    (halone : ∀ entry ∈ (oneSetting setting).entries, entry.1 ≠ ['d'] →
      ∀ key ∈ entry.2.keys, canonKey key = none)
    (honce : (oneSettingBody setting).keys.length = 1) :
    OneSection (oneSetting setting) ['d'] (oneSettingBody setting) := by
  refine ⟨⟨_, _, hnamed⟩, ?_, ?_, ?_⟩
  · obtain ⟨body, hbody⟩ := Option.isSome_iff_exists.mp hfound
    rw [oneSettingBody, hbody]
    rfl
  · intro other content hother hget
    exact halone (other, content) ((Dict.mem_entries_iff _).mpr hget) hother
  · obtain ⟨only, honly⟩ := List.length_eq_one_iff.mp honce
    rw [honly]
    intro canon _ key hkey other hother _ _
    rw [List.mem_singleton.mp hkey, List.mem_singleton.mp hother]

theorem readers_agree_groups :
    judgedPqc (effectiveSettings (oneSetting "Groups = X25519MLKEM768")).groupsConfigured =
      (parseCryptoConfigOpenssl (oneSetting "Groups = X25519MLKEM768")).pqcGroups.any
        PqcNames.reported := by
  have hone : OneSection (oneSetting "Groups = X25519MLKEM768") ['d']
      (oneSettingBody "Groups = X25519MLKEM768") :=
    oneSection_of_entries (by decide +kernel) (by decide +kernel) (by decide +kernel)
      (by decide +kernel)
  have hvalue : ((oneSettingBody "Groups = X25519MLKEM768").get? "Groups".toList).getD [] =
      "X25519MLKEM768".toList := by decide +kernel
  have halike : ReadAlike (oneSettingBody "Groups = X25519MLKEM768") := by
    rw [ReadAlike, hvalue, if_pos (by decide)]
    refine ⟨?_, ?_⟩
    · rintro ⟨_, c, hc, hmark⟩
      have hnone : ∀ c ∈ "X25519MLKEM768".toList, ¬ (c = '/' ∨ isMark c = true) := by
        decide +kernel
      exact hnone c hc hmark
    · rintro ⟨hcomma, _⟩
      revert hcomma
      decide +kernel
  exact ((readers_report_alike_iff _ "/o" hone).mpr halike).2

/-- The first reader does not know the key. -/
theorem not_readers_agree_curves :
    OneSection (oneSetting "Curves = X25519MLKEM768") ['d']
        (oneSettingBody "Curves = X25519MLKEM768") ∧
      ¬ ((effectiveSettings (oneSetting "Curves = X25519MLKEM768")).groupsConfigured.isSome ↔
        (parseCryptoConfigOpenssl (oneSetting "Curves = X25519MLKEM768")).groupsConfigured.isSome) := by
  refine ⟨oneSection_of_entries (by decide +kernel) (by decide +kernel) (by decide +kernel)
    (by decide +kernel), ?_⟩
  have hfirst : (effectiveSettings (oneSetting "Curves = X25519MLKEM768")).groupsConfigured = none := by
    decide +kernel
  have hsecond : (parseCryptoConfigOpenssl
      (oneSetting "Curves = X25519MLKEM768")).groupsConfigured.isSome = true := by decide +kernel
  rw [hfirst, hsecond]
  decide

end PqcReadiness.Config
