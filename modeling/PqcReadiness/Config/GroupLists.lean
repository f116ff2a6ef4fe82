import PqcReadiness.Config.Endpoint

/-!
# Group lists, as OpenSSL reads them and as they are judged

A group list is a sequence of tokens that each add a group or remove one from what precedes it.
`remaining` is the list that OpenSSL ends up with.

The back-end parser and `split_groups` look at the tokens one by one.  The back-end parser takes a
removal for a name, so it reports every group that is named; `split_groups` leaves removals out,
so it reports every group that is added.  Both are right about a list exactly if it keeps a PQC
group that it adds, or names none (`groupLists_agree_iff`).
-/

namespace PqcReadiness.Config

open PqcReadiness.Lib

/-! ## Lists -/

/-- The name of a group. -/
structure GroupName where
  chars : Chars
  nonempty : chars ≠ []
  plain : ∀ c ∈ chars, isGroupSep c = false ∧ c ≠ '\'' ∧ c ≠ '"'
  unmarked : ∀ c, chars.head? = some c → isMark c = false ∧ c ≠ '-'

/-- The markers that do not remove. -/
inductive Mark where
  | keyShare
  | optional

/-- The character of a marker. -/
def Mark.char : Mark → Char
  | .keyShare => '*'
  | .optional => '?'

/-- A token of a list. -/
inductive GroupToken where
  | add (marks : List Mark) (name : GroupName)
  | remove (name : GroupName)

namespace GroupToken

/-- The name that the token is about. -/
def name : GroupToken → GroupName
  | add _ name => name
  | remove name => name

/-- The text of the token. -/
def text : GroupToken → Chars
  | add marks name => marks.map Mark.char ++ name.chars
  | remove name => '-' :: name.chars

end GroupToken

/-- The separators: a list of groups, or of tuples of key shares. -/
inductive GroupSep where
  | colon
  | slash

/-- The character of a separator. -/
def GroupSep.char : GroupSep → Char
  | .colon => ':'
  | .slash => '/'

/-- A list of groups: a token, and more tokens behind separators. -/
structure GroupList where
  first : GroupToken
  rest : List (GroupSep × GroupToken)

namespace GroupList

/-- The tokens. -/
def tokens (list : GroupList) : List GroupToken := list.first :: list.rest.map Prod.snd

/-- The text of what follows the first token. -/
def restText (rest : List (GroupSep × GroupToken)) : Chars :=
  rest.flatMap fun token => token.1.char :: token.2.text

/-- The text. -/
def text (list : GroupList) : Chars := list.first.text ++ restText list.rest

end GroupList

/-- Is it the name of a PQC group? -/
def GroupName.isPqc (name : GroupName) : Bool := pqcKemTokenRe.searchChars name.chars

section Remaining

variable (same : GroupName → GroupName → Bool)

/-- One token, for OpenSSL.  `same` says which names are names of one group. -/
def processToken (groups : List GroupName) : GroupToken → List GroupName
  | .add _ name => groups ++ [name]
  | .remove name => groups.filter fun other => !same name other

/-- The list that remains after processing the tokens from left to right. -/
def remaining (tokens : List GroupToken) : List GroupName := tokens.foldl (processToken same) []

/-- A PQC group remains. -/
def RemainsPqc (list : GroupList) : Prop := ∃ name ∈ remaining same list.tokens, name.isPqc = true

/-- No token names a PQC group. -/
def NamesNoPqc (list : GroupList) : Prop := ∀ token ∈ list.tokens, token.name.isPqc = false

/-- A PQC group is added that no later token removes. -/
def KeepsPqc (list : GroupList) : Prop :=
  ∃ before marks name after, list.tokens = before ++ .add marks name :: after ∧
    name.isPqc = true ∧ ∀ other, GroupToken.remove other ∈ after → same other name = false

variable {same}

/-- What remains was there or was added, and was not removed later. -/
theorem mem_foldl_processToken {tokens : List GroupToken} {groups : List GroupName}
    {name : GroupName} :
    name ∈ tokens.foldl (processToken same) groups ↔
      (name ∈ groups ∧ ∀ other, GroupToken.remove other ∈ tokens → same other name = false) ∨
      ∃ before marks after, tokens = before ++ .add marks name :: after ∧
        ∀ other, GroupToken.remove other ∈ after → same other name = false := by
  induction tokens generalizing groups with
  | nil => simp
  | cons token rest ih =>
      rw [List.foldl_cons, ih]
      constructor
      · rintro (⟨hmem, hkept⟩ | ⟨before, marks, after, rfl, hkept⟩)
        · cases token with
          | add marks added =>
              rcases List.mem_append.mp hmem with hold | hnew
              · refine Or.inl ⟨hold, fun other hother => hkept other ?_⟩
                exact (List.mem_cons.mp hother).resolve_left nofun
              · obtain rfl := List.mem_singleton.mp hnew
                exact Or.inr ⟨[], marks, rest, rfl, hkept⟩
          | remove removed =>
              obtain ⟨hold, hdifferent⟩ := List.mem_filter.mp hmem
              refine Or.inl ⟨hold, fun other hother => ?_⟩
              rcases List.mem_cons.mp hother with hhead | hother
              · obtain rfl := GroupToken.remove.inj hhead
                simpa using hdifferent
              · exact hkept other hother
        · exact Or.inr ⟨token :: before, marks, after, rfl, hkept⟩
      · rintro (⟨hold, hkept⟩ | ⟨before, marks, after, hsplit, hkept⟩)
        · refine Or.inl ⟨?_, fun other hother => hkept other (List.mem_cons_of_mem token hother)⟩
          cases token with
          | add marks added => exact List.mem_append_left _ hold
          | remove removed =>
              have hdifferent := hkept removed List.mem_cons_self
              exact List.mem_filter.mpr ⟨hold, by simpa using hdifferent⟩
        · cases before with
          | nil =>
              obtain ⟨rfl, rfl⟩ := List.cons.inj hsplit
              exact Or.inl ⟨List.mem_append_right _ (List.mem_singleton.mpr rfl), hkept⟩
          | cons head before =>
              obtain ⟨-, rfl⟩ := List.cons.inj hsplit
              exact Or.inr ⟨before, marks, after, rfl, hkept⟩

theorem remainsPqc_iff (list : GroupList) : RemainsPqc same list ↔ KeepsPqc same list := by
  constructor
  · rintro ⟨name, hmem, hpqc⟩
    rcases mem_foldl_processToken.mp hmem with ⟨hnil, _⟩ | ⟨before, marks, after, hsplit, hkept⟩
    · cases hnil
    · exact ⟨before, marks, name, after, hsplit, hpqc, hkept⟩
  · rintro ⟨before, marks, name, after, hsplit, hpqc, hkept⟩
    exact ⟨name, mem_foldl_processToken.mpr (Or.inr ⟨before, marks, after, hsplit, hkept⟩), hpqc⟩

end Remaining

/-! ## The text of a list -/

section Texts

variable {token : GroupToken} {name : GroupName} {c : Char}

theorem mark_char (mark : Mark) : isMark mark.char = true := by cases mark <;> rfl

theorem isMark_plain (hc : isMark c = true) :
    isGroupSep c = false ∧ c ≠ '\'' ∧ c ≠ '"' := by
  have hcases : c = '*' ∨ c = '?' := by simpa [isMark] using hc
  rcases hcases with rfl | rfl <;> decide

/-- No token has a separator, whitespace or quotes. -/
theorem token_plain (hc : c ∈ token.text) : isGroupSep c = false ∧ c ≠ '\'' ∧ c ≠ '"' := by
  cases token with
  | add marks name =>
      rcases List.mem_append.mp hc with hmark | hname
      · obtain ⟨mark, -, rfl⟩ := List.mem_map.mp hmark
        exact isMark_plain (mark_char mark)
      · exact name.plain c hname
  | remove name =>
      rcases List.mem_cons.mp hc with rfl | hname
      · decide
      · exact name.plain c hname

theorem token_ne_nil (token : GroupToken) : token.text ≠ [] := by
  cases token with
  | add marks name =>
      intro hnil
      exact name.nonempty (List.append_eq_nil_iff.mp hnil).2
  | remove name => exact List.cons_ne_nil _ _

theorem noSpace_of_plain (hc : isGroupSep c = false) : isSpace c = false := by
  unfold isGroupSep at hc
  rw [Bool.or_eq_false_iff] at hc
  exact hc.2

theorem sep_char (sep : GroupSep) : [':', '/'].contains sep.char = true ∧
    isGroupSep sep.char = true ∧ isSpace sep.char = false ∧ sep.char ≠ '\'' ∧ sep.char ≠ '"' := by
  cases sep <;> decide

theorem contains_of_plain (hc : isGroupSep c = false) : [':', '/'].contains c = false := by
  unfold isGroupSep at hc
  simp only [Bool.or_eq_false_iff, decide_eq_false_iff_not] at hc
  simp [hc.1.1.1, hc.1.2]

/-- Splitting at separators gives the tokens. -/
theorem splitWhere_list {ends : Char → Bool} (hsep : ∀ sep : GroupSep, ends sep.char = true)
    (hplain : ∀ c, isGroupSep c = false → ends c = false) (list : GroupList) :
    splitWhere ends list.text = list.tokens.map GroupToken.text := by
  obtain ⟨first, rest⟩ := list
  have htoken : ∀ (token : GroupToken), ∀ c ∈ token.text, ends c = false :=
    fun token c hc => hplain c (token_plain hc).1
  induction rest generalizing first with
  | nil =>
      have htext : GroupList.text ⟨first, []⟩ = first.text := List.append_nil _
      rw [htext, splitWhere_word (htoken first)]
      rfl
  | cons next rest ih =>
      have htext : GroupList.text ⟨first, next :: rest⟩ =
          first.text ++ next.1.char :: GroupList.text ⟨next.2, rest⟩ := rfl
      rw [htext, splitWhere_append (htoken first) (hsep next.1), ih]
      rfl

/-- What a list of groups has no characters of. -/
theorem list_plain (list : GroupList) : ∀ c ∈ list.text,
    isSpace c = false ∧ c ≠ '\'' ∧ c ≠ '"' := by
  have htoken : ∀ (token : GroupToken), ∀ c ∈ token.text,
      isSpace c = false ∧ c ≠ '\'' ∧ c ≠ '"' := by
    intro token c hc
    have hplain := token_plain hc
    exact ⟨noSpace_of_plain hplain.1, hplain.2⟩
  intro c hc
  rcases List.mem_append.mp hc with hfirst | hrest
  · exact htoken list.first c hfirst
  · obtain ⟨token, -, hc⟩ := List.mem_flatMap.mp hrest
    rcases List.mem_cons.mp hc with rfl | hc
    · exact (sep_char token.1).2.2
    · exact htoken token.2 c hc

theorem list_ne_nil (list : GroupList) : list.text ≠ [] := by
  intro hnil
  exact token_ne_nil list.first (List.append_eq_nil_iff.mp hnil).1

end Texts

/-! ## The back-end parser -/

/-- What the back-end parser makes of a token: a removal keeps its marker. -/
def backendName : GroupToken → Chars
  | .add _ name => name.chars
  | .remove name => '-' :: name.chars

section Backend

theorem dropWhile_name (name : GroupName) : name.chars.dropWhile isMark = name.chars := by
  have hhead := name.unmarked
  cases hchars : name.chars with
  | nil => rfl
  | cons c rest =>
      rw [hchars] at hhead
      rw [List.dropWhile_cons, (hhead c rfl).1]
      rfl

theorem dropWhile_marks (marks : List Mark) (name : GroupName) :
    (marks.map Mark.char ++ name.chars).dropWhile isMark = name.chars := by
  induction marks with
  | nil => exact dropWhile_name name
  | cons mark marks ih =>
      rw [List.map_cons, List.cons_append, List.dropWhile_cons, if_pos (mark_char mark)]
      exact ih

theorem dropWhile_token (token : GroupToken) : token.text.dropWhile isMark = backendName token := by
  cases token with
  | add marks name => exact dropWhile_marks marks name
  | remove name => rfl

theorem backendName_plain (token : GroupToken) {c : Char} (hc : c ∈ backendName token) :
    isSpace c = false := by
  have htext : c ∈ token.text := by
    rw [← dropWhile_token] at hc
    exact (List.dropWhile_sublist isMark).subset hc
  exact noSpace_of_plain (token_plain htext).1

theorem backendName_ne_nil (token : GroupToken) : backendName token ≠ [] := by
  cases token with
  | add marks name => exact name.nonempty
  | remove name => exact List.cons_ne_nil _ _

/-- The marker of a removal does not hide the name, nor does it make one. -/
theorem search_backendName (token : GroupToken) :
    pqcKemTokenRe.searchChars (backendName token) = token.name.isPqc := by
  cases token with
  | add marks name => rfl
  | remove name => exact Regex.searchChars_cons (by decide +kernel)

theorem splitTokens_list (list : GroupList) :
    splitTokens list.text [':', '/'] = list.tokens.map backendName := by
  have hsplit : splitWhere (fun c => [':', '/'].contains c) list.text =
      list.tokens.map GroupToken.text :=
    splitWhere_list (fun sep => (sep_char sep).1) (fun c hc => contains_of_plain hc) list
  have hstrip : ∀ token : GroupToken,
      stripChars ((stripChars token.text).dropWhile isMark) = backendName token := by
    intro token
    rw [stripChars_of_noSpace fun c hc => noSpace_of_plain (token_plain hc).1, dropWhile_token,
      stripChars_of_noSpace fun c hc => backendName_plain token hc]
  rw [splitTokens, hsplit, List.map_map]
  have hmap : (list.tokens.map ((fun tok => stripChars ((stripChars tok).dropWhile isMark)) ∘
      GroupToken.text)) = list.tokens.map backendName :=
    List.map_congr_left fun token _ => hstrip token
  rw [hmap, List.filter_eq_self]
  intro name hname
  obtain ⟨token, -, rfl⟩ := List.mem_map.mp hname
  simpa using backendName_ne_nil token

/-- The back-end with one setting. -/
theorem matchSetting_groups {value : Chars} (hvalue : ∀ c ∈ value, isSpace c = false) :
    matchSetting ("Groups = ".toList ++ value) = some (.groups, value) := by
  have hdrop : value.dropWhile isSpace = value := by
    cases value with
    | nil => rfl
    | cons c rest => rw [List.dropWhile_cons, hvalue c List.mem_cons_self]; rfl
  have hafter : afterEquals (" = ".toList ++ value) = some value := by
    show some ((' ' :: value).dropWhile isSpace) = some value
    rw [List.dropWhile_cons, if_pos (by decide), hdrop]
  show (afterEquals (" = ".toList ++ value)).map (PolicyKey.groups, ·) = _
  rw [hafter]
  rfl

theorem parse_groups {value : Chars} (hvalue : ∀ c ∈ value, isSpace c = false) :
    parseOpensslcnfBackend ("Groups = ".toList ++ value) =
      ⟨splitTokens value [':', '/'], classifyPqc (splitTokens value [':', '/']) pqcKemTokenRe,
        [], classifyPqc [] pqcSigTokenRe⟩ := by
  have hlines : splitLinesChars ("Groups = ".toList ++ value) = ["Groups = ".toList ++ value] := by
    refine splitLinesChars_single (fun c hc => ?_) (by simp)
    rcases List.mem_append.mp hc with hprefix | hvalueMem
    · have hall : ∀ c ∈ "Groups = ".toList, isLineBreak c = false := by decide
      exact hall c hprefix
    · rw [← Bool.not_eq_true]
      intro hbreak
      have hspace := isSpace_of_isLineBreak hbreak
      rw [hvalue c hvalueMem] at hspace
      cases hspace
  unfold parseOpensslcnfBackend
  rw [hlines, List.foldl_cons, List.foldl_nil, readSetting, matchSetting_groups hvalue]
  rfl

/-- The back-end reports every list that names a PQC group, if only to remove it. -/
theorem backend_reported_iff (list : GroupList) :
    (parseOpensslcnfBackend ("Groups = ".toList ++ list.text)).pqcGroups.reported = true ↔
      ∃ token ∈ list.tokens, token.name.isPqc = true := by
  rw [parse_groups fun c hc => (list_plain list c hc).1, splitTokens_list, reported_classifyPqc]
  constructor
  · rintro ⟨name, hname, hpqc⟩
    obtain ⟨token, htoken, rfl⟩ := List.mem_map.mp hname
    rw [search_backendName] at hpqc
    exact ⟨token, htoken, hpqc⟩
  · rintro ⟨token, htoken, hpqc⟩
    refine ⟨backendName token, List.mem_map_of_mem htoken, ?_⟩
    rw [search_backendName]
    exact hpqc

end Backend

/-! ## The default groups of the host -/

/-- The token without the markers that do not remove. -/
def GroupToken.bare : GroupToken → GroupToken
  | .add _ name => .add [] name
  | .remove name => .remove name

/-- The list as `detect_openssl_config` writes it down again. -/
def GroupList.rewritten (list : GroupList) : GroupList :=
  ⟨list.first.bare, list.rest.map fun token => (.colon, token.2.bare)⟩

section Default

theorem bare_text (token : GroupToken) : token.bare.text = backendName token := by
  cases token <;> rfl

theorem bare_name (token : GroupToken) : token.bare.name = token.name := by
  cases token <;> rfl

theorem rewritten_tokens (list : GroupList) :
    list.rewritten.tokens = list.tokens.map GroupToken.bare := by
  simp [GroupList.rewritten, GroupList.tokens]

theorem joinColon_tokens (list : GroupList) :
    joinColon (list.tokens.map backendName) = list.rewritten.text := by
  obtain ⟨first, rest⟩ := list
  induction rest generalizing first with
  | nil =>
      have htext : GroupList.text (GroupList.rewritten ⟨first, []⟩) = first.bare.text :=
        List.append_nil _
      rw [htext, bare_text]
      rfl
  | cons next rest ih =>
      have htext : GroupList.text (GroupList.rewritten ⟨first, next :: rest⟩) =
          first.bare.text ++ ':' :: GroupList.text (GroupList.rewritten ⟨next.2, rest⟩) := rfl
      rw [htext, ← ih next.2, bare_text]
      rfl

/-- The host default is what the back-end reports. -/
theorem pqcKeyExchangeByDefault_list (list : GroupList) (builtin : Bool) :
    pqcKeyExchangeByDefault (parseOpensslcnfBackend ("Groups = ".toList ++ list.text)).groups
        builtin =
      (parseOpensslcnfBackend ("Groups = ".toList ++ list.text)).pqcGroups.reported := by
  have hgroups : (parseOpensslcnfBackend ("Groups = ".toList ++ list.text)).groups =
      list.tokens.map backendName := by
    rw [parse_groups fun c hc => (list_plain list c hc).1, splitTokens_list]
  have hne : list.tokens.map backendName ≠ [] := List.cons_ne_nil _ _
  rw [pqcKeyExchangeByDefault, hgroups, defaultGroups, if_pos hne, joinColon_tokens, Bool.eq_iff_iff, backend_reported_iff, backend_reported_iff,
    rewritten_tokens]
  simp [bare_name]

end Default

/-! ## The service parsers -/

section Service

theorem lower_letter {c lower upper : Char} (hc : c.toLower = lower)
    (hupper : lower.val = upper.val + 32) : c = lower ∨ c = upper := by
  unfold Char.toLower at hc
  split at hc
  · have hval : c.val + 32 = upper.val + 32 := by
      rw [← hupper, ← hc]
      rfl
    exact Or.inr (Char.ext ((UInt32.add_left_inj 32).mp hval))
  · exact Or.inl hc

/-- `auto` is the name of no PQC group, in either case of its letters. -/
theorem search_auto {text : Chars} (htext : lowerAscii text = "auto".toList) :
    pqcKemTokenRe.searchChars text = false := by
  obtain ⟨a, rest, rfl, ha, htext⟩ := List.map_eq_cons_iff.mp htext
  obtain ⟨u, rest, rfl, hu, htext⟩ := List.map_eq_cons_iff.mp htext
  obtain ⟨t, rest, rfl, ht, htext⟩ := List.map_eq_cons_iff.mp htext
  obtain ⟨o, rest, rfl, ho, htext⟩ := List.map_eq_cons_iff.mp htext
  obtain rfl := List.map_eq_nil_iff.mp htext
  have ha := @lower_letter _ _ 'A' ha (by decide)
  have hu := @lower_letter _ _ 'U' hu (by decide)
  have ht := @lower_letter _ _ 'T' ht (by decide)
  have ho := @lower_letter _ _ 'O' ho (by decide)
  rcases ha with rfl | rfl <;> rcases hu with rfl | rfl <;> rcases ht with rfl | rfl <;>
    rcases ho with rfl | rfl <;> decide +kernel

theorem name_in_text {list : GroupList} {token : GroupToken} (htoken : token ∈ list.tokens) :
    ∃ before after, list.text = before ++ token.name.chars ++ after := by
  have hname : ∀ token : GroupToken, ∃ before, token.text = before ++ token.name.chars := by
    intro token
    cases token with
    | add marks name => exact ⟨marks.map Mark.char, rfl⟩
    | remove name => exact ⟨['-'], rfl⟩
  obtain ⟨first, rest⟩ := list
  induction rest generalizing first with
  | nil =>
      obtain rfl : token = first := List.mem_singleton.mp htoken
      obtain ⟨before, hbefore⟩ := hname token
      exact ⟨before, [], by rw [← hbefore]; rfl⟩
  | cons next rest ih =>
      have htext : GroupList.text ⟨first, next :: rest⟩ =
          first.text ++ next.1.char :: GroupList.text ⟨next.2, rest⟩ := rfl
      rcases List.mem_cons.mp htoken with rfl | hrest
      · obtain ⟨before, hbefore⟩ := hname token
        exact ⟨before, next.1.char :: GroupList.text ⟨next.2, rest⟩, by rw [htext, hbefore]⟩
      · obtain ⟨before, after, hparts⟩ := ih next.2 hrest
        refine ⟨first.text ++ next.1.char :: before, after, ?_⟩
        rw [htext, hparts]
        simp

/-- What `split_groups` makes of a token: a removal is left out. -/
def serviceName : GroupToken → Option Chars
  | .add _ name => some name.chars
  | .remove _ => none

/-- The judgement of a list with which a service is configured. -/
def serviceReports (text : Chars) : Bool :=
  match splitGroups (some text) with
  | none => false
  | some groups => (classifyGroups groups).reported

theorem head_token {token : GroupToken} : token.text.head? = some '-' ↔ serviceName token = none := by
  cases token with
  | remove name => exact ⟨fun _ => rfl, fun _ => rfl⟩
  | add marks name =>
      constructor
      · intro hhead
        cases marks with
        | nil => exact absurd rfl (name.unmarked '-' hhead).2
        | cons mark marks =>
            have hmark : mark.char = '-' := Option.some.inj hhead
            cases mark <;> exact absurd hmark (by decide)
      · intro hnone
        cases hnone

theorem splitGroups_tokens (list : GroupList) :
    (((splitWhere isGroupSep list.text).map stripChars).filter fun tok =>
      tok ≠ [] && tok.head? ≠ some '-').map (fun tok => tok.dropWhile isMark) =
      list.tokens.filterMap serviceName := by
  have hstrip : ∀ token, (stripChars ∘ GroupToken.text) token = token.text := fun token =>
    stripChars_of_noSpace fun c hc => noSpace_of_plain (token_plain hc).1
  rw [splitWhere_list (fun sep => (sep_char sep).2.1) (fun c hc => hc) list, List.map_map,
    List.map_congr_left fun token _ => hstrip token]
  induction list.tokens with
  | nil => rfl
  | cons token rest ih =>
      rw [List.map_cons]
      cases hservice : serviceName token with
      | none =>
          have hskip : (token.text ≠ [] && token.text.head? ≠ some '-') = false := by
            simp [head_token.mpr hservice]
          rw [List.filter_cons, hskip, List.filterMap_cons_none hservice]
          exact ih
      | some name =>
          have hne := token_ne_nil token
          have hhead : token.text.head? ≠ some '-' := by
            rw [Ne, head_token, hservice]
            nofun
          have htake : (token.text ≠ [] && token.text.head? ≠ some '-') = true := by
            simp [hne, hhead]
          have hname : token.text.dropWhile isMark = name := by
            rw [dropWhile_token]
            cases token with
            | add marks name => exact Option.some.inj hservice
            | remove name => cases hservice
          rw [List.filter_cons, htake, List.filterMap_cons_some hservice, ← ih]
          exact congrArg (· :: _) hname

/-- A service reports every list that adds a PQC group. -/
theorem serviceReports_iff (list : GroupList) : serviceReports list.text = true ↔
    ∃ marks name, GroupToken.add marks name ∈ list.tokens ∧ name.isPqc = true := by
  have hplain := list_plain list
  have hstrip : stripQuotes (stripChars list.text) = list.text := by
    rw [stripChars_of_noSpace fun c hc => (hplain c hc).1,
      stripQuotes_of_plain fun c hc => (hplain c hc).2]
  have hadded : (∃ chars ∈ list.tokens.filterMap serviceName,
      pqcKemTokenRe.searchChars chars = true) ↔
      ∃ marks name, GroupToken.add marks name ∈ list.tokens ∧ name.isPqc = true := by
    constructor
    · rintro ⟨chars, hchars, hpqc⟩
      obtain ⟨token, htoken, hservice⟩ := List.mem_filterMap.mp hchars
      cases token with
      | add marks name =>
          obtain rfl := Option.some.inj hservice
          exact ⟨marks, name, htoken, hpqc⟩
      | remove name => cases hservice
    · rintro ⟨marks, name, htoken, hpqc⟩
      exact ⟨name.chars, List.mem_filterMap.mpr ⟨_, htoken, rfl⟩, hpqc⟩
  rw [← hadded, serviceReports, splitGroups]
  dsimp only
  rw [hstrip, splitGroups_tokens]
  by_cases hauto : lowerAscii list.text = "auto".toList
  · rw [if_pos (Or.inr hauto)]
    refine iff_of_false Bool.false_ne_true ?_
    rw [hadded]
    rintro ⟨marks, name, htoken, hpqc⟩
    obtain ⟨before, after, htext⟩ := name_in_text htoken
    have hfound := Regex.searchChars_part before after hpqc
    rw [← show list.text = before ++ name.chars ++ after from htext, search_auto hauto] at hfound
    cases hfound
  · rw [if_neg (not_or.mpr ⟨list_ne_nil list, hauto⟩)]
    by_cases hout : list.tokens.filterMap serviceName = []
    · rw [if_pos hout, hout]
      simp
    · rw [if_neg hout]
      exact reported_classifyPqc _ _

/-- The endpoint of a service that the group list decides. -/
theorem makeEndpoint_list (list : GroupList) {settings : EndpointSettings}
    (hgroups : settings.groups = splitGroups (some list.text))
    (hdefault : settings.serviceDefaultGroups = none)
    (htls : tls13Allowed settings.protocols settings.minProtocol settings.maxProtocol ≠ some false)
    (hsupports : settings.serviceSupportsPqcGroups ≠ some false) :
    (makeEndpoint settings).pqcKeyExchange = some true ↔ serviceReports list.text = true := by
  show (judgement settings).1 = some true ↔ _
  unfold judgement effectiveGroups serviceReports
  rw [hgroups, hdefault]
  cases hsplit : splitGroups (some list.text) with
  | none => simp [htls, hsupports]
  | some groups =>
      dsimp only
      rw [if_neg htls, if_neg hsupports]
      by_cases hreported : (classifyGroups groups).reported = true
      · rw [if_pos hreported, hreported]
        exact iff_of_true rfl rfl
      · rw [if_neg hreported]
        simp [hreported]

end Service

/-! ## The judgements -/

/-- Everything that judges the list reports a PQC group, exactly if `pqc`. -/
structure JudgedBy (list : GroupList) (pqc : Prop) : Prop where
  backend :
    (parseOpensslcnfBackend ("Groups = ".toList ++ list.text)).pqcGroups.reported = true ↔ pqc
  policy : tlsKeyExchange (some (parseOpensslcnfBackend ("Groups = ".toList ++ list.text))) =
    some true ↔ pqc
  host : ∀ builtin, pqcKeyExchangeByDefault
    (parseOpensslcnfBackend ("Groups = ".toList ++ list.text)).groups builtin = true ↔ pqc
  service : serviceReports list.text = true ↔ pqc
  endpoint : ∀ settings : EndpointSettings, settings.groups = splitGroups (some list.text) →
    settings.serviceDefaultGroups = none →
    tls13Allowed settings.protocols settings.minProtocol settings.maxProtocol ≠ some false →
    settings.serviceSupportsPqcGroups ≠ some false →
    ((makeEndpoint settings).pqcKeyExchange = some true ↔ pqc)

section Judged

variable {list : GroupList} {pqc : Prop}

/-- There are two judgements, that of the back-end and that of the services. -/
theorem judgedBy_iff : JudgedBy list pqc ↔
    ((∃ token ∈ list.tokens, token.name.isPqc = true) ↔ pqc) ∧
      ((∃ marks name, GroupToken.add marks name ∈ list.tokens ∧ name.isPqc = true) ↔ pqc) := by
  rw [← backend_reported_iff, ← serviceReports_iff]
  constructor
  · intro hjudged
    exact ⟨hjudged.backend, hjudged.service⟩
  · rintro ⟨hbackend, hservice⟩
    refine ⟨hbackend, ?_, fun builtin => ?_, hservice, ?_⟩
    · rw [← hbackend]
      exact Option.some_inj
    · rw [pqcKeyExchangeByDefault_list]
      exact hbackend
    · intro settings hgroups hdefault htls hsupports
      rw [makeEndpoint_list list hgroups hdefault htls hsupports]
      exact hservice

end Judged

/-- **A group list is judged the same everywhere and as OpenSSL reads it, exactly if it names no
PQC group or adds one that it does not remove later.** -/
theorem groupLists_agree_iff (same : GroupName → GroupName → Bool) (list : GroupList) :
    JudgedBy list (RemainsPqc same list) ↔ NamesNoPqc list ∨ KeepsPqc same list := by
  rw [judgedBy_iff, remainsPqc_iff]
  constructor
  · rintro ⟨hbackend, -⟩
    by_cases hkeeps : KeepsPqc same list
    · exact Or.inr hkeeps
    · refine Or.inl fun token htoken => ?_
      rw [← Bool.not_eq_true]
      intro hpqc
      exact hkeeps (hbackend.mp ⟨token, htoken, hpqc⟩)
  · rintro (hnames | hkeeps)
    · have hnot : ¬ KeepsPqc same list := by
        rintro ⟨before, marks, name, after, hsplit, hpqc, -⟩
        have hmem : GroupToken.add marks name ∈ list.tokens := by
          rw [hsplit]
          exact List.mem_append_right _ List.mem_cons_self
        have hname : name.isPqc = false := hnames _ hmem
        rw [hname] at hpqc
        cases hpqc
      refine ⟨iff_of_false ?_ hnot, iff_of_false ?_ hnot⟩
      · rintro ⟨token, htoken, hpqc⟩
        rw [hnames token htoken] at hpqc
        cases hpqc
      · rintro ⟨marks, name, htoken, hpqc⟩
        have hname : name.isPqc = false := hnames _ htoken
        rw [hname] at hpqc
        cases hpqc
    · obtain ⟨before, marks, name, after, hsplit, hpqc, -⟩ := id hkeeps
      have hmem : GroupToken.add marks name ∈ list.tokens := by
        rw [hsplit]
        exact List.mem_append_right _ List.mem_cons_self
      exact ⟨iff_of_true ⟨_, hmem, hpqc⟩ hkeeps, iff_of_true ⟨marks, name, hmem, hpqc⟩ hkeeps⟩

/-- `X25519MLKEM768`. -/
def x25519mlkem768 : GroupName :=
  ⟨"X25519MLKEM768".toList, by decide +kernel, by decide +kernel, fun c hc => by cases hc; decide⟩

/-- `X25519`. -/
def x25519 : GroupName :=
  ⟨"X25519".toList, by decide +kernel, by decide +kernel, fun c hc => by cases hc; decide⟩

/-- `X25519:-X25519MLKEM768`. -/
def removedBefore : GroupList := ⟨.add [] x25519, [(.colon, .remove x25519mlkem768)]⟩

/-- `X25519MLKEM768:X25519:-X25519MLKEM768`. -/
def removedAfter : GroupList :=
  ⟨.add [] x25519mlkem768, [(.colon, .add [] x25519), (.colon, .remove x25519mlkem768)]⟩

/-- Both lists leave `X25519` alone.  The back-end reports a PQC group in both, a service in the
second one. -/
theorem not_judged_removed :
    (remaining (fun name other => name.chars == other.chars) removedBefore.tokens).map
        GroupName.chars = ["X25519".toList] ∧
      (parseOpensslcnfBackend
        ("Groups = ".toList ++ removedBefore.text)).pqcGroups.reported = true ∧
      serviceReports removedBefore.text = false ∧
    (remaining (fun name other => name.chars == other.chars) removedAfter.tokens).map
        GroupName.chars = ["X25519".toList] ∧
      (parseOpensslcnfBackend
        ("Groups = ".toList ++ removedAfter.text)).pqcGroups.reported = true ∧
      serviceReports removedAfter.text = true := by
  decide +kernel

end PqcReadiness.Config
