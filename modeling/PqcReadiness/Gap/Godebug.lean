import PqcReadiness.Gap.Clients
import PqcReadiness.Lib.Matching
import PqcReadiness.Lib.Pathname

/-!
# GODEBUG texts of a Go binary

The environment of a process has the last word on a GODEBUG key, and within a text the last
assignment has it (`effective`).  `go_tls_kex_default` takes a key for reverted that is set to 0
anywhere, and raises where `int` refuses a number of the version, so it is right exactly if the
version can be read and no assignment says 0 or the last one does (`reverts_effective_iff`).
-/

namespace PqcReadiness.Gap

open Lib

/-! ## What the texts say -/

/-- The text behind the first `sep`. -/
def afterChar (sep : Char) (s : String) : String :=
  String.ofList ((s.toList.dropWhile (· != sep)).drop 1)

/-- The key and the value of an item, if it is an assignment. -/
def assignment (item : String) : Option (String × String) :=
  if '=' ∈ item.toList then some (beforeChar '=' item, afterChar '=' item) else none

/-- The assignments of a text, in order. -/
def assignments (godebug : Option String) : List (String × String) :=
  (split ',' (orEmpty godebug)).filterMap assignment

/-- The values that a key is given: by the build, and then by the environment. -/
def valuesOf (key : String) (defaultGodebug runtimeGodebug : Option String) : List String :=
  (assignments defaultGodebug ++ assignments runtimeGodebug).filterMap fun entry =>
    if entry.1 = key then some entry.2 else none

/-- The value that counts. -/
def effective (key : String) (defaultGodebug runtimeGodebug : Option String) : Option String :=
  (valuesOf key defaultGodebug runtimeGodebug).getLast?

/-- A value that is taken for a revert: 0, or text that ends in `=0`, white space behind it aside. -/
def saysZero (value : String) : Bool := endsWith "=0" (strip ("=" ++ value))

/-! ## What the scanner makes of them -/

section Items

variable {item : String}

/-- An assignment, put together again. -/
theorem toList_of_assignment {key value : String} (hassigns : assignment item = some (key, value)) :
    item.toList = key.toList ++ '=' :: value.toList ∧ '=' ∉ key.toList := by
  rw [assignment] at hassigns
  split at hassigns
  · next hmem =>
      obtain ⟨rfl, rfl⟩ := Prod.mk.inj (Option.some.inj hassigns)
      rw [beforeChar, afterChar, String.toList_ofList, String.toList_ofList]
      have hwhole := @List.takeWhile_append_dropWhile _ (· != '=') item.toList
      have hne : item.toList.dropWhile (· != '=') ≠ [] := by
        intro hnil
        have hall := List.dropWhile_eq_nil_iff.mp hnil '=' hmem
        simp at hall
      constructor
      · cases hdrop : item.toList.dropWhile (· != '=') with
        | nil => exact absurd hdrop hne
        | cons c rest =>
            have hhead := List.head_dropWhile_not (· != '=') hne
            have hc : c = '=' := by
              have hfirst : (item.toList.dropWhile (· != '=')).head hne = c := by
                simp [hdrop]
              rw [hfirst] at hhead
              simpa using hhead
            rw [hdrop, hc] at hwhole
            exact hwhole.symm
      · intro hkey
        have hbefore := List.mem_takeWhile_imp hkey
        simp at hbefore
  · cases hassigns

/-- Text in front that does not begin with white space stays in front. -/
theorem stripChars_append {word rest : List Char} {c : Char} (hword : ∀ d ∈ word.head?,
    isSpace d = false) (hne : word ≠ []) (hc : isSpace c = false) :
    stripChars (word ++ c :: rest) = word ++ stripChars (c :: rest) := by
  cases word with
  | nil => exact absurd rfl hne
  | cons d word =>
      have hd : isSpace d = false := hword d rfl
      have hinner : (c :: rest).reverse.dropWhile isSpace ≠ [] := by
        intro hnil
        have hall := List.dropWhile_eq_nil_iff.mp hnil c (by simp)
        rw [hc] at hall
        cases hall
      have hback : ((c :: rest).reverse ++ (d :: word).reverse).dropWhile isSpace =
          (c :: rest).reverse.dropWhile isSpace ++ (d :: word).reverse := by
        rw [List.dropWhile_append, if_neg (by simpa using hinner)]
      have hfront : ((d :: word) ++ c :: rest).dropWhile isSpace = (d :: word) ++ c :: rest := by
        rw [List.cons_append, List.dropWhile_cons_of_neg (by simp [hd])]
      have hrest : (c :: rest).dropWhile isSpace = c :: rest :=
        List.dropWhile_cons_of_neg (by simp [hc])
      rw [stripChars, stripChars, hfront, hrest, List.reverse_append, hback, List.reverse_append,
        List.reverse_reverse]

theorem stripChars_cons {c : Char} {rest : List Char} (hc : isSpace c = false) :
    ∃ left, stripChars (c :: rest) = c :: left := by
  have hfront : (c :: rest).dropWhile isSpace = c :: rest :=
    List.dropWhile_cons_of_neg (by simp [hc])
  rw [stripChars, hfront, List.reverse_cons, List.dropWhile_append]
  split
  · exact ⟨[], by rw [List.dropWhile_cons_of_neg (by simp [hc])]; rfl⟩
  · exact ⟨_, by rw [List.reverse_append, List.reverse_singleton]; rfl⟩

/-- The end of a text of two characters is in its last part, if that begins with the first of
them. -/
theorem endsWith_append_iff {word rest : List Char} {first last : Char} (hne : last ≠ first) :
    [first, last] <:+ word ++ first :: rest ↔ [first, last] <:+ first :: rest := by
  constructor
  · intro hsuffix
    rcases List.suffix_or_suffix_of_suffix hsuffix (List.suffix_append word (first :: rest))
      with h | h
    · exact h
    · rcases List.suffix_cons_iff.mp h with heq | hlast
      · rw [heq]
      · rcases List.suffix_cons_iff.mp hlast with heq | hnil
        · exact absurd (List.cons.inj heq).1.symm hne
        · cases List.suffix_nil.mp hnil
  · exact fun hsuffix => hsuffix.trans (List.suffix_append _ _)

/-- The scanner takes an item for a revert of a key if it assigns the key a value that says 0. -/
theorem reverted_item_iff {key : String} (hkey : key ≠ "")
    (hword : ∀ c ∈ key.toList, isSpace c = false) :
    (endsWith "=0" (strip item) = true ∧ beforeChar '=' item = key) ↔
      ∃ value, assignment item = some (key, value) ∧ saysZero value = true := by
  have hne : key.toList ≠ [] := fun h => hkey (String.toList_inj.mp h)
  have hends : ∀ text : List Char, endsWith "=0" (String.ofList text) = true ↔
      ['=', '0'] <:+ text := by
    intro text
    have hsuffix : List.isSuffixOf ['=', '0'] text = true ↔ ['=', '0'] <:+ text :=
      List.isSuffixOf_iff_suffix
    have hends : endsWith "=0" (String.ofList text) = List.isSuffixOf ['=', '0'] text := by
      rw [endsWith, @String.toList_ofList text]
      rfl
    rw [hends]
    exact hsuffix
  have hsame : ∀ value, assignment item = some (key, value) →
      (endsWith "=0" (strip item) = true ↔ saysZero value = true) := by
    intro value hassigns
    obtain ⟨htext, -⟩ := toList_of_assignment hassigns
    have hvalue : ("=" ++ value).toList = '=' :: value.toList := by simp
    rw [saysZero, strip, strip, hends, hends, htext, hvalue,
      stripChars_append (fun d hd => hword d (List.mem_of_mem_head? hd)) hne (by decide)]
    obtain ⟨rest, hrest⟩ := @stripChars_cons '=' value.toList (by decide)
    rw [hrest]
    exact endsWith_append_iff (by decide)
  constructor
  · rintro ⟨hzero, hbefore⟩
    have hmem : '=' ∈ item.toList := by
      obtain ⟨left, right, hitem, -, -⟩ := eq_stripChars item.toList
      rw [strip, hends] at hzero
      rw [hitem]
      have hin := hzero.subset (List.mem_cons_self)
      simp [hin]
    have hassigns : assignment item = some (key, afterChar '=' item) := by
      rw [assignment, if_pos hmem, hbefore]
    exact ⟨_, hassigns, (hsame _ hassigns).mp hzero⟩
  · rintro ⟨value, hassigns, hzero⟩
    refine ⟨(hsame value hassigns).mpr hzero, ?_⟩
    rw [assignment] at hassigns
    split at hassigns
    · exact (Prod.mk.inj (Option.some.inj hassigns)).1
    · cases hassigns

end Items

/-! ## The two texts -/

section Texts

variable (defaultGodebug runtimeGodebug : Option String)

/-- The text that is read has the assignments of both. -/
theorem assignments_godebugText :
    (split ',' (godebugText defaultGodebug runtimeGodebug)).filterMap assignment =
      assignments defaultGodebug ++ assignments runtimeGodebug := by
  have hempty : (split ',' "").filterMap assignment = [] := by decide
  have hnone : ∀ text : Option String, text.filter (· ≠ "") = none → assignments text = [] := by
    intro text htext
    cases text with
    | none => exact hempty
    | some text =>
        have : text = "" := by simpa using htext
        rw [assignments, this]
        exact hempty
  have hsome : ∀ (text : Option String) (found : String), text.filter (· ≠ "") = some found →
      assignments text = (split ',' found).filterMap assignment := by
    intro text found htext
    obtain ⟨rfl, -⟩ := Option.filter_eq_some_iff.mp htext
    rfl
  have hjoin : ∀ first second : String, split ',' (first ++ "," ++ second) =
      split ',' first ++ split ',' second := by
    intro first second
    have htext : (first ++ "," ++ second).toList = first.toList ++ ',' :: second.toList := by simp
    rw [split, htext, splitChars_append, List.map_append]
    rfl
  rw [godebugText]
  cases hd : defaultGodebug.filter (· ≠ "") with
  | none =>
      cases hr : runtimeGodebug.filter (· ≠ "") with
      | none => rw [hnone _ hd, hnone _ hr]; exact hempty
      | some second => rw [hnone _ hd, hsome _ _ hr]; rfl
  | some first =>
      cases hr : runtimeGodebug.filter (· ≠ "") with
      | none => rw [hsome _ _ hd, hnone _ hr, List.append_nil]; rfl
      | some second =>
          rw [hsome _ _ hd, hsome _ _ hr, ← List.filterMap_append, ← hjoin]
          rfl

/-- The reverted keys are those with a value that says 0. -/
theorem mem_godebugReverted_iff {key : String} (hkey : key ≠ "")
    (hword : ∀ c ∈ key.toList, isSpace c = false) :
    key ∈ godebugReverted (godebugText defaultGodebug runtimeGodebug) ↔
      ∃ value ∈ valuesOf key defaultGodebug runtimeGodebug, saysZero value = true := by
  have hvalues : ∀ value, value ∈ valuesOf key defaultGodebug runtimeGodebug ↔
      ∃ item ∈ split ',' (godebugText defaultGodebug runtimeGodebug),
        assignment item = some (key, value) := by
    intro value
    rw [valuesOf, ← assignments_godebugText, List.mem_filterMap]
    constructor
    · rintro ⟨⟨other, found⟩, hfound, hsome⟩
      obtain ⟨item, hitem, hassigns⟩ := List.mem_filterMap.mp hfound
      split at hsome
      · next hsame =>
          obtain rfl : other = key := hsame
          obtain rfl := Option.some.inj hsome
          exact ⟨item, hitem, hassigns⟩
      · cases hsome
    · rintro ⟨item, hitem, hassigns⟩
      exact ⟨(key, value), List.mem_filterMap.mpr ⟨item, hitem, hassigns⟩, if_pos rfl⟩
  rw [godebugReverted, List.mem_map]
  constructor
  · rintro ⟨item, hitem, hbefore⟩
    obtain ⟨hmem, hzero⟩ := List.mem_filter.mp hitem
    obtain ⟨value, hassigns, hsays⟩ := (reverted_item_iff hkey hword).mp ⟨hzero, hbefore⟩
    exact ⟨value, (hvalues value).mpr ⟨item, hmem, hassigns⟩, hsays⟩
  · rintro ⟨value, hvalue, hsays⟩
    obtain ⟨item, hmem, hassigns⟩ := (hvalues value).mp hvalue
    obtain ⟨hzero, hbefore⟩ := (reverted_item_iff hkey hword).mpr ⟨value, hassigns, hsays⟩
    exact ⟨item, List.mem_filter.mpr ⟨hmem, hzero⟩, hbefore⟩

end Texts

/-- Whether ML-KEM is in a record is whether a value says 0. -/
theorem mem_godebugReverts_goRecord {goVersion defaultGodebug runtimeGodebug : Option String} :
    "tlsmlkem" ∈ (goRecord goVersion defaultGodebug runtimeGodebug).godebugReverts ↔
      ∃ value ∈ valuesOf "tlsmlkem" defaultGodebug runtimeGodebug, saysZero value = true := by
  rw [← mem_godebugReverted_iff defaultGodebug runtimeGodebug (by decide) (by decide)]
  simp [goRecord, goKexMembers]

/-- From Go 1.24 on, the default follows the record. -/
theorem defaultHybridKex_goRecord {goVersion defaultGodebug runtimeGodebug : Option String}
    {vt : List ℕ} (hversion : versionTuple (goVersionText goVersion) = .ok (some vt))
    (hnew : goMlkemDefaultVersion ≤ vt.take 2) :
    (goRecord goVersion defaultGodebug runtimeGodebug).defaultHybridKex = some "X25519MLKEM768" ↔
      "tlsmlkem" ∉ (goRecord goVersion defaultGodebug runtimeGodebug).godebugReverts := by
  have htuple : goVersionTuple goVersion = some vt := by
    rw [goVersionTuple, hversion]
  by_cases hreverted : "tlsmlkem" ∈ godebugReverted (godebugText defaultGodebug runtimeGodebug) <;>
    simp [goRecord, goKexMembers, htuple, hnew, hreverted]

/-- **`go_tls_kex_default` returns a record that reports ML-KEM as reverted exactly if it is, with a
default that follows the report, if and only if `int` reads the numbers of the version, and no value
that ML-KEM is given says 0 or the last one is 0.** -/
theorem reverts_effective_iff (goVersion defaultGodebug runtimeGodebug : Option String) :
    (∃ go, goTlsKexDefault goVersion defaultGodebug runtimeGodebug = .ok go ∧
      ("tlsmlkem" ∈ go.godebugReverts ↔
        effective "tlsmlkem" defaultGodebug runtimeGodebug = some "0") ∧
      ∀ vt, versionTuple (goVersionText goVersion) = .ok (some vt) →
        goMlkemDefaultVersion ≤ vt.take 2 →
          (go.defaultHybridKex = some "X25519MLKEM768" ↔ "tlsmlkem" ∉ go.godebugReverts)) ↔
      ReadableVersion (goVersionText goVersion) ∧
        ((∀ value ∈ valuesOf "tlsmlkem" defaultGodebug runtimeGodebug, saysZero value = false) ∨
          effective "tlsmlkem" defaultGodebug runtimeGodebug = some "0") := by
  have hlast : effective "tlsmlkem" defaultGodebug runtimeGodebug = some "0" →
      ∃ value ∈ valuesOf "tlsmlkem" defaultGodebug runtimeGodebug, saysZero value = true :=
    fun heffective => ⟨"0", List.mem_of_getLast? heffective, by decide⟩
  constructor
  · rintro ⟨go, hgo, hsame, -⟩
    obtain ⟨hreadable, rfl⟩ := goTlsKexDefault_ok_iff.mp hgo
    rw [mem_godebugReverts_goRecord] at hsame
    refine ⟨hreadable, ?_⟩
    by_cases hzero : ∃ value ∈ valuesOf "tlsmlkem" defaultGodebug runtimeGodebug,
        saysZero value = true
    · exact .inr (hsame.mp hzero)
    · refine .inl fun value hvalue => ?_
      by_contra hsays
      exact hzero ⟨value, hvalue, by simpa using hsays⟩
  · rintro ⟨hreadable, hvalues⟩
    refine ⟨_, goTlsKexDefault_ok_iff.mpr ⟨hreadable, rfl⟩, ?_, fun vt => defaultHybridKex_goRecord⟩
    rw [mem_godebugReverts_goRecord]
    rcases hvalues with hnone | heffective
    · refine ⟨fun ⟨value, hvalue, hsays⟩ => ?_, hlast⟩
      rw [hnone value hvalue] at hsays
      cases hsays
    · exact ⟨fun _ => heffective, hlast⟩

/-- The environment turns on again what the build turned off. -/
theorem not_reverts_reenabled :
    effective "tlsmlkem" (some "tlsmlkem=0") (some "tlsmlkem=1") = some "1" ∧
      (goTlsKexDefault (some "go1.24") (some "tlsmlkem=0") (some "tlsmlkem=1")).map
        GoBuild.godebugReverts = .ok ["tlsmlkem"] ∧
      (goTlsKexDefault (some "go1.24") (some "tlsmlkem=0") (some "tlsmlkem=1")).map
        GoBuild.defaultHybridKex = .ok none := by
  decide

end PqcReadiness.Gap
