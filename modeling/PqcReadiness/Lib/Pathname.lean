import Mathlib.Data.List.DropRight
import Mathlib.Data.List.Infix
import PqcReadiness.Lib.Text

/-!
# POSIX pathnames

Path texts, their components, shell patterns, and what a path with symbolic links
in it leads to.

A location below a root is the list of the names on the way to it.  `Links` is the
map of symbolic links: a location that is a link is sent to the text of its
target.  `Reaches` is where a path leads in a system whose root that is: the target
of a link is resolved on its own, from the root if it is absolute and from the
directory of the link otherwise, and the rest of the path goes on from there.
`..` at the root stays at the root.  Like the map, the relation is about names
only: a name that is no link is walked into whatever stands there.

`Leaves` is what happens to the same path if it is opened from outside, below
a directory that is not the root of the system: an absolute link, or `..` at the
top, goes out.  `Clean` locations have neither dots nor links on the way, and
opening one does not go out (`Clean.not_leaves`).
-/

namespace PqcReadiness.Lib

/-! ## Splitting a text at its slashes -/

/-- `[c for c in path.split("/") if c]`. -/
def components (path : String) : List String := (split '/' path).filter (· ≠ "")

/-- `"/" + "/".join(parts)`. -/
def pathText (parts : List String) : String := "/" ++ join "/" parts

/-- A text that stands between two slashes. -/
structure IsComponent (part : String) : Prop where
  ne_empty : part ≠ ""
  no_slash : '/' ∉ part.toList

theorem splitChars_ne_nil (sep : Char) (xs : List Char) : splitChars sep xs ≠ [] := by
  cases xs with
  | nil => simp [splitChars]
  | cons c rest =>
      rw [splitChars]
      split
      · simp
      · split <;> simp

theorem splitChars_append (sep : Char) (xs ys : List Char) :
    splitChars sep (xs ++ sep :: ys) = splitChars sep xs ++ splitChars sep ys := by
  induction xs with
  | nil => simp [splitChars]
  | cons c rest ih =>
      rw [List.cons_append, splitChars, splitChars, ih]
      by_cases hc : c = sep
      · simp [hc]
      · rw [if_neg hc, if_neg hc]
        cases hwords : splitChars sep rest with
        | nil => exact absurd hwords (splitChars_ne_nil sep rest)
        | cons word words => rfl

theorem splitChars_of_not_mem {sep : Char} {xs : List Char} (hxs : sep ∉ xs) :
    splitChars sep xs = [xs] := by
  induction xs with
  | nil => rfl
  | cons c rest ih =>
      obtain ⟨hc, hrest⟩ := List.ne_and_not_mem_of_not_mem_cons hxs
      rw [splitChars, if_neg (Ne.symm hc), ih hrest]

theorem not_mem_of_mem_splitChars {sep : Char} {xs word : List Char}
    (hword : word ∈ splitChars sep xs) : sep ∉ word := by
  induction xs generalizing word with
  | nil =>
      rw [splitChars, List.mem_singleton] at hword
      simp [hword]
  | cons c rest ih =>
      rw [splitChars] at hword
      by_cases hc : c = sep
      · rw [if_pos hc, List.mem_cons] at hword
        rcases hword with rfl | hword
        · exact List.not_mem_nil
        · exact ih hword
      · rw [if_neg hc] at hword
        cases hwords : splitChars sep rest with
        | nil => exact absurd hwords (splitChars_ne_nil sep rest)
        | cons first words =>
            rw [hwords] at ih hword
            rcases List.mem_cons.mp hword with rfl | hword
            · rw [List.mem_cons, not_or]
              exact ⟨Ne.symm hc, ih List.mem_cons_self⟩
            · exact ih (List.mem_cons_of_mem _ hword)

theorem isComponent_of_mem_components {path part : String} (hpart : part ∈ components path) :
    IsComponent part := by
  rw [components, List.mem_filter, split, List.mem_map] at hpart
  obtain ⟨⟨word, hword, rfl⟩, hne⟩ := hpart
  exact ⟨by simpa using hne, by simpa using not_mem_of_mem_splitChars hword⟩

theorem components_slash (first second : String) :
    components (first ++ "/" ++ second) = components first ++ components second := by
  have htext : (first ++ "/" ++ second).toList = first.toList ++ '/' :: second.toList := by simp
  rw [components, split, htext, splitChars_append, List.map_append, List.filter_append]
  rfl

theorem components_slash_left (text : String) : components ("/" ++ text) = components text := by
  rw [← String.empty_append (s := "/"), components_slash]
  rfl

theorem components_of_isComponent {part : String} (hpart : IsComponent part) :
    components part = [part] := by
  rw [components, split, splitChars_of_not_mem hpart.no_slash]
  simp [hpart.ne_empty]

theorem components_join {parts : List String} (hparts : ∀ part ∈ parts, IsComponent part) :
    components (join "/" parts) = parts := by
  induction parts with
  | nil => rfl
  | cons part rest ih =>
      obtain ⟨hpart, hrest⟩ := List.forall_mem_cons.mp hparts
      cases rest with
      | nil => exact components_of_isComponent hpart
      | cons next rest =>
          rw [join, components_slash, components_of_isComponent hpart, ih hrest]
          · rfl
          · exact List.cons_ne_nil next rest

/-! ## Paths as objects -/

/-- The slashes at the front: two stay two, any other number counts as one. -/
def leadingSlashes (path : String) : String :=
  if startsWith "//" path && !startsWith "///" path then "//"
  else if startsWith "/" path then "/"
  else ""

/-- `Path(text)`: the root, and the parts below it. -/
structure PurePath where
  root : String
  parts : List String
deriving DecidableEq, Repr

namespace PurePath

/-- `Path(text)` drops empty and `.` components and keeps `..`. -/
def ofText (text : String) : PurePath :=
  ⟨leadingSlashes text, (components text).filter (· ≠ ".")⟩

/-- `str(path)`. -/
def text (path : PurePath) : String :=
  if path.root = "" ∧ path.parts = [] then "." else path.root ++ join "/" path.parts

/-- `path / part / …`. -/
def below (path : PurePath) (parts : List String) : PurePath :=
  { path with parts := path.parts ++ parts }

end PurePath

theorem rstripChar_idempotent (c : Char) (text : String) :
    rstripChar c (rstripChar c text) = rstripChar c text := by
  simp only [rstripChar, String.toList_ofList, List.reverse_reverse, List.dropWhile_idempotent]

theorem getLast?_of_rstripChar {c : Char} {text : String} (htext : rstripChar c text = text) :
    text.toList.getLast? ≠ some c := by
  intro hlast
  obtain ⟨front, hfront⟩ := List.getLast?_eq_some_iff.mp hlast
  have hlength := congrArg (fun s : String => s.toList.length) htext
  simp only [rstripChar, String.toList_ofList, hfront, List.reverse_append, List.reverse_singleton,
    List.singleton_append, List.dropWhile_cons, beq_self_eq_true, if_true, List.length_reverse,
    List.length_append, List.length_singleton] at hlength
  have hdrop := (front.reverse.dropWhile_sublist (· == c)).length_le
  rw [List.length_reverse] at hdrop
  omega

theorem leadingSlashes_append {first : String} (hfirst : first ≠ "")
    (hslash : rstripChar '/' first = first) (second : String) :
    leadingSlashes (first ++ "/" ++ second) = leadingSlashes first := by
  obtain ⟨chars, rfl⟩ : ∃ chars, first = String.ofList chars := ⟨first.toList, by simp⟩
  have hlast := getLast?_of_rstripChar hslash
  simp only [leadingSlashes, startsWith, String.toList_append, String.toList_ofList] at hlast ⊢
  -- Three characters decide how many slashes count.
  rcases chars with _ | ⟨a, _ | ⟨b, _ | ⟨c, rest⟩⟩⟩
  · exact absurd rfl hfirst
  · have ha : '/' ≠ a := by
      rintro rfl
      exact hlast rfl
    simp [List.isPrefixOf, ha]
  · have hb : '/' ≠ b := by
      rintro rfl
      exact hlast rfl
    simp [List.isPrefixOf, hb]
  · simp [List.isPrefixOf]

theorem startsWith_slash_iff {text : String} :
    startsWith "/" text ↔ ∃ rest, text = "/" ++ rest := by
  rw [startsWith, List.isPrefixOf_iff_prefix]
  constructor
  · rintro ⟨rest, hrest⟩
    exact ⟨String.ofList rest, String.toList_injective (by simp [← hrest])⟩
  · rintro ⟨rest, rfl⟩
    rw [String.toList_append]
    exact List.prefix_append _ _

theorem components_append {first second : String} (hsecond : startsWith "/" second) :
    components (first ++ second) = components first ++ components second := by
  obtain ⟨rest, rfl⟩ := startsWith_slash_iff.mp hsecond
  rw [components_slash_left, ← String.append_assoc, components_slash]

theorem PurePath.ofText_append {first second : String} (hfirst : first ≠ "")
    (hslash : rstripChar '/' first = first) (hsecond : startsWith "/" second) :
    ofText (first ++ second) = (ofText first).below (ofText second).parts := by
  have hroot : leadingSlashes (first ++ second) = leadingSlashes first := by
    obtain ⟨rest, rfl⟩ := startsWith_slash_iff.mp hsecond
    rw [← String.append_assoc, leadingSlashes_append hfirst hslash]
  simp only [ofText, below, hroot, components_append hsecond, List.filter_append]

/-! ## `os.path.normpath` -/

/-- One component of `normpath`. -/
def normStep (absolute : Bool) (parts : List String) (part : String) : List String :=
  if part = "" ∨ part = "." then parts
  else if part ≠ ".." ∨ (!absolute && parts.isEmpty) ∨ parts.getLast? = some ".." then
    parts ++ [part]
  else parts.dropLast

/-- The components that `normpath` keeps. -/
def normComponents (path : String) : List String :=
  (split '/' path).foldl (normStep (startsWith "/" path)) []

/-- `os.path.normpath(path)`. -/
def normpath (path : String) : String :=
  let text := leadingSlashes path ++ join "/" (normComponents path)
  if path = "" ∨ text = "" then "." else text

theorem normStep_components {absolute : Bool} {parts : List String} {part : String}
    (hparts : ∀ part ∈ parts, IsComponent part ∧ part ≠ ".") (hpart : '/' ∉ part.toList) :
    ∀ kept ∈ normStep absolute parts part, IsComponent kept ∧ kept ≠ "." := by
  intro kept hkept
  rw [normStep] at hkept
  split at hkept
  · exact hparts kept hkept
  · next hdot =>
      rw [not_or] at hdot
      split at hkept
      · rcases List.mem_append.mp hkept with hkept | hkept
        · exact hparts kept hkept
        · rw [List.mem_singleton.mp hkept]
          exact ⟨⟨hdot.1, hpart⟩, hdot.2⟩
      · exact hparts kept (List.mem_of_mem_dropLast hkept)

theorem normComponents_components (path : String) :
    ∀ kept ∈ normComponents path, IsComponent kept ∧ kept ≠ "." := by
  have hfold : ∀ (rest parts : List String), (∀ part ∈ rest, '/' ∉ part.toList) →
      (∀ part ∈ parts, IsComponent part ∧ part ≠ ".") →
      ∀ kept ∈ rest.foldl (normStep (startsWith "/" path)) parts,
        IsComponent kept ∧ kept ≠ "." := by
    intro rest
    induction rest with
    | nil => exact fun parts _ hparts => hparts
    | cons part rest ih =>
        intro parts hrest hparts
        obtain ⟨hpart, hrest⟩ := List.forall_mem_cons.mp hrest
        exact ih _ hrest (normStep_components hparts hpart)
  refine hfold _ [] ?_ (by simp)
  intro part hpart
  obtain ⟨word, hword, rfl⟩ := List.mem_map.mp hpart
  simpa using not_mem_of_mem_splitChars hword

theorem leadingSlashes_of_absolute {path : String} (hpath : startsWith "/" path) :
    leadingSlashes path = "/" ∨ leadingSlashes path = "//" := by
  rw [leadingSlashes, if_pos hpath]
  split
  · exact .inr rfl
  · exact .inl rfl

theorem normpath_of_absolute {path : String} (hpath : startsWith "/" path) :
    startsWith "/" (normpath path) ∧ components (normpath path) = normComponents path := by
  have hkept := components_join fun part hpart => (normComponents_components path part hpart).1
  have hslash : ∃ rest, leadingSlashes path ++ join "/" (normComponents path) = "/" ++ rest ∧
      components rest = normComponents path := by
    rcases leadingSlashes_of_absolute hpath with h | h
    · exact ⟨_, by rw [h], hkept⟩
    · exact ⟨"/" ++ join "/" (normComponents path), by rw [h, ← String.append_assoc]; rfl,
        (components_slash_left _).trans hkept⟩
  obtain ⟨rest, htext, hrest⟩ := hslash
  have hempty : "/" ++ rest ≠ "" := by simp
  have hne : path ≠ "" := by
    rintro rfl
    exact absurd hpath (by decide)
  rw [normpath, htext, if_neg (not_or.mpr ⟨hne, hempty⟩)]
  exact ⟨startsWith_slash_iff.mpr ⟨rest, rfl⟩, (components_slash_left rest).trans hrest⟩

/-! ## Shell patterns -/

/-- One unit of a shell pattern. -/
inductive Glob where
  | star
  | any
  /-- `[a-z…]`, or `[!a-z…]`. -/
  | set (negated : Bool) (ranges : List (Char × Char))
  | char (c : Char)

/-- The ranges between the brackets of a set; a single character is a range. -/
def setRanges : List Char → List (Char × Char)
  | low :: '-' :: high :: rest => (low, high) :: setRanges rest
  | c :: rest => (c, c) :: setRanges rest
  | [] => []

/-- The characters up to the closing bracket, and those after it. -/
def untilBracket (pattern : List Char) : Option (List Char × List Char) :=
  match pattern.span (· ≠ ']') with
  | (_, []) => none
  | (inside, _ :: rest) => some (inside, rest)

/-- A set, after its opening bracket.  A bracket in the first place is a member. -/
def parseSet (pattern : List Char) : Option (Glob × List Char) :=
  let (negated, pattern) :=
    match pattern with
    | '!' :: rest => (true, rest)
    | _ => (false, pattern)
  let found : Option (List Char × List Char) :=
    match pattern with
    | ']' :: rest => (untilBracket rest).map fun (inside, after) => (']' :: inside, after)
    | _ => untilBracket pattern
  found.map fun (inside, after) => (.set negated (setRanges inside), after)

/-- The units of a pattern; each takes at least one character, so that the length
of the pattern bounds their number. -/
def globUnits : ℕ → List Char → List Glob
  | 0, _ => []
  | _ + 1, [] => []
  | bound + 1, '*' :: rest => .star :: globUnits bound rest
  | bound + 1, '?' :: rest => .any :: globUnits bound rest
  | bound + 1, '[' :: rest =>
      match parseSet rest with
      | some (unit, after) => unit :: globUnits bound after
      | none => .char '[' :: globUnits bound rest
  | bound + 1, c :: rest => .char c :: globUnits bound rest

/-- A unit other than `*` takes the character. -/
def Glob.takes (c : Char) : Glob → Bool
  | .star => false
  | .any => true
  | .set negated ranges =>
      (ranges.any fun (low, high) => decide (low ≤ c) && decide (c ≤ high)) != negated
  | .char other => c == other

/-- The whole of the text is matched. -/
def globMatch : List Glob → List Char → Bool
  | [], text => text.isEmpty
  | .star :: units, text => text.tails.any (globMatch units)
  | _ :: _, [] => false
  | unit :: units, c :: text => unit.takes c && globMatch units text

/-- `fnmatch.fnmatchcase(name, pattern)`. -/
def fnmatchcase (name pattern : String) : Bool :=
  globMatch (globUnits pattern.toList.length pattern.toList) name.toList

/-- `glob.has_magic(pattern)`. -/
def hasMagic (pattern : String) : Bool := pattern.toList.any ("*?[".toList.contains ·)

/-! ## Symbolic links -/

/-- The symbolic links below a root, with the texts of their targets. -/
abbrev Links := List String → Option String

/-- A component that is looked up: neither `.` nor `..`. -/
structure IsName (part : String) : Prop where
  ne_dot : part ≠ "."
  ne_dotdot : part ≠ ".."

/-- Where the target of a link in `dir` starts. -/
def linkStart (target : String) (dir : List String) : List String :=
  if startsWith "/" target then [] else dir

/-- The path `parts`, walked from `dir` in a system whose root is the empty
location, leads to `final` and follows `followed` links. -/
inductive Reaches (links : Links) : List String → List String → ℕ → List String → Prop where
  | here {dir : List String} : Reaches links dir [] 0 dir
  | self {dir rest final : List String} {followed : ℕ} :
      Reaches links dir rest followed final → Reaches links dir ("." :: rest) followed final
  | parent {dir rest final : List String} {followed : ℕ} :
      Reaches links dir.dropLast rest followed final →
        Reaches links dir (".." :: rest) followed final
  | name {dir rest final : List String} {part : String} {followed : ℕ} :
      IsName part → links (dir ++ [part]) = none →
        Reaches links (dir ++ [part]) rest followed final →
          Reaches links dir (part :: rest) followed final
  | link {dir rest mid final : List String} {part target : String} {inner outer : ℕ} :
      IsName part → links (dir ++ [part]) = some target →
        Reaches links (linkStart target dir) (components target) inner mid →
          Reaches links mid rest outer final →
            Reaches links dir (part :: rest) (inner + outer + 1) final

section Reaches

variable {links : Links} {dir rest final : List String} {part target : String} {followed : ℕ}

theorem reaches_nil_iff :
    Reaches links dir [] followed final ↔ followed = 0 ∧ final = dir := by
  constructor
  · rintro ⟨⟩
    exact ⟨rfl, rfl⟩
  · rintro ⟨rfl, rfl⟩
    exact .here

theorem reaches_self_iff :
    Reaches links dir ("." :: rest) followed final ↔ Reaches links dir rest followed final := by
  refine ⟨?_, .self⟩
  intro h
  generalize hdot : "." = dot at h
  cases h with
  | self h => exact h
  | parent => exact absurd hdot (by decide)
  | name hname => exact absurd hdot.symm hname.ne_dot
  | link hname => exact absurd hdot.symm hname.ne_dot

theorem reaches_parent_iff :
    Reaches links dir (".." :: rest) followed final ↔
      Reaches links dir.dropLast rest followed final := by
  refine ⟨?_, .parent⟩
  intro h
  generalize hdots : ".." = dots at h
  cases h with
  | self => exact absurd hdots (by decide)
  | parent h => exact h
  | name hname => exact absurd hdots.symm hname.ne_dotdot
  | link hname => exact absurd hdots.symm hname.ne_dotdot

theorem reaches_name_iff (hname : IsName part) (hlink : links (dir ++ [part]) = none) :
    Reaches links dir (part :: rest) followed final ↔
      Reaches links (dir ++ [part]) rest followed final := by
  refine ⟨?_, .name hname hlink⟩
  intro h
  cases h with
  | self => exact absurd rfl hname.ne_dot
  | parent => exact absurd rfl hname.ne_dotdot
  | name _ _ h => exact h
  | link _ htarget => exact absurd (hlink.symm.trans htarget) (by simp)

/-- A path in two pieces is walked piece by piece. -/
theorem reaches_append_iff {first second : List String} :
    Reaches links dir (first ++ second) followed final ↔
      ∃ mid inner outer, Reaches links dir first inner mid ∧ Reaches links mid second outer final ∧
        followed = inner + outer := by
  constructor
  · intro h
    induction first generalizing dir followed with
    | nil => exact ⟨dir, 0, followed, .here, h, (Nat.zero_add _).symm⟩
    | cons part rest ih =>
        cases h with
        | self h =>
            obtain ⟨mid, inner, outer, hfirst, hsecond, hcount⟩ := ih h
            exact ⟨mid, inner, outer, .self hfirst, hsecond, hcount⟩
        | parent h =>
            obtain ⟨mid, inner, outer, hfirst, hsecond, hcount⟩ := ih h
            exact ⟨mid, inner, outer, .parent hfirst, hsecond, hcount⟩
        | name hname hlink h =>
            obtain ⟨mid, inner, outer, hfirst, hsecond, hcount⟩ := ih h
            exact ⟨mid, inner, outer, .name hname hlink hfirst, hsecond, hcount⟩
        | link hname hlink htarget h =>
            obtain ⟨mid, inner, outer, hfirst, hsecond, rfl⟩ := ih h
            exact ⟨mid, _, outer, .link hname hlink htarget hfirst, hsecond, by omega⟩
  · rintro ⟨mid, inner, outer, hfirst, hsecond, rfl⟩
    induction hfirst with
    | here => rwa [Nat.zero_add]
    | self _ ih => exact .self (ih hsecond)
    | parent _ ih => exact .parent (ih hsecond)
    | name hname hlink _ ih => exact .name hname hlink (ih hsecond)
    -- The second piece follows the target and the rest of the first.
    | @link dir rest mid final part target a b hname hlink htarget _ _ ih =>
        have hcount : a + b + 1 + outer = a + (b + outer) + 1 := by omega
        rw [List.cons_append, hcount]
        exact .link hname hlink htarget (ih hsecond)

/-- A link may be replaced by its target. -/
theorem reaches_link_iff (hname : IsName part) (hlink : links (dir ++ [part]) = some target) :
    Reaches links dir (part :: rest) followed final ↔
      ∃ left, followed = left + 1 ∧
        Reaches links (linkStart target dir) (components target ++ rest) left final := by
  constructor
  · intro h
    cases h with
    | self => exact absurd rfl hname.ne_dot
    | parent => exact absurd rfl hname.ne_dotdot
    | name _ hnone => exact absurd (hnone.symm.trans hlink) (by simp)
    | link _ htarget hinner houter =>
        obtain rfl := Option.some.inj (hlink.symm.trans htarget)
        exact ⟨_, rfl, reaches_append_iff.mpr ⟨_, _, _, hinner, houter, rfl⟩⟩
  · rintro ⟨left, rfl, h⟩
    obtain ⟨mid, inner, outer, hinner, houter, rfl⟩ := reaches_append_iff.mp h
    exact .link hname hlink hinner houter

end Reaches

/-! ## Locations without links -/

/-- A location with no dots and no links on the way. -/
structure Clean (links : Links) (parts : List String) : Prop where
  component : ∀ part ∈ parts, IsComponent part
  name : ∀ part ∈ parts, IsName part
  no_link : ∀ dir part, dir ++ [part] <+: parts → links (dir ++ [part]) = none

namespace Clean

variable {links : Links} {dir parts : List String} {part : String}

theorem nil : Clean links [] :=
  ⟨by simp, by simp, fun dir part hprefix => by simp at hprefix⟩

theorem dropLast (h : Clean links dir) : Clean links dir.dropLast :=
  ⟨fun part hpart => h.component part (List.mem_of_mem_dropLast hpart),
    fun part hpart => h.name part (List.mem_of_mem_dropLast hpart),
    fun front part hfront => h.no_link front part (hfront.trans (List.dropLast_prefix dir))⟩

theorem append_name (h : Clean links dir) (hcomponent : IsComponent part) (hname : IsName part)
    (hlink : links (dir ++ [part]) = none) : Clean links (dir ++ [part]) := by
  refine ⟨?_, ?_, ?_⟩
  · exact List.forall_mem_append.mpr ⟨h.component, List.forall_mem_singleton.mpr hcomponent⟩
  · exact List.forall_mem_append.mpr ⟨h.name, List.forall_mem_singleton.mpr hname⟩
  · intro front last hfront
    rcases List.prefix_concat_iff.mp hfront with heq | hfront
    · rw [heq]
      exact hlink
    · exact h.no_link front last hfront

theorem linkStart (h : Clean links dir) (target : String) : Clean links (linkStart target dir) := by
  unfold Lib.linkStart
  split
  · exact nil
  · exact h

/-- Walking keeps a location clean. -/
theorem of_reaches {final : List String} {followed : ℕ} (hreaches : Reaches links dir parts followed final)
    (hparts : ∀ part ∈ parts, IsComponent part) (hdir : Clean links dir) : Clean links final := by
  induction hreaches with
  | here => exact hdir
  | self _ ih => exact ih (List.forall_mem_cons.mp hparts).2 hdir
  | parent _ ih => exact ih (List.forall_mem_cons.mp hparts).2 hdir.dropLast
  | name hname hlink _ ih =>
      obtain ⟨hpart, hrest⟩ := List.forall_mem_cons.mp hparts
      exact ih hrest (hdir.append_name hpart hname hlink)
  -- The target is walked from a clean location and so ends in one.
  | @link _ _ _ _ _ target _ _ _ _ _ _ ihtarget ihrest =>
      have hmid := ihtarget (fun _ => isComponent_of_mem_components) (hdir.linkStart target)
      exact ihrest (List.forall_mem_cons.mp hparts).2 hmid

/-- A clean location leads to itself. -/
theorem reaches (h : Clean links (dir ++ parts)) : Reaches links dir parts 0 (dir ++ parts) := by
  induction parts generalizing dir with
  | nil =>
      rw [List.append_nil]
      exact .here
  | cons part rest ih =>
      have hassoc : dir ++ part :: rest = dir ++ [part] ++ rest := by simp
      rw [hassoc] at h ⊢
      exact .name (h.name part (by simp)) (h.no_link dir part (List.prefix_append _ _)) (ih h)

end Clean

/-! ## Opening a path from outside -/

/-- A directory tree that is looked at from outside: its links, and the locations
that are directories. -/
structure Tree where
  links : Links
  directory : List String → Bool

/-- Opening the path `parts` from the directory `dir` of the tree goes out of the
tree, in a system that gives up after following `limit` links.  A name that is
no directory ends the walk. -/
inductive Leaves (tree : Tree) : ℕ → List String → List String → Prop where
  | up {limit : ℕ} {rest : List String} : Leaves tree limit [] (".." :: rest)
  | out {limit : ℕ} {dir rest : List String} {part target : String} :
      IsName part → tree.links (dir ++ [part]) = some target → startsWith "/" target →
        Leaves tree (limit + 1) dir (part :: rest)
  | self {limit : ℕ} {dir rest : List String} :
      Leaves tree limit dir rest → Leaves tree limit dir ("." :: rest)
  | parent {limit : ℕ} {dir rest : List String} :
      dir ≠ [] → Leaves tree limit dir.dropLast rest → Leaves tree limit dir (".." :: rest)
  | name {limit : ℕ} {dir rest : List String} {part : String} :
      IsName part → tree.links (dir ++ [part]) = none → tree.directory (dir ++ [part]) →
        Leaves tree limit (dir ++ [part]) rest → Leaves tree limit dir (part :: rest)
  | link {limit : ℕ} {dir rest : List String} {part target : String} :
      IsName part → tree.links (dir ++ [part]) = some target → ¬ startsWith "/" target →
        Leaves tree limit dir (components target ++ rest) → Leaves tree (limit + 1) dir (part :: rest)

/-- Opening a clean location stays in the tree. -/
theorem Clean.not_leaves {tree : Tree} {limit : ℕ} {dir parts : List String}
    (h : Clean tree.links (dir ++ parts)) : ¬ Leaves tree limit dir parts := by
  induction parts generalizing dir with
  | nil => rintro ⟨⟩
  | cons part rest ih =>
      have hname := h.name part (by simp)
      have hassoc : dir ++ part :: rest = dir ++ [part] ++ rest := by simp
      rw [hassoc] at h
      have hnone := h.no_link dir part (List.prefix_append _ _)
      intro hleaves
      cases hleaves with
      | up => exact hname.ne_dotdot rfl
      | out _ hlink => exact absurd (hnone.symm.trans hlink) (by simp)
      | self => exact hname.ne_dot rfl
      | parent => exact hname.ne_dotdot rfl
      | name _ _ _ hrest => exact ih h hrest
      | link _ hlink => exact absurd (hnone.symm.trans hlink) (by simp)

end PqcReadiness.Lib
