import PqcReadiness.Lib.Loop
import PqcReadiness.Lib.Pathname

/-!
# The sshd configuration, from its files

`parse_sshd_config` reads `sshd_config` and everything it includes: the first value of a keyword
wins, an `Include` is expanded where it stands, in lexical order (`globHost_sorted`), and the first
`Match` line ends the parse, wherever that line is.

## Strategy

While `kex_uncertain` is down, what could not be read does not matter (`kexUncertain_sound`).  Two
file systems are compared, one of which can read more.  The runs go side by side until the parser
meets something unreadable; from then on either the flag is up or the value is settled, and neither
changes any more (`sideBySide_walk`).
-/

namespace PqcReadiness.Config

open PqcReadiness.Lib

/-! ## Reading configuration files -/

/-- `ConfigUnreadable`: a path that exists but cannot be read. -/
structure Unreadable where
  path : String
  reason : String

/-- What reading a file and listing a directory give: the content, nothing when the path
is absent, or that it is unreadable. -/
structure ConfigFs where
  readHostText : String → Except Unreadable (Option String)
  iterdir : String → Except Unreadable (Option (List String))

/-- `list_host_dir`: the names in a directory, sorted. -/
def listHostDir (fs : ConfigFs) (path : String) : Except Unreadable (Option (List String)) :=
  (fs.iterdir path).map fun names => names.map (sortedBy id)

/-- `_glob_host`: only the last component may have wildcards. -/
def globHost (fs : ConfigFs) (pattern : String) : Except Unreadable (List String) :=
  let directory := String.ofList
    (pattern.toList.reverse.dropWhile (· != '/')).tail.reverse
  let name := afterLastChar '/' pattern
  if hasMagic name then
    (listHostDir fs (if directory = "" then "/" else directory)).map fun entries =>
      ((entries.getD []).filter fun e => fnmatchcase e name).map fun e => directory ++ "/" ++ e
  else .ok [pattern]

/-! ## The parser -/

section Parser

variable (chars : CharData)

/-- `_split_directive`: the keyword in lower case and the rest of the line. -/
def splitDirective (line : String) : Option (String × String) :=
  let s := (strip line).toList
  if s.isEmpty || s.head? == some '#' then none
  else
    let key := s.takeWhile fun c => !(isSpace c || c == '=')
    let rest := (s.drop key.length).dropWhile fun c => c == ' ' || c == '\t' || c == '='
    some (chars.lower (String.ofList key), strip (String.ofList rest))

/-- `_MAX_INCLUDE_DEPTH`. -/
def maxIncludeDepth : ℕ := 16

/-- What the parser returns. -/
structure SshdConfig where
  kexAlgorithms : Option String := none
  hostKeyAlgorithms : Option String := none
  hostKeys : List String := []
  files : List String := []
  unreadable : List Unreadable := []
  kexUncertain : Bool := false
  stoppedAtMatch : Bool := false

/-- `skipped`: note a path that could not be read. -/
def skipped (e : Unreadable) (cfg : SshdConfig) : SshdConfig :=
  { cfg with
    unreadable := cfg.unreadable ++ [e]
    kexUncertain := cfg.kexUncertain || cfg.kexAlgorithms.isNone }

/-- A relative include is below `/etc/ssh`. -/
def includePattern (pat : String) : String :=
  if startsWith "/" pat then pat else "/etc/ssh/" ++ pat

/-- A keyword line outside `Match` and `Include`: the first value wins. -/
def setKeyword (key value : String) (cfg : SshdConfig) : SshdConfig :=
  if key = "hostkey" ∧ value ≠ "" then { cfg with hostKeys := cfg.hostKeys ++ [value] }
  else if key = "kexalgorithms" ∧ cfg.kexAlgorithms = none ∧ value ≠ "" then
    { cfg with kexAlgorithms := some value }
  else if key = "hostkeyalgorithms" ∧ cfg.hostKeyAlgorithms = none ∧ value ≠ "" then
    { cfg with hostKeyAlgorithms := some value }
  else cfg

variable (glob : String → Except Unreadable (List String))

/-- One pattern of an `Include` line. -/
def walkPattern (recurse : String → SshdConfig → SshdConfig × Bool) (pat : String)
    (cfg : SshdConfig) : SshdConfig × Bool :=
  match glob (includePattern pat) with
  | .error e => (skipped e cfg, true)
  | .ok included => forEach recurse included cfg

/-- One line; a `Match` ends the parse. -/
def walkLine (recurse : String → SshdConfig → SshdConfig × Bool) (line : String)
    (cfg : SshdConfig) : SshdConfig × Bool :=
  match splitDirective chars line with
  | none => (cfg, true)
  | some (key, value) =>
      if key = "match" then ({ cfg with stoppedAtMatch := true }, false)
      else if key = "include" then forEach (walkPattern glob recurse) (words value) cfg
      else (setKeyword key value cfg, true)

variable (read : String → Except Unreadable (Option String))

/-- `walk(path, depth)`, by the depth that is left: at the limit a file is skipped. -/
def walk : ℕ → String → SshdConfig → SshdConfig × Bool
  | 0, _, cfg => (cfg, true)
  | left + 1, path, cfg =>
      match read path with
      | .error e => (skipped e cfg, true)
      | .ok none => (cfg, true)
      | .ok (some text) =>
          forEach (walkLine chars glob (walk left)) (splitLines text)
            { cfg with files := cfg.files ++ [path] }

/-- `parse_sshd_config(main_path, read, glob)`. -/
def parseSshdConfig (mainPath : String) : SshdConfig :=
  (walk chars glob read (maxIncludeDepth + 1) mainPath {}).1

end Parser

/-- What stands before two texts does not change their order. -/
theorem append_le_append {first second : String} (hle : first ≤ second) (before : String) :
    before ++ first ≤ before ++ second := by
  rcases lt_or_eq_of_le hle with hlt | heq
  · apply le_of_lt
    rw [String.lt_iff_toList_lt] at hlt ⊢
    simp only [String.toList_append]
    exact List.append_left_lt hlt
  · exact le_of_eq (congrArg _ heq)

theorem setKeyword_kexAlgorithms (key value : String) (cfg : SshdConfig) :
    (setKeyword key value cfg).kexAlgorithms =
      if key = "kexalgorithms" ∧ value ≠ "" then cfg.kexAlgorithms.or (some value)
      else cfg.kexAlgorithms := by
  unfold setKeyword
  by_cases hkex : key = "kexalgorithms"
  · subst hkex
    cases hset : cfg.kexAlgorithms <;> by_cases hvalue : value = "" <;> simp [hset, hvalue]
  · simp only [hkex, false_and, if_false]
    split
    · rfl
    · split <;> rfl

/-! ## Two file systems, one of which can read more -/

/-- A value that is set stays, and so does the flag. -/
structure Later (cfg next : SshdConfig) : Prop where
  uncertain : cfg.kexUncertain = true → next.kexUncertain = true
  value : ∀ value, cfg.kexAlgorithms = some value → next.kexAlgorithms = some value

theorem Later.refl (cfg : SshdConfig) : Later cfg cfg := ⟨id, fun _ h => h⟩

theorem Later.trans {cfg next last : SshdConfig} (hfirst : Later cfg next)
    (hsecond : Later next last) : Later cfg last :=
  ⟨fun h => hsecond.uncertain (hfirst.uncertain h),
    fun value h => hsecond.value value (hfirst.value value h)⟩

theorem later_skipped (e : Unreadable) (cfg : SshdConfig) : Later cfg (skipped e cfg) :=
  ⟨fun h => by simp [skipped, h], fun _ h => h⟩

theorem kexUncertain_setKeyword (key value : String) (cfg : SshdConfig) :
    (setKeyword key value cfg).kexUncertain = cfg.kexUncertain := by
  unfold setKeyword
  split
  · rfl
  · split
    · rfl
    · split <;> rfl

theorem later_setKeyword (key value : String) (cfg : SshdConfig) :
    Later cfg (setKeyword key value cfg) := by
  refine ⟨fun h => by rw [kexUncertain_setKeyword, h], ?_⟩
  intro first hfirst
  rw [setKeyword_kexAlgorithms, hfirst]
  split <;> rfl

section Later

variable {chars : CharData} {glob : String → Except Unreadable (List String)}
  {read : String → Except Unreadable (Option String)} {α : Type}
  {recurse : String → SshdConfig → SshdConfig × Bool}

theorem later_forEach {body : α → SshdConfig → SshdConfig × Bool}
    (hbody : ∀ x cfg, Later cfg (body x cfg).1) (xs : List α) (cfg : SshdConfig) :
    Later cfg (forEach body xs cfg).1 :=
  forEach_keeps (Later cfg) (fun x next hnext => hnext.trans (hbody x next)) xs (.refl cfg)

theorem later_walkPattern (hrecurse : ∀ path cfg, Later cfg (recurse path cfg).1) (pat : String)
    (cfg : SshdConfig) : Later cfg (walkPattern glob recurse pat cfg).1 := by
  unfold walkPattern
  split
  · exact later_skipped _ _
  · exact later_forEach hrecurse _ _

theorem later_walkLine (hrecurse : ∀ path cfg, Later cfg (recurse path cfg).1) (line : String)
    (cfg : SshdConfig) : Later cfg (walkLine chars glob recurse line cfg).1 := by
  unfold walkLine
  split
  · exact .refl _
  · split
    · exact ⟨id, fun _ h => h⟩
    · split
      · exact later_forEach (later_walkPattern hrecurse) _ _
      · exact later_setKeyword _ _ _

theorem later_walk (left : ℕ) (path : String) (cfg : SshdConfig) :
    Later cfg (walk chars glob read left path cfg).1 := by
  induction left generalizing path cfg with
  | zero => exact .refl _
  | succ left ih =>
      rw [walk]
      split
      · exact later_skipped _ _
      · exact .refl _
      · have hfiles : Later cfg { cfg with files := cfg.files ++ [path] } := ⟨id, fun _ h => h⟩
        exact hfiles.trans (later_forEach (later_walkLine ih) _ _)

end Later

/-- Neither run has a value yet. -/
def Unset (cfg twin : SshdConfig) : Prop :=
  cfg.kexAlgorithms = none ∧ twin.kexAlgorithms = none

/-- The first run has its flag up, or both have settled on one value. -/
def Settled (cfg twin : SshdConfig) : Prop :=
  cfg.kexUncertain = true ∨
    ∃ value, cfg.kexAlgorithms = some value ∧ twin.kexAlgorithms = some value

theorem Settled.left {cfg twin next : SshdConfig} (h : Settled cfg twin) (hlater : Later cfg next) :
    Settled next twin := by
  rcases h with huncertain | ⟨value, hvalue, htwin⟩
  · exact Or.inl (hlater.uncertain huncertain)
  · exact Or.inr ⟨value, hlater.value value hvalue, htwin⟩

theorem Settled.right {cfg twin next : SshdConfig} (h : Settled cfg twin)
    (hlater : Later twin next) : Settled cfg next := by
  rcases h with huncertain | ⟨value, hvalue, htwin⟩
  · exact Or.inl huncertain
  · exact Or.inr ⟨value, hvalue, hlater.value value htwin⟩

/-- The runs are still side by side, or settled. -/
def SideBySide (first second : SshdConfig × Bool) : Prop :=
  (Unset first.1 second.1 ∧ first.2 = second.2) ∨ Settled first.1 second.1

/-- The second way of reading sees at least what the first one sees. -/
structure SeesMore (glob : String → Except Unreadable (List String))
    (read : String → Except Unreadable (Option String))
    (glob' : String → Except Unreadable (List String))
    (read' : String → Except Unreadable (Option String)) : Prop where
  glob : ∀ pattern files, glob pattern = .ok files → glob' pattern = .ok files
  read : ∀ path content, read path = .ok content → read' path = .ok content

section TwoRuns

variable {chars : CharData} {glob glob' : String → Except Unreadable (List String)}
  {read read' : String → Except Unreadable (Option String)} {α : Type}
  {recurse recurse' : String → SshdConfig → SshdConfig × Bool}

theorem sideBySide_forEach {body body' : α → SshdConfig → SshdConfig × Bool}
    (hbody : ∀ x cfg twin, Unset cfg twin → SideBySide (body x cfg) (body' x twin))
    (hlater : ∀ x cfg, Later cfg (body x cfg).1) (hlater' : ∀ x cfg, Later cfg (body' x cfg).1)
    (xs : List α) {cfg twin : SshdConfig} (hunset : Unset cfg twin) :
    SideBySide (forEach body xs cfg) (forEach body' xs twin) :=
  forEach_related hbody (fun x cfg _ h => h.left (hlater x cfg))
    (fun x _ twin h => h.right (hlater' x twin)) xs hunset

/-- Where nothing is set yet, an unreadable path puts the flag up. -/
theorem settled_skipped {cfg twin next : SshdConfig} (hunset : Unset cfg twin) (e : Unreadable) :
    Settled (skipped e cfg) next :=
  Or.inl (by simp [skipped, hunset.1])

theorem sideBySide_walkPattern (hmore : SeesMore glob read glob' read')
    (hrecurse : ∀ path cfg twin, Unset cfg twin → SideBySide (recurse path cfg) (recurse' path twin))
    (hlater : ∀ path cfg, Later cfg (recurse path cfg).1)
    (hlater' : ∀ path cfg, Later cfg (recurse' path cfg).1) (pat : String)
    (cfg twin : SshdConfig) (hunset : Unset cfg twin) :
    SideBySide (walkPattern glob recurse pat cfg) (walkPattern glob' recurse' pat twin) := by
  unfold walkPattern
  cases hglob : glob (includePattern pat) with
  | error e => exact Or.inr (settled_skipped hunset e)
  | ok files =>
      rw [hmore.glob _ _ hglob]
      exact sideBySide_forEach hrecurse hlater hlater' files hunset

theorem sideBySide_setKeyword (key value : String) {cfg twin : SshdConfig}
    (hunset : Unset cfg twin) :
    SideBySide (setKeyword key value cfg, true) (setKeyword key value twin, true) := by
  have hset := setKeyword_kexAlgorithms key value cfg
  have hset' := setKeyword_kexAlgorithms key value twin
  rw [hunset.1] at hset
  rw [hunset.2] at hset'
  by_cases hkex : key = "kexalgorithms" ∧ value ≠ ""
  · rw [if_pos hkex] at hset hset'
    exact Or.inr (Or.inr ⟨value, hset, hset'⟩)
  · rw [if_neg hkex] at hset hset'
    exact Or.inl ⟨⟨hset, hset'⟩, rfl⟩

theorem sideBySide_walkLine (hmore : SeesMore glob read glob' read')
    (hrecurse : ∀ path cfg twin, Unset cfg twin → SideBySide (recurse path cfg) (recurse' path twin))
    (hlater : ∀ path cfg, Later cfg (recurse path cfg).1)
    (hlater' : ∀ path cfg, Later cfg (recurse' path cfg).1) (line : String)
    (cfg twin : SshdConfig) (hunset : Unset cfg twin) :
    SideBySide (walkLine chars glob recurse line cfg) (walkLine chars glob' recurse' line twin) := by
  unfold walkLine
  cases splitDirective chars line with
  | none => exact Or.inl ⟨hunset, rfl⟩
  | some directive =>
      dsimp only
      split
      · exact Or.inl ⟨hunset, rfl⟩
      · split
        · exact sideBySide_forEach (sideBySide_walkPattern hmore hrecurse hlater hlater')
            (later_walkPattern hlater) (later_walkPattern hlater') _ hunset
        · exact sideBySide_setKeyword _ _ hunset

/-- Two runs of the walk that start without a value stay side by side until they settle. -/
theorem sideBySide_walk (chars : CharData) (hmore : SeesMore glob read glob' read') (left : ℕ)
    (path : String) (cfg twin : SshdConfig) (hunset : Unset cfg twin) :
    SideBySide (walk chars glob read left path cfg) (walk chars glob' read' left path twin) := by
  induction left generalizing path cfg twin with
  | zero => exact Or.inl ⟨hunset, rfl⟩
  | succ left ih =>
      rw [walk, walk]
      cases hread : read path with
      | error e => exact Or.inr (settled_skipped hunset e)
      | ok content =>
          rw [hmore.read _ _ hread]
          cases content with
          | none => exact Or.inl ⟨hunset, rfl⟩
          | some text =>
              exact sideBySide_forEach
                (sideBySide_walkLine hmore ih (later_walk left) (later_walk left))
                (later_walkLine (later_walk left)) (later_walkLine (later_walk left)) _ hunset

end TwoRuns

/-- The second file system agrees with the first one on everything that one can read. -/
structure AgreesWhereReadable (fs twin : ConfigFs) : Prop where
  files : ∀ path content, fs.readHostText path = .ok content → twin.readHostText path = .ok content
  directories : ∀ path names, fs.iterdir path = .ok names → twin.iterdir path = .ok names

theorem AgreesWhereReadable.seesMore {fs twin : ConfigFs} (h : AgreesWhereReadable fs twin) :
    SeesMore (globHost fs) fs.readHostText (globHost twin) twin.readHostText := by
  refine ⟨?_, h.files⟩
  intro pattern files hglob
  unfold globHost listHostDir at hglob ⊢
  dsimp only at hglob ⊢
  split at hglob
  case isFalse hmagic => rw [if_neg hmagic, hglob]
  case isTrue hmagic =>
    rw [if_pos hmagic]
    generalize (if _ = "" then "/" else _ : String) = directory at hglob ⊢
    cases hdir : fs.iterdir directory with
    | error e => rw [hdir] at hglob; cases hglob
    | ok names =>
        rw [hdir] at hglob
        rw [h.directories _ _ hdir, hglob]

/-- **`kex_uncertain` is sound: while it is down, what could not be read does not matter for
`KexAlgorithms`.** -/
theorem kexUncertain_sound (chars : CharData) (fs twin : ConfigFs)
    (hagree : AgreesWhereReadable fs twin) (mainPath : String)
    (hcertain : (parseSshdConfig chars (globHost fs) fs.readHostText mainPath).kexUncertain = false) :
    (parseSshdConfig chars (globHost twin) twin.readHostText mainPath).kexAlgorithms =
      (parseSshdConfig chars (globHost fs) fs.readHostText mainPath).kexAlgorithms := by
  have hrun := sideBySide_walk chars hagree.seesMore (maxIncludeDepth + 1) mainPath {} {}
    (show Unset {} {} from ⟨rfl, rfl⟩)
  rcases hrun with ⟨hunset, -⟩ | huncertain | ⟨value, hvalue, htwin⟩
  · exact hunset.2.trans hunset.1.symm
  · exact absurd (huncertain.symm.trans hcertain) (by simp)
  · exact htwin.trans hvalue.symm

/-- Case mapping of ASCII letters. -/
def asciiChars : CharData := ⟨fun s => String.ofList (s.toList.map Char.toLower), Char.isAlphanum⟩

/-- A host where a file that only root can read is included after `KexAlgorithms`. -/
def rootOnlyHost (secret : Except Unreadable (Option String)) : ConfigFs where
  readHostText path :=
    if path = "/etc/ssh/sshd_config" then
      .ok (some "KexAlgorithms curve25519-sha256\nInclude /etc/ssh/secret.conf\n")
    else if path = "/etc/ssh/secret.conf" then secret
    else .ok none
  iterdir _ := .ok none

/-- The host for a user who is not root. -/
def lockedHost : ConfigFs :=
  rootOnlyHost (.error ⟨"/etc/ssh/secret.conf", "permission denied"⟩)

/-- The host for root. -/
def openHost : ConfigFs := rootOnlyHost (.ok (some "KexAlgorithms sntrup761x25519-sha512\n"))

theorem lockedHost_agrees : AgreesWhereReadable lockedHost openHost := by
  refine ⟨?_, fun _ _ h => h⟩
  intro path content hread
  unfold lockedHost rootOnlyHost at hread
  unfold openHost rootOnlyHost
  dsimp only at hread ⊢
  split at hread
  case isTrue hmain => rw [if_pos hmain, hread]
  case isFalse hmain =>
    split at hread
    case isTrue => cases hread
    case isFalse hsecret => rw [if_neg hmain, if_neg hsecret, hread]

/-- What the file holds does not matter here. -/
theorem lockedHost_certain :
    (parseSshdConfig asciiChars (globHost openHost) openHost.readHostText
        "/etc/ssh/sshd_config").kexAlgorithms =
      (parseSshdConfig asciiChars (globHost lockedHost) lockedHost.readHostText
        "/etc/ssh/sshd_config").kexAlgorithms :=
  kexUncertain_sound asciiChars lockedHost openHost lockedHost_agrees "/etc/ssh/sshd_config"
    (by decide +kernel)

end PqcReadiness.Config
