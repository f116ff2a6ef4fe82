import PqcReadiness.Lib.Chains
import PqcReadiness.Lib.Matching
import PqcReadiness.Runtime.Services

/-!
# The walk along `DT_NEEDED`

`_linked_crypto_libraries` turn by turn: the queue, the names seen, the dynamic sections that the
cache holds, the budget, and a record of what is looked at below the root.  A file on which
`elf_dynamic` raises what is not handled ends the walk, with the exception in `raised`.

The names that a binary's file leads to come from the scanned host.  `Contained` is the invariant
that keeps the walk in the root: a directory is looked in only after `normpath`, and a name is
never a path.  As long as the budget lasts and no file has directories of its own, the walk is a
search of `Lib.Chains` over names (`Beside`), so that it finds the libraries at the end of a chain
of at most three names, although no name is followed twice.
-/

namespace PqcReadiness.Runtime

open PqcReadiness.Lib

/-! ## The code -/

/-- The files below a root, by the names on the way to them; `dynamic` is what opening a file and
`elf_dynamic` come to. -/
structure RootFiles where
  isFile : List String → Bool
  dynamic : List String → Except ElfFault (Option Dynamic)

/-- The dynamic section of a file on which nothing is raised. -/
def RootFiles.section? (files : RootFiles) (place : List String) : Option Dynamic :=
  match files.dynamic place with
  | .ok dyn => dyn
  | .error _ => none

theorem RootFiles.section?_eq_some {files : RootFiles} {place : List String} {dyn : Dynamic} :
    files.section? place = some dyn ↔ files.dynamic place = .ok (some dyn) := by
  rw [RootFiles.section?]
  cases files.dynamic place <;> simp

/-- `root / path.lstrip("/")`: the names on the way there. -/
def location (path : String) : List String := (components path).filter (· ≠ ".")

/-- The state of the walk: `queue` to `budget` are those of the code, `read` is the files that it
has opened, `probed` the places that it has looked at, and `raised` what has left it. -/
structure NeededWalk where
  queue : List (String × ℕ)
  seen : List String
  found : List String
  cache : Dict String (Option Dynamic)
  budget : ℕ
  read : List String
  probed : List (List String)
  raised : Option ElfFault

/-- The key of a file in the cache. -/
def dynamicKey (root path : String) : String := root ++ "\x00" ++ path

/-- A name that is not a path of its own. -/
def isPlainName (name : String) : Bool :=
  !(name.toList.contains '/' || name = "" || name = "." || name = "..")

/-- The first of the directories that has a file of this name, and the places looked at. -/
def lookUp (files : RootFiles) (name : String) : List String → Option String × List (List String)
  | [] => (none, [])
  | dir :: rest =>
      if startsWith "/" dir then
        let place := location dir ++ [name]
        if files.isFile place then (some (osJoin dir name), [place])
        else
          let (resolved, places) := lookUp files name rest
          (resolved, place :: places)
      else lookUp files name rest

section Walk

variable (chars : CharData) (root : String) (files : RootFiles) (libDirs : List String)

/-- One needed name of a file at this depth. -/
def NeededWalk.need (dirs : List String) (depth : ℕ) (walk : NeededWalk) (name : String) :
    NeededWalk :=
  if !isPlainName name then walk
  else if name ∈ walk.seen ∨ notFollowed chars name then walk
  else
    let (resolved, places) := lookUp files name dirs
    let walk := { walk with seen := walk.seen ++ [name], probed := walk.probed ++ places }
    match resolved with
    | none => walk
    | some path => { walk with
        found :=
          if (libraryFamily chars name).isSome then walk.found ++ [path] else walk.found
        queue :=
          if depth < workerNeededDepth then walk.queue ++ [(path, depth + 1)] else walk.queue }

/-- `_dynamic_through`: the dynamic section, and the walk with it in the cache. -/
def NeededWalk.dynamicThrough (walk : NeededWalk) (path : String) : Option Dynamic × NeededWalk :=
  match walk.cache.get? (dynamicKey root path) with
  | some dyn => (dyn, walk)
  | none =>
      let walk := { walk with read := walk.read ++ [path] }
      match files.dynamic (location path) with
      | .ok dyn =>
          (dyn, { walk with cache := walk.cache.update (dynamicKey root path) fun _ => dyn })
      | .error fault => (none, { walk with raised := some fault })

/-- A file from the queue. -/
def NeededWalk.visit (walk : NeededWalk) (path : String) (depth : ℕ) : NeededWalk :=
  let walk :=
    if walk.cache.get? (dynamicKey root path) = none then
      { walk with budget := walk.budget - 1 }
    else walk
  match walk.dynamicThrough root files path with
  | (none, walk) => walk
  | (some dyn, walk) =>
      let dirs := searchDirs libDirs path dyn.runpath
      dyn.needed.foldl (NeededWalk.need chars files dirs depth) walk

/-! ## What a name and a file do to the walk -/

/-- What needing some names does, besides what it finds. -/
structure NeededWalk.Grown (depth : ℕ) (walk next : NeededWalk) : Prop where
  queue : ∃ added, next.queue = walk.queue ++ added ∧
    ∀ entry ∈ added, entry.2 = depth + 1 ∧ depth < workerNeededDepth
  cache : next.cache = walk.cache
  budget : next.budget = walk.budget
  read : next.read = walk.read
  raised : next.raised = walk.raised

theorem NeededWalk.grown_need (dirs : List String) (depth : ℕ) (walk : NeededWalk) (name : String) :
    NeededWalk.Grown depth walk (NeededWalk.need chars files dirs depth walk name) := by
  rw [NeededWalk.need]
  split
  · exact ⟨⟨[], by simp⟩, rfl, rfl, rfl, rfl⟩
  · split
    · exact ⟨⟨[], by simp⟩, rfl, rfl, rfl, rfl⟩
    · dsimp only
      split
      · exact ⟨⟨[], by simp⟩, rfl, rfl, rfl, rfl⟩
      · next path _ =>
          refine ⟨?_, rfl, rfl, rfl, rfl⟩
          by_cases hdepth : depth < workerNeededDepth
          · exact ⟨[(path, depth + 1)], by simp [hdepth]⟩
          · exact ⟨[], by simp [hdepth]⟩

theorem NeededWalk.grown_foldl (dirs : List String) (depth : ℕ) (names : List String)
    (walk : NeededWalk) :
    NeededWalk.Grown depth walk (names.foldl (NeededWalk.need chars files dirs depth) walk) := by
  induction names generalizing walk with
  | nil => exact ⟨⟨[], by simp⟩, rfl, rfl, rfl, rfl⟩
  | cons name names ih =>
      obtain ⟨⟨first, hfirst, hdepth⟩, hcache, hbudget, hread, hraised⟩ :=
        NeededWalk.grown_need chars files dirs depth walk name
      obtain ⟨⟨rest, hrest, hdepths⟩, hcaches, hbudgets, hreads, hraiseds⟩ :=
        ih (NeededWalk.need chars files dirs depth walk name)
      refine ⟨⟨first ++ rest, ?_, ?_⟩, hcaches.trans hcache, hbudgets.trans hbudget,
        hreads.trans hread, hraiseds.trans hraised⟩
      · rw [List.foldl_cons, hrest, hfirst, List.append_assoc]
      · exact List.forall_mem_append.mpr ⟨hdepth, hdepths⟩

/-- What reading a file costs: nothing if the cache has it, and its place in the budget if not; a
file on which something is raised does not get into the cache. -/
inductive NeededWalk.Cost (path : String) (walk next : NeededWalk) : Prop
  | cached (known : (walk.cache.get? (dynamicKey root path)).isSome) (read : next.read = walk.read)
      (budget : next.budget = walk.budget) (cache : next.cache = walk.cache)
      (raised : next.raised = walk.raised)
  | opened (dyn : Option Dynamic) (fresh : walk.cache.get? (dynamicKey root path) = none)
      (file : files.dynamic (location path) = .ok dyn) (read : next.read = walk.read ++ [path])
      (budget : next.budget = walk.budget - 1)
      (cache : next.cache = walk.cache.update (dynamicKey root path) fun _ => dyn)
      (raised : next.raised = walk.raised)
  | raised (fault : ElfFault) (fresh : walk.cache.get? (dynamicKey root path) = none)
      (file : files.dynamic (location path) = .error fault)
      (read : next.read = walk.read ++ [path]) (budget : next.budget = walk.budget - 1)
      (cache : next.cache = walk.cache) (raised : next.raised = some fault)

/-- What a file does to the walk: it is read unless the cache has it, and its names are needed. -/
structure NeededWalk.Visited (path : String) (depth : ℕ) (walk next : NeededWalk) : Prop where
  queue : ∃ added, next.queue = walk.queue ++ added ∧
    ∀ entry ∈ added, entry.2 = depth + 1 ∧ depth < workerNeededDepth
  cost : NeededWalk.Cost root files path walk next

theorem NeededWalk.visit_eq (walk : NeededWalk) (path : String) (depth : ℕ) :
    ∃ opened : NeededWalk, opened.queue = walk.queue ∧ opened.seen = walk.seen ∧
      opened.found = walk.found ∧ opened.probed = walk.probed ∧
      NeededWalk.Cost root files path walk opened ∧
      NeededWalk.visit chars root files libDirs walk path depth =
        match (walk.cache.get? (dynamicKey root path)).getD (files.section? (location path)) with
        | none => opened
        | some dyn => dyn.needed.foldl
            (NeededWalk.need chars files (searchDirs libDirs path dyn.runpath) depth) opened := by
  rw [NeededWalk.visit]
  cases hget : walk.cache.get? (dynamicKey root path) with
  | none =>
      simp only [if_true, NeededWalk.dynamicThrough, hget, Option.getD_none, RootFiles.section?]
      cases hfile : files.dynamic (location path) with
      | ok dyn =>
          refine ⟨{ walk with
            cache := walk.cache.update (dynamicKey root path) fun _ => dyn
            budget := walk.budget - 1
            read := walk.read ++ [path] }, rfl, rfl, rfl, rfl,
            .opened dyn hget hfile rfl rfl rfl rfl, ?_⟩
          cases dyn <;> rfl
      | error fault =>
          exact ⟨{ walk with
            budget := walk.budget - 1
            read := walk.read ++ [path]
            raised := some fault }, rfl, rfl, rfl, rfl,
            .raised fault hget hfile rfl rfl rfl rfl, rfl⟩
  | some dyn =>
      refine ⟨walk, rfl, rfl, rfl, rfl, .cached (by rw [hget]; rfl) rfl rfl rfl rfl, ?_⟩
      simp only [NeededWalk.dynamicThrough, hget, Option.getD_some, reduceCtorEq, if_false]
      cases dyn <;> rfl

/-- What costs the same, and leaves the same cache, records and exception. -/
theorem NeededWalk.Cost.congr {path : String} {walk opened next : NeededWalk}
    (h : NeededWalk.Cost root files path walk opened) (hcache : next.cache = opened.cache)
    (hbudget : next.budget = opened.budget) (hread : next.read = opened.read)
    (hraised : next.raised = opened.raised) : NeededWalk.Cost root files path walk next := by
  cases h with
  | cached known read budget cache raised =>
      exact .cached known (hread.trans read) (hbudget.trans budget) (hcache.trans cache)
        (hraised.trans raised)
  | opened dyn fresh file read budget cache raised =>
      exact .opened dyn fresh file (hread.trans read) (hbudget.trans budget) (hcache.trans cache)
        (hraised.trans raised)
  | raised fault fresh file read budget cache raised =>
      exact .raised fault fresh file (hread.trans read) (hbudget.trans budget)
        (hcache.trans cache) (hraised.trans raised)

theorem NeededWalk.visited (walk : NeededWalk) (path : String) (depth : ℕ) :
    NeededWalk.Visited root files path depth walk
      (NeededWalk.visit chars root files libDirs walk path depth) := by
  obtain ⟨opened, hqueue, -, -, -, hopened, heq⟩ :=
    NeededWalk.visit_eq chars root files libDirs walk path depth
  rw [heq]
  split
  · exact ⟨⟨[], by simp [hqueue]⟩, hopened⟩
  · next dyn _ =>
      obtain ⟨⟨added, hadded, hdepths⟩, hcache, hbudget, hread, hraised⟩ :=
        NeededWalk.grown_foldl chars files (searchDirs libDirs path dyn.runpath) depth dyn.needed
          opened
      exact ⟨⟨added, hadded.trans (by rw [hqueue]), hdepths⟩,
        hopened.congr root files hcache hbudget hread hraised⟩

/-- The loop of `_linked_crypto_libraries`. -/
def neededLoop : Loop NeededWalk NeededWalk where
  turn walk :=
    match walk.queue with
    | [] => .inr walk
    | (path, depth) :: queue =>
        if walk.budget = 0 then .inr walk
        else
          let next :=
            NeededWalk.visit chars root files libDirs { walk with queue := queue } path depth
          if next.raised.isSome then .inr next else .inl next
  below next walk := Deeper workerNeededDepth next.queue walk.queue
  wellFounded := InvImage.wf NeededWalk.queue (wellFounded_deeper _)
  decreases {walk next} hturn := by
    cases hqueue : walk.queue with
    | nil => simp [hqueue] at hturn
    | cons entry queue =>
        obtain ⟨path, depth⟩ := entry
        simp only [hqueue] at hturn
        split at hturn
        · cases hturn
        · split at hturn
          · cases hturn
          · obtain rfl := Sum.inl.inj hturn
            obtain ⟨added, hadded, hdepths⟩ := (NeededWalk.visited chars root files libDirs
              { walk with queue := queue } path depth).queue
            rw [hadded]
            exact deeper_of_append hdepths

/-- A turn of the loop: it leaves with the walk as it is, or after or with the next file. -/
theorem neededLoop_turn (walk : NeededWalk) :
    ((walk.queue = [] ∨ walk.budget = 0) ∧
        (neededLoop chars root files libDirs).turn walk = .inr walk) ∨
      ∃ path depth queue, walk.queue = (path, depth) :: queue ∧ walk.budget ≠ 0 ∧
        (neededLoop chars root files libDirs).turn walk =
          if (NeededWalk.visit chars root files libDirs { walk with queue := queue } path
              depth).raised.isSome then
            .inr (NeededWalk.visit chars root files libDirs { walk with queue := queue } path depth)
          else
            .inl (NeededWalk.visit chars root files libDirs { walk with queue := queue } path
              depth) := by
  cases hqueue : walk.queue with
  | nil =>
      refine .inl ⟨.inl rfl, ?_⟩
      simp only [neededLoop, hqueue]
  | cons entry queue =>
      obtain ⟨path, depth⟩ := entry
      by_cases hbudget : walk.budget = 0
      · refine .inl ⟨.inr hbudget, ?_⟩
        simp only [neededLoop, hqueue, if_pos hbudget]
      · refine .inr ⟨path, depth, queue, rfl, hbudget, ?_⟩
        simp only [neededLoop, hqueue, if_neg hbudget]

/-- What visiting a file keeps, the loop keeps. -/
theorem neededLoop_keeps {P : NeededWalk → Prop}
    (hvisit : ∀ (walk : NeededWalk) (path : String) (depth : ℕ) (queue : List (String × ℕ)),
      walk.queue = (path, depth) :: queue → walk.budget ≠ 0 → walk.raised = none → P walk →
        P (NeededWalk.visit chars root files libDirs { walk with queue := queue } path depth))
    {walk : NeededWalk} (hraised : walk.raised = none) (hwalk : P walk) :
    P ((neededLoop chars root files libDirs).result walk) := by
  refine Loop.result_keeps (fun walk => walk.raised = none ∧ P walk) P ?_ ?_ ⟨hraised, hwalk⟩
  · intro state next hnext ⟨hnone, hstate⟩
    rcases neededLoop_turn chars root files libDirs state with
      ⟨-, hturn⟩ | ⟨path, depth, queue, hqueue, hbudget, hturn⟩
    · rw [hturn] at hnext
      cases hnext
    · rw [hturn] at hnext
      split at hnext
      · cases hnext
      · next hquiet =>
          obtain rfl := Sum.inl.inj hnext
          exact ⟨by simpa using hquiet, hvisit state path depth queue hqueue hbudget hnone hstate⟩
  · intro state answer hanswer ⟨hnone, hstate⟩
    rcases neededLoop_turn chars root files libDirs state with
      ⟨-, hturn⟩ | ⟨path, depth, queue, hqueue, hbudget, hturn⟩
    · rw [hturn] at hanswer
      exact Sum.inr.inj hanswer ▸ hstate
    · rw [hturn] at hanswer
      split at hanswer
      · obtain rfl := Sum.inr.inj hanswer
        exact hvisit state path depth queue hqueue hbudget hnone hstate
      · cases hanswer

/-- The walk when it begins. -/
def NeededWalk.start (cache : Dict String (Option Dynamic)) (budget : ℕ) (binary : String) :
    NeededWalk :=
  ⟨[(binary, 0)], [], [], cache, budget, [], [], none⟩

/-- `_linked_crypto_libraries`: the walk when it ends. -/
def walkNeeded (cache : Dict String (Option Dynamic)) (budget : ℕ) (binary : String) :
    NeededWalk :=
  (neededLoop chars root files libDirs).result (NeededWalk.start cache budget binary)

end Walk

/-! ## Staying in the root -/

/-- An absolute path that does not go up. -/
def Inside (path : String) : Prop := startsWith "/" path ∧ ".." ∉ components path

instance (path : String) : Decidable (Inside path) := inferInstanceAs (Decidable (_ ∧ _))

section Inside

variable {dir name path : String}

theorem isComponent_of_isPlainName (hname : isPlainName name) :
    IsComponent name ∧ name ≠ "." ∧ name ≠ ".." := by
  simp only [isPlainName, Bool.not_eq_true', Bool.or_eq_false_iff, decide_eq_false_iff_not] at hname
  obtain ⟨⟨⟨hslash, hempty⟩, hdot⟩, hdots⟩ := hname
  exact ⟨⟨hempty, by simpa using hslash⟩, hdot, hdots⟩

theorem startsWith_append {start text : String} (hstart : startsWith start text) (more : String) :
    startsWith start (text ++ more) := by
  rw [startsWith, List.isPrefixOf_iff_prefix] at hstart ⊢
  rw [String.toList_append]
  exact hstart.trans (List.prefix_append _ _)

/-- A name joined to a directory stands behind a slash. -/
theorem osJoin_eq (hdir : startsWith "/" dir) (name : String) :
    ∃ front, osJoin dir name = front ++ "/" ++ name ∧ components front = components dir ∧
      startsWith "/" (osJoin dir name) := by
  have hne : dir ≠ "" := by
    rintro rfl
    exact absurd hdir (by decide)
  by_cases hend : endsWith "/" dir
  · obtain ⟨front, hfront⟩ := List.isSuffixOf_iff_suffix.mp hend
    have hdir' : dir = String.ofList front ++ "/" := by
      apply String.toList_injective
      rw [← hfront]
      simp
    have hjoin : osJoin dir name = dir ++ name := if_pos (.inr hend)
    refine ⟨String.ofList front, by rw [hjoin, hdir'], ?_, ?_⟩
    · have hsplit := components_slash (String.ofList front) ""
      rw [String.append_empty, ← hdir'] at hsplit
      rw [hsplit]
      exact (List.append_nil _).symm
    · rw [hjoin]
      exact startsWith_append hdir name
  · have hjoin : osJoin dir name = dir ++ "/" ++ name := if_neg (not_or.mpr ⟨hne, hend⟩)
    refine ⟨dir, hjoin, rfl, ?_⟩
    rw [hjoin]
    exact startsWith_append (startsWith_append hdir "/") name

theorem components_osJoin (hdir : startsWith "/" dir) (hname : IsComponent name) :
    components (osJoin dir name) = components dir ++ [name] := by
  obtain ⟨front, hjoin, hcomponents, -⟩ := osJoin_eq hdir name
  rw [hjoin, components_slash, hcomponents, components_of_isComponent hname]

theorem basename_append (front : String) (hname : '/' ∉ name.toList) :
    basename (front ++ "/" ++ name) = name := by
  have htake : (name.toList.reverse ++ '/' :: front.toList.reverse).takeWhile (· != '/') =
      name.toList.reverse := by
    rw [List.takeWhile_append_of_pos]
    · simp
    · intro c hc
      have hmem : c ∈ name.toList := List.mem_reverse.mp hc
      simp only [bne_iff_ne]
      rintro rfl
      exact hname hmem
  simp [basename, afterLastChar, htake]

theorem basename_osJoin (hdir : startsWith "/" dir) (hname : IsComponent name) :
    basename (osJoin dir name) = name := by
  obtain ⟨front, hjoin, -, -⟩ := osJoin_eq hdir name
  rw [hjoin, basename_append front hname.no_slash]

theorem Inside.join (hdir : Inside dir) (hname : isPlainName name) : Inside (osJoin dir name) := by
  obtain ⟨hcomponent, -, hdots⟩ := isComponent_of_isPlainName hname
  refine ⟨(osJoin_eq hdir.1 name).choose_spec.2.2, ?_⟩
  rw [components_osJoin hdir.1 hcomponent, List.mem_append, List.mem_singleton, not_or]
  exact ⟨hdir.2, hdots.symm⟩

theorem Inside.location (hpath : Inside path) : ".." ∉ location path := fun hmem =>
  hpath.2 (List.mem_filter.mp hmem).1

/-- `normpath` leaves no step up in an absolute path. -/
theorem dots_notMem_normComponents (hpath : startsWith "/" path) : ".." ∉ normComponents path := by
  have hfold : ∀ (rest parts : List String), ".." ∉ parts →
      ".." ∉ rest.foldl (normStep true) parts := by
    intro rest
    induction rest with
    | nil => exact fun parts hparts => hparts
    | cons part rest ih =>
        intro parts hparts
        refine ih _ ?_
        have hlast : parts.getLast? ≠ some ".." := fun h => hparts (List.mem_of_getLast? h)
        rw [normStep]
        split
        · exact hparts
        · split
          · next hkeep =>
              have hpart : part ≠ ".." := by simpa [hlast] using hkeep
              rw [List.mem_append, List.mem_singleton, not_or]
              exact ⟨hparts, hpart.symm⟩
          · exact fun hmem => hparts (List.mem_of_mem_dropLast hmem)
  rw [normComponents, hpath]
  exact hfold _ [] List.not_mem_nil

/-- What `normpath` makes absolute was absolute. -/
theorem startsWith_of_normpath (hnorm : startsWith "/" (normpath path)) : startsWith "/" path := by
  by_contra hrelative
  have htwo : ¬ startsWith "//" path := by
    intro htwo
    refine hrelative ?_
    rw [startsWith, List.isPrefixOf_iff_prefix] at htwo ⊢
    exact List.IsPrefix.trans ⟨['/'], rfl⟩ htwo
  have hslashes : leadingSlashes path = "" := by
    simp [leadingSlashes, hrelative, htwo]
  rw [normpath, hslashes, String.empty_append] at hnorm
  split at hnorm
  · exact absurd hnorm (by decide)
  · cases hparts : normComponents path with
    | nil =>
        rw [hparts] at hnorm
        exact absurd hnorm (by decide)
    | cons part rest =>
        have hpart : IsComponent part :=
          (normComponents_components path part (hparts ▸ List.mem_cons_self)).1
        have hstart : ∃ more, join "/" (part :: rest) = part ++ more := by
          cases rest with
          | nil => exact ⟨"", String.append_empty.symm⟩
          | cons next rest =>
              refine ⟨"/" ++ join "/" (next :: rest), ?_⟩
              rw [join, String.append_assoc]
              simp
        obtain ⟨more, hmore⟩ := hstart
        rw [hparts, hmore] at hnorm
        cases hchars : part.toList with
        | nil => exact hpart.ne_empty (String.toList_eq_nil_iff.mp hchars)
        | cons c chars =>
            rw [startsWith, String.toList_append, hchars] at hnorm
            have hc : '/' = c := by simpa [List.isPrefixOf] using hnorm
            exact hpart.no_slash (by rw [hchars, hc]; exact List.mem_cons_self)

theorem inside_normpath (hnorm : startsWith "/" (normpath path)) : Inside (normpath path) := by
  have hpath := startsWith_of_normpath hnorm
  refine ⟨hnorm, ?_⟩
  rw [(normpath_of_absolute hpath).2]
  exact dots_notMem_normComponents hpath

end Inside

section LookUp

variable {files : RootFiles} {name path : String} {dirs : List String}

theorem mem_lookUp_places {place : List String} (hplace : place ∈ (lookUp files name dirs).2) :
    ∃ dir ∈ dirs, startsWith "/" dir ∧ place = location dir ++ [name] := by
  induction dirs with
  | nil => cases hplace
  | cons dir dirs ih =>
      rw [lookUp] at hplace
      have hlater : place ∈ (lookUp files name dirs).2 →
          ∃ dir' ∈ dir :: dirs, startsWith "/" dir' ∧ place = location dir' ++ [name] := by
        intro hmem
        obtain ⟨dir', hdir', hfound⟩ := ih hmem
        exact ⟨dir', List.mem_cons_of_mem _ hdir', hfound⟩
      split at hplace
      · next habsolute =>
          dsimp only at hplace
          split at hplace
          · exact ⟨dir, List.mem_cons_self, habsolute, List.mem_singleton.mp hplace⟩
          · rcases List.mem_cons.mp hplace with rfl | hplace
            · exact ⟨dir, List.mem_cons_self, habsolute, rfl⟩
            · exact hlater hplace
      · exact hlater hplace

theorem lookUp_resolved (hresolved : (lookUp files name dirs).1 = some path) :
    ∃ dir ∈ dirs, startsWith "/" dir ∧ path = osJoin dir name := by
  induction dirs with
  | nil => cases hresolved
  | cons dir dirs ih =>
      rw [lookUp] at hresolved
      have hlater : (lookUp files name dirs).1 = some path →
          ∃ dir' ∈ dir :: dirs, startsWith "/" dir' ∧ path = osJoin dir' name := by
        intro hrest
        obtain ⟨dir', hdir', hfound⟩ := ih hrest
        exact ⟨dir', List.mem_cons_of_mem _ hdir', hfound⟩
      split at hresolved
      · next habsolute =>
          dsimp only at hresolved
          split at hresolved
          · exact ⟨dir, List.mem_cons_self, habsolute, (Option.some.inj hresolved).symm⟩
          · exact hlater hresolved
      · exact hlater hresolved

end LookUp

section Contained

variable {chars : CharData} {root : String} {files : RootFiles} {libDirs : List String}
  {cache : Dict String (Option Dynamic)} {limit : ℕ} {walk : NeededWalk}

/-- The walk has stayed in the root, within its budget, and has found no library twice. -/
structure Contained (root : String) (cache : Dict String (Option Dynamic)) (limit : ℕ)
    (walk : NeededWalk) : Prop where
  queue : ∀ entry ∈ walk.queue, Inside entry.1
  probed : ∀ place ∈ walk.probed, ".." ∉ place
  read : ∀ path ∈ walk.read, ".." ∉ location path ∧ cache.get? (dynamicKey root path) = none
  spent : walk.read.length + walk.budget = limit
  cached : ∀ key, (cache.get? key).isSome → (walk.cache.get? key).isSome
  found : walk.found.Nodup
  named : ∀ path ∈ walk.found, basename path ∈ walk.seen

theorem Contained.need {dirs : List String}
    (hdirs : ∀ dir ∈ dirs, startsWith "/" dir → Inside dir) (depth : ℕ)
    (h : Contained root cache limit walk) (name : String) :
    Contained root cache limit (NeededWalk.need chars files dirs depth walk name) := by
  rw [NeededWalk.need]
  split
  · exact h
  · next hplain =>
      have hname : isPlainName name := by simpa using hplain
      obtain ⟨hcomponent, -, hdots⟩ := isComponent_of_isPlainName hname
      split
      · exact h
      · next hskip =>
          have hfresh : name ∉ walk.seen := fun hseen => hskip (.inl hseen)
          have hprobed : ∀ place ∈ walk.probed ++ (lookUp files name dirs).2, ".." ∉ place := by
            refine List.forall_mem_append.mpr ⟨h.probed, fun place hplace => ?_⟩
            obtain ⟨dir, hdir, habsolute, rfl⟩ := mem_lookUp_places hplace
            rw [List.mem_append, List.mem_singleton, not_or]
            exact ⟨(hdirs dir hdir habsolute).location, hdots.symm⟩
          have hnamed : ∀ path ∈ walk.found, basename path ∈ walk.seen ++ [name] :=
            fun path hpath => List.mem_append_left _ (h.named path hpath)
          dsimp only
          cases hresolved : (lookUp files name dirs).1 with
          | none => exact ⟨h.queue, hprobed, h.read, h.spent, h.cached, h.found, hnamed⟩
          | some path =>
              obtain ⟨dir, hdir, habsolute, rfl⟩ := lookUp_resolved hresolved
              have hbase := basename_osJoin habsolute hcomponent
              refine ⟨?_, hprobed, h.read, h.spent, h.cached, ?_, ?_⟩
              · have hinside : Inside (osJoin dir name) := (hdirs dir hdir habsolute).join hname
                dsimp only
                split
                · refine List.forall_mem_append.mpr ⟨h.queue, fun entry hentry => ?_⟩
                  rw [List.mem_singleton.mp hentry]
                  exact hinside
                · exact h.queue
              · dsimp only
                split
                · rw [List.nodup_append]
                  refine ⟨h.found, List.nodup_singleton _, fun path hpath other hother => ?_⟩
                  rw [List.mem_singleton.mp hother]
                  rintro rfl
                  exact hfresh (hbase ▸ h.named _ hpath)
                · exact h.found
              · dsimp only
                split
                · refine List.forall_mem_append.mpr ⟨hnamed, fun path hpath => ?_⟩
                  rw [List.mem_singleton.mp hpath, hbase]
                  exact List.mem_append_right _ (List.mem_singleton_self _)
                · exact hnamed

theorem Contained.needAll {dirs : List String}
    (hdirs : ∀ dir ∈ dirs, startsWith "/" dir → Inside dir) (depth : ℕ) (names : List String)
    (h : Contained root cache limit walk) :
    Contained root cache limit (names.foldl (NeededWalk.need chars files dirs depth) walk) := by
  induction names generalizing walk with
  | nil => exact h
  | cons name names ih => exact ih (h.need hdirs depth name)

/-- The directories of a file are looked in only after `normpath`. -/
theorem inside_searchDirs (hlibs : ∀ dir ∈ libDirs, Inside dir) (path : String)
    (runpath : List String) :
    ∀ dir ∈ searchDirs libDirs path runpath, startsWith "/" dir → Inside dir := by
  intro dir hdir habsolute
  rcases List.mem_append.mp hdir with hdir | hdir
  · obtain ⟨text, -, rfl⟩ := List.mem_map.mp hdir
    exact inside_normpath habsolute
  · exact hlibs dir hdir

theorem Contained.visit (hlibs : ∀ dir ∈ libDirs, Inside dir) {path : String} (depth : ℕ)
    (hpath : Inside path) (hbudget : walk.budget ≠ 0) (h : Contained root cache limit walk) :
    Contained root cache limit (NeededWalk.visit chars root files libDirs walk path depth) := by
  obtain ⟨opened, hqueue, hseen, hfound, hprobed, hopened, heq⟩ :=
    NeededWalk.visit_eq chars root files libDirs walk path depth
  -- A file that is opened is one that the cache before the walk did not have.
  have hfresh : walk.cache.get? (dynamicKey root path) = none → opened.read = walk.read ++ [path] →
      ∀ other ∈ opened.read, ".." ∉ location other ∧ cache.get? (dynamicKey root other) = none := by
    intro hnone hread
    rw [hread]
    refine List.forall_mem_append.mpr ⟨h.read, fun other hother => ?_⟩
    rw [List.mem_singleton.mp hother]
    refine ⟨hpath.location, ?_⟩
    by_contra hsome
    have hkept := h.cached (dynamicKey root path) (Option.isSome_iff_ne_none.mpr hsome)
    rw [hnone] at hkept
    cases hkept
  have hspent := h.spent
  -- What the cache has is neither read nor paid for.
  have hcontained : Contained root cache limit opened := by
    refine ⟨hqueue ▸ h.queue, hprobed ▸ h.probed, ?_, ?_, ?_, hfound ▸ h.found, ?_⟩
    · cases hopened with
      | cached known read => exact read ▸ h.read
      | opened dyn fresh file read => exact hfresh fresh read
      | raised fault fresh file read => exact hfresh fresh read
    · cases hopened with
      | cached known read budget =>
          rw [read, budget]
          exact hspent
      | opened dyn fresh file read budget =>
          rw [read, budget, List.length_append, List.length_singleton]
          omega
      | raised fault fresh file read budget =>
          rw [read, budget, List.length_append, List.length_singleton]
          omega
    · cases hopened with
      | cached known read budget cache => exact cache ▸ h.cached
      | opened dyn fresh file read budget cache =>
          intro key hkey
          rw [cache, Dict.get?_update]
          split
          · rfl
          · exact h.cached key hkey
      | raised fault fresh file read budget cache => exact cache ▸ h.cached
    · rw [hfound, hseen]
      exact h.named
  rw [heq]
  split
  · exact hcontained
  · exact hcontained.needAll (inside_searchDirs hlibs path _) depth _

theorem Contained.result (hlibs : ∀ dir ∈ libDirs, Inside dir) (hraised : walk.raised = none)
    (h : Contained root cache limit walk) :
    Contained root cache limit ((neededLoop chars root files libDirs).result walk) := by
  refine neededLoop_keeps chars root files libDirs ?_ hraised h
  intro walk path depth queue hqueue hbudget _ h
  obtain ⟨hpath, hrest⟩ := List.forall_mem_cons.mp (hqueue ▸ h.queue)
  exact Contained.visit hlibs depth hpath hbudget
    ⟨hrest, h.probed, h.read, h.spent, h.cached, h.found, h.named⟩

end Contained

/-! ## Finding every library -/

section Complete

variable (chars : CharData) (root : String) (files : RootFiles) (libDirs : List String)

/-- The names that are followed from a file. -/
def followedNames (path : String) : List String :=
  ((files.section? (location path)).elim [] Dynamic.needed).filter fun name =>
    isPlainName name && !notFollowed chars name

/-- The file that a name stands for. -/
def resolveName (name : String) : Option String := (lookUp files name libDirs).1

/-- The library that a name stands for. -/
def libraryNamed (name : String) : Option String :=
  if (libraryFamily chars name).isSome then resolveName files libDirs name else none

/-- The cache holds what the files hold. -/
def Correct (cache : Dict String (Option Dynamic)) : Prop :=
  ∀ path dyn, cache.get? (dynamicKey root path) = some dyn →
    files.dynamic (location path) = .ok dyn

/-- A walk beside a search that has seen the same names. -/
structure Beside (walk : NeededWalk) (state : Search String String) : Prop where
  seen : walk.seen = state.seen
  queue : walk.queue = state.queue
  found : walk.found = state.seen.filterMap (libraryNamed chars files libDirs)
  cache : Correct root files walk.cache

variable {chars root files libDirs} {walk : NeededWalk} {state : Search String String}

theorem dynamicKey_inj {root path other : String} :
    dynamicKey root path = dynamicKey root other ↔ path = other := by
  constructor
  · intro hkey
    have hchars := congrArg String.toList hkey
    simp only [dynamicKey, String.toList_append, List.append_cancel_left_eq] at hchars
    exact String.toList_injective hchars
  · rintro rfl
    rfl

theorem Beside.need (depth : ℕ) {name : String} (hplain : isPlainName name)
    (hfollowed : notFollowed chars name = false) (h : Beside chars root files libDirs walk state) :
    Beside chars root files libDirs (NeededWalk.need chars files libDirs depth walk name)
      (Search.meet (resolveName files libDirs) workerNeededDepth depth state name) := by
  rw [NeededWalk.need, Search.meet, if_neg (by simp [hplain]), hfollowed, h.seen]
  by_cases hseen : name ∈ state.seen
  · rw [if_pos (.inl hseen), if_pos hseen]
    exact h
  · rw [if_neg (by simp [hseen]), if_neg hseen]
    have hlibrary : libraryNamed chars files libDirs name =
        if (libraryFamily chars name).isSome then resolveName files libDirs name else none := rfl
    dsimp only
    cases hresolved : (lookUp files name libDirs).1 with
    | none =>
        have hnone : resolveName files libDirs name = none := hresolved
        refine ⟨rfl, ?_, ?_, h.cache⟩
        · simp only [hnone]
          exact h.queue
        · rw [List.filterMap_append, List.filterMap_cons, List.filterMap_nil, hlibrary, hnone,
            ite_self]
          exact h.found.trans (List.append_nil _).symm
    | some path =>
        have hsome : resolveName files libDirs name = some path := hresolved
        refine ⟨rfl, ?_, ?_, h.cache⟩
        · simp only [hsome, h.queue]
        · rw [List.filterMap_append, List.filterMap_cons, List.filterMap_nil, hlibrary, hsome]
          dsimp only
          rw [h.found]
          split <;> simp

theorem Beside.needAll (depth : ℕ) (names : List String)
    (h : Beside chars root files libDirs walk state) :
    Beside chars root files libDirs (names.foldl (NeededWalk.need chars files libDirs depth) walk)
      ((names.filter fun name => isPlainName name && !notFollowed chars name).foldl
        (Search.meet (resolveName files libDirs) workerNeededDepth depth) state) := by
  induction names generalizing walk state with
  | nil => exact h
  | cons name names ih =>
      rw [List.foldl_cons]
      by_cases hplain : isPlainName name
      · by_cases hfollowed : notFollowed chars name
        · rw [List.filter_cons_of_neg (by simp [hfollowed]), NeededWalk.need,
            if_neg (by simp [hplain]), if_pos (.inr hfollowed)]
          exact ih h
        · rw [List.filter_cons_of_pos (by simp [hplain, hfollowed]), List.foldl_cons]
          exact ih (h.need depth hplain (by simpa using hfollowed))
      · rw [List.filter_cons_of_neg (by simp [hplain]), NeededWalk.need, if_pos (by simp [hplain])]
        exact ih h

theorem Correct.getD {cache : Dict String (Option Dynamic)} (h : Correct root files cache)
    (path : String) :
    (cache.get? (dynamicKey root path)).getD (files.section? (location path)) =
      files.section? (location path) := by
  cases hget : cache.get? (dynamicKey root path) with
  | none => rfl
  | some dyn =>
      rw [Option.getD_some, RootFiles.section?, h path dyn hget]

/-- Whatever is opened, the cache keeps to the files. -/
theorem Correct.cost {path : String} {walk opened : NeededWalk}
    (hcost : NeededWalk.Cost root files path walk opened) (h : Correct root files walk.cache) :
    Correct root files opened.cache := by
  cases hcost with
  | cached known read budget cache => exact cache ▸ h
  | opened dyn fresh file read budget cache =>
      intro other found hget
      rw [cache, Dict.get?_update] at hget
      split at hget
      · next hkey =>
          rw [dynamicKey_inj.mp hkey, file]
          exact congrArg Except.ok (Option.some.inj hget)
      · exact h other found hget
  | raised fault fresh file read budget cache => exact cache ▸ h

theorem Beside.visit
    (hrunpath : ∀ place dyn, files.dynamic place = .ok (some dyn) → dyn.runpath = [])
    (path : String) (depth : ℕ) (h : Beside chars root files libDirs walk state) :
    Beside chars root files libDirs (NeededWalk.visit chars root files libDirs walk path depth)
      ((followedNames chars files path).foldl
        (Search.meet (resolveName files libDirs) workerNeededDepth depth) state) := by
  obtain ⟨opened, hqueue, hseen, hfound, -, hopened, heq⟩ :=
    NeededWalk.visit_eq chars root files libDirs walk path depth
  have hbeside : Beside chars root files libDirs opened state :=
    ⟨hseen.trans h.seen, hqueue.trans h.queue, hfound.trans h.found, h.cache.cost hopened⟩
  rw [heq, h.cache.getD, followedNames]
  cases hfile : files.section? (location path) with
  | none => exact hbeside
  | some dyn =>
      have hdirs : searchDirs libDirs path dyn.runpath = libDirs := by
        rw [hrunpath _ dyn (RootFiles.section?_eq_some.mp hfile)]
        rfl
      dsimp only
      rw [hdirs]
      exact hbeside.needAll depth dyn.needed

/-- While the budget lasts and nothing is raised, the walk finds what a search sees. -/
theorem Beside.result
    (hrunpath : ∀ place dyn, files.dynamic place = .ok (some dyn) → dyn.runpath = [])
    (h : Beside chars root files libDirs walk state)
    (hreturns : ((neededLoop chars root files libDirs).result walk).raised = none)
    (hbudget : ((neededLoop chars root files libDirs).result walk).budget ≠ 0 ∨
      ((neededLoop chars root files libDirs).result walk).queue = []) :
    ((neededLoop chars root files libDirs).result walk).found =
      ((searchLoop (followedNames chars files) (resolveName files libDirs)
        workerNeededDepth).result state).filterMap (libraryNamed chars files libDirs) := by
  induction walk using (neededLoop chars root files libDirs).induct generalizing state with
  | hstep walk ih =>
      obtain ⟨seen, queue⟩ := state
      obtain rfl : walk.queue = queue := h.queue
      rcases neededLoop_turn chars root files libDirs walk with
        ⟨hdone, hturn⟩ | ⟨path, depth, queue, hqueue, hempty, hturn⟩
      · rw [Loop.result_of_leaves hturn] at hbudget ⊢
        have hqueue : walk.queue = [] := by
          rcases hdone with hqueue | hspent
          · exact hqueue
          · exact hbudget.resolve_left (not_not_intro hspent)
        rw [hqueue, Loop.result_of_leaves rfl]
        exact h.found
      · split at hturn
        · next hraised =>
            rw [Loop.result_of_leaves hturn] at hreturns
            rw [hreturns] at hraised
            cases hraised
        · have hnext : Beside chars root files libDirs { walk with queue := queue }
              ⟨seen, queue⟩ := ⟨h.seen, rfl, h.found, h.cache⟩
          have hsearch : (searchLoop (followedNames chars files) (resolveName files libDirs)
              workerNeededDepth).turn ⟨seen, (path, depth) :: queue⟩ =
              .inl ((followedNames chars files path).foldl
                (Search.meet (resolveName files libDirs) workerNeededDepth depth)
                ⟨seen, queue⟩) := rfl
          rw [Loop.result_of_continues hturn] at hreturns hbudget ⊢
          rw [hqueue, Loop.result_of_continues hsearch]
          exact ih _ hturn (hnext.visit hrunpath path depth) hreturns hbudget

end Complete

/-! ### Libraries are followed -/

section Followed

variable {chars : CharData} {name : String}

theorem exists_of_matchLine {r : Regex} (hmatch : r.matchLine name = true) :
    ∃ text more, name.toList = text ++ more ∧ r.accepts text = true := by
  rw [Regex.matchLine, beforeNewline, Bool.or_eq_true, Bool.and_eq_true] at hmatch
  rcases hmatch with hmatch | ⟨hend, hmatch⟩
  · exact ⟨name.toList, [], (List.append_nil _).symm, hmatch⟩
  · obtain ⟨front, hfront⟩ := List.isSuffixOf_iff_suffix.mp hend
    have hdrop : (dropLast "\n" name).toList = front := by
      rw [dropLast, if_pos hend, String.toList_ofList, ← hfront, List.length_append]
      simp
    rw [Regex.fullMatch, hdrop] at hmatch
    exact ⟨front, "\n".toList, hfront.symm, hmatch⟩

theorem start_of_libraryName {stems : List String} {suffix : Char → Bool}
    (hmatch : (libraryName stems suffix).matchLine name = true) :
    ∃ stem ∈ stems, ∃ rest, name.toList = "lib".toList ++ stem.toList ++ ".so".toList ++ rest := by
  obtain ⟨text, more, hname, haccepts⟩ := exists_of_matchLine hmatch
  obtain ⟨lib, rest, rfl, hlib, hrest⟩ := Regex.accepts_seq.mp haccepts
  obtain ⟨middle, rest, rfl, hmiddle, hrest⟩ := Regex.accepts_seq.mp hrest
  obtain ⟨so, rest, rfl, hso, -⟩ := Regex.accepts_seq.mp hrest
  obtain ⟨r, hr, hstem⟩ := Regex.accepts_alts.mp hmiddle
  obtain ⟨stem, hmem, rfl⟩ := List.mem_map.mp hr
  refine ⟨stem, hmem, rest ++ more, ?_⟩
  rw [hname, Regex.accepts_text.mp hlib, Regex.accepts_text.mp hstem, Regex.accepts_text.mp hso]
  simp only [List.append_assoc]

/-- How the names that are not followed start. -/
def notFollowedStarts : List String :=
  (["libc", "libm", "libdl", "libpthread", "librt", "libresolv", "libutil", "libnsl",
    "libcrypt", "libgcc_s", "libstdc++", "libz", "libzstd", "liblzma", "libbz2", "liblz4",
    "libselinux", "libcap", "libsystemd", "libudev", "libsasl2", "libgssapi_krb5", "libkrb5",
    "libk5crypto", "libcom_err", "libkeyutils", "libtirpc"].map (· ++ ".so")) ++
    ["ld-linux", "libpcre", "libdb-", "libicu", "libldap", "liblber"]

/-- How the names of libraries start. -/
def libraryStarts : List String :=
  ["libssl.so", "libcrypto.so", "libgnutls.so", "libnss3.so", "libwolfssl.so"]

theorem start_of_notFollowed (hnot : notFollowed chars name = true) :
    ∃ start ∈ notFollowedStarts, start.toList <+: name.toList := by
  obtain ⟨head, rest, hname, hhead, hrest⟩ := Regex.accepts_seq.mp hnot
  obtain ⟨so, rest, rfl, hso, -⟩ := Regex.accepts_seq.mp hrest
  obtain ⟨r, hr, haccepts⟩ := Regex.accepts_alts.mp hhead
  have hfirst : ∀ {first : String} {more : List Regex}, r = .seqs (.text first :: more) →
      first.toList <+: name.toList := by
    rintro first more rfl
    obtain ⟨before, after, rfl, hbefore, -⟩ := Regex.accepts_seq.mp haccepts
    rw [hname, Regex.accepts_text.mp hbefore, List.append_assoc]
    exact List.prefix_append _ _
  rcases List.mem_append.mp hr with hr | hr
  · obtain ⟨lib, hlib, rfl⟩ := List.mem_map.mp hr
    refine ⟨lib ++ ".so", List.mem_append_left _ (List.mem_map_of_mem hlib), ?_⟩
    rw [hname, Regex.accepts_text.mp haccepts, Regex.accepts_text.mp hso, String.toList_append,
      ← List.append_assoc]
    exact List.prefix_append _ _
  · simp only [List.mem_cons, List.not_mem_nil, or_false] at hr
    rcases hr with hr | hr | hr | hr | hr | hr
    · exact ⟨"ld-linux", by simp [notFollowedStarts], hfirst hr⟩
    · exact ⟨"libpcre", by simp [notFollowedStarts], hfirst hr⟩
    · exact ⟨"libdb-", by simp [notFollowedStarts], hfirst hr⟩
    · exact ⟨"libicu", by simp [notFollowedStarts], hfirst hr⟩
    · exact ⟨"libldap", by simp [notFollowedStarts], hfirst hr⟩
    · exact ⟨"liblber", by simp [notFollowedStarts], hfirst hr⟩

theorem start_of_library (hlibrary : (libraryFamily chars name).isSome) :
    ∃ start ∈ libraryStarts, start.toList <+: name.toList := by
  rw [libraryFamily, Option.isSome_map, List.find?_isSome] at hlibrary
  obtain ⟨entry, hentry, hmatch⟩ := hlibrary
  have hstems : ∃ stems suffix, entry.2 = libraryName stems suffix ∧
      ∀ stem ∈ stems, "lib" ++ stem ++ ".so" ∈ libraryStarts := by
    simp only [libraries, List.mem_cons, List.not_mem_nil, or_false] at hentry
    rcases hentry with rfl | rfl | rfl | rfl <;> exact ⟨_, _, rfl, by decide⟩
  obtain ⟨stems, suffix, heq, hstarts⟩ := hstems
  rw [heq] at hmatch
  obtain ⟨stem, hstem, rest, hname⟩ := start_of_libraryName hmatch
  refine ⟨_, hstarts stem hstem, ?_⟩
  rw [hname, String.toList_append, String.toList_append]
  exact List.prefix_append _ _

/-- No library has a name that is not followed. -/
theorem notFollowed_of_library (hlibrary : (libraryFamily chars name).isSome) :
    notFollowed chars name = false := by
  have hstarts : ∀ start ∈ libraryStarts, ∀ other ∈ notFollowedStarts,
      ¬ start.toList <+: other.toList ∧ ¬ other.toList <+: start.toList := by
    decide +kernel
  obtain ⟨start, hstart, hname⟩ := start_of_library hlibrary
  rw [Bool.eq_false_iff]
  intro hnot
  obtain ⟨other, hother, hname'⟩ := start_of_notFollowed hnot
  obtain ⟨hfirst, hsecond⟩ := hstarts start hstart other hother
  rcases List.prefix_or_prefix_of_prefix hname hname' with h | h
  · exact hfirst h
  · exact hsecond h

end Followed

/-! ## The walk -/

section Spec

variable (chars : CharData) (root : String) (files : RootFiles) (libDirs : List String)
  (cache : Dict String (Option Dynamic)) (budget : ℕ) (binary : String)

/-- A library that a chain of at most three names leads to, with files to follow between them. -/
def Linked (path : String) : Prop :=
  ∃ n ≤ workerNeededDepth, ∃ file dyn name,
    Chain (followedNames chars files) (resolveName files libDirs) binary n file ∧
      files.dynamic (location file) = .ok (some dyn) ∧ name ∈ dyn.needed ∧ isPlainName name ∧
      (libraryFamily chars name).isSome ∧ resolveName files libDirs name = some path

theorem mem_followedNames_of_library {file name : String}
    (hlibrary : (libraryFamily chars name).isSome) :
    name ∈ followedNames chars files file ↔
      ∃ dyn, files.dynamic (location file) = .ok (some dyn) ∧ name ∈ dyn.needed ∧
        isPlainName name := by
  simp only [followedNames, List.mem_filter, notFollowed_of_library hlibrary,
    ← RootFiles.section?_eq_some]
  cases files.section? (location file) with
  | none => simp
  | some dyn => simp

/-- A walk that something has left has opened the file on which it was raised. -/
theorem raised_walkNeeded {fault : ElfFault}
    (hraised : (walkNeeded chars root files libDirs cache budget binary).raised = some fault) :
    ∃ path ∈ (walkNeeded chars root files libDirs cache budget binary).read,
      files.dynamic (location path) = .error fault := by
  have hkeeps : ∀ fault, (walkNeeded chars root files libDirs cache budget binary).raised =
      some fault → ∃ path ∈ (walkNeeded chars root files libDirs cache budget binary).read,
        files.dynamic (location path) = .error fault := by
    refine neededLoop_keeps chars root files libDirs (P := fun walk => ∀ fault,
      walk.raised = some fault → ∃ path ∈ walk.read,
        files.dynamic (location path) = .error fault) ?_ rfl (fun fault hfault => nomatch hfault)
    intro walk path depth queue _ _ hnone _ fault hfault
    cases (NeededWalk.visited chars root files libDirs { walk with queue := queue } path
      depth).cost with
    | cached known read budget cache raised =>
        rw [raised] at hfault
        exact absurd (hnone.symm.trans hfault) nofun
    | opened dyn fresh file read budget cache raised =>
        rw [raised] at hfault
        exact absurd (hnone.symm.trans hfault) nofun
    | raised other fresh file read budget cache raised =>
        rw [raised] at hfault
        obtain rfl := Option.some.inj hfault
        rw [read]
        exact ⟨path, List.mem_append_right _ (List.mem_singleton_self path), file⟩
  exact hkeeps fault hraised

/-- **The walk ends, opens no more files than the budget allows, stays in the root and finds no
library twice; with budget left and no directories but those of the system, it finds every library
that a chain of at most three names leads to.  It raises only on a file that `elf_dynamic` raises
on.** -/
theorem walkNeeded_spec (hbinary : Inside binary) (hlibs : ∀ dir ∈ libDirs, Inside dir) :
    (∃ turns, (neededLoop chars root files libDirs).runFor turns
        (NeededWalk.start cache budget binary) =
          some (walkNeeded chars root files libDirs cache budget binary)) ∧
      (walkNeeded chars root files libDirs cache budget binary).read.length ≤ budget ∧
      (∀ path ∈ (walkNeeded chars root files libDirs cache budget binary).read,
        cache.get? (dynamicKey root path) = none) ∧
      (∀ place ∈ (walkNeeded chars root files libDirs cache budget binary).probed ++
        (walkNeeded chars root files libDirs cache budget binary).read.map location,
          ".." ∉ place) ∧
      (walkNeeded chars root files libDirs cache budget binary).found.Nodup ∧
      ((∀ place, ∃ dyn, files.dynamic place = .ok dyn) →
        (walkNeeded chars root files libDirs cache budget binary).raised = none) ∧
      ((walkNeeded chars root files libDirs cache budget binary).raised = none →
        (walkNeeded chars root files libDirs cache budget binary).budget ≠ 0 ∨
          (walkNeeded chars root files libDirs cache budget binary).queue = [] →
        (∀ place dyn, files.dynamic place = .ok (some dyn) → dyn.runpath = []) →
        Correct root files cache →
        ∀ path, path ∈ (walkNeeded chars root files libDirs cache budget binary).found ↔
          Linked chars files libDirs binary path) := by
  have hstart : Contained root cache budget (NeededWalk.start cache budget binary) :=
    ⟨by simpa [NeededWalk.start] using hbinary, by simp [NeededWalk.start],
      by simp [NeededWalk.start], by simp [NeededWalk.start], fun _ hkey => hkey,
      List.nodup_nil, by simp [NeededWalk.start]⟩
  have h : Contained root cache budget ((neededLoop chars root files libDirs).result
      (NeededWalk.start cache budget binary)) := hstart.result hlibs rfl
  have hspent := h.spent
  refine ⟨(neededLoop chars root files libDirs).exists_runFor _, ?_,
    fun path hpath => (h.read path hpath).2, ?_, h.found, ?_, ?_⟩
  · rw [walkNeeded]
    omega
  · refine List.forall_mem_append.mpr ⟨h.probed, fun place hplace => ?_⟩
    obtain ⟨path, hpath, rfl⟩ := List.mem_map.mp hplace
    exact (h.read path hpath).1
  · intro hreadable
    rw [Option.eq_none_iff_forall_ne_some]
    intro fault hraised
    obtain ⟨path, -, hfault⟩ :=
      raised_walkNeeded chars root files libDirs cache budget binary hraised
    obtain ⟨dyn, hdyn⟩ := hreadable (location path)
    rw [hdyn] at hfault
    cases hfault
  · intro hreturns hbudget hrunpath hcorrect path
    have hbeside : Beside chars root files libDirs (NeededWalk.start cache budget binary)
        ⟨[], [(binary, 0)]⟩ := ⟨rfl, rfl, rfl, hcorrect⟩
    have hfound := hbeside.result hrunpath hreturns hbudget
    rw [walkNeeded, hfound, List.mem_filterMap]
    constructor
    · rintro ⟨name, hname, hpath⟩
      obtain ⟨n, hn, file, hchain, hmem⟩ := (mem_search_iff _ _ _).mp hname
      rw [libraryNamed] at hpath
      split at hpath
      · next hlibrary =>
          obtain ⟨dyn, hdyn, hneeded, hplain⟩ :=
            (mem_followedNames_of_library chars files hlibrary).mp hmem
          exact ⟨n, hn, file, dyn, name, hchain, hdyn, hneeded, hplain, hlibrary, hpath⟩
      · cases hpath
    · rintro ⟨n, hn, file, dyn, name, hchain, hdyn, hneeded, hplain, hlibrary, hpath⟩
      refine ⟨name, (mem_search_iff _ _ _).mpr ⟨n, hn, file, hchain, ?_⟩, ?_⟩
      · exact (mem_followedNames_of_library chars files hlibrary).mpr ⟨dyn, hdyn, hneeded, hplain⟩
      · rw [libraryNamed, if_pos hlibrary, hpath]

/-- A mail server whose own library links OpenSSL. -/
def postfixFiles : RootFiles where
  isFile place := place ∈ [["usr", "lib", "libpostfix-tls.so"], ["usr", "lib", "libssl.so.3"]]
  dynamic place :=
    if place = ["usr", "lib", "postfix", "smtpd"] then
      .ok (some ⟨["libpostfix-tls.so", "libc.so.6"], []⟩)
    else if place = ["usr", "lib", "libpostfix-tls.so"] then .ok (some ⟨["libssl.so.3"], []⟩)
    else .ok none

theorem walkNeeded_postfix :
    (walkNeeded ⟨id, Char.isAlphanum⟩ "/proc/1/root" postfixFiles ["/usr/lib"] Dict.empty 256
        "/usr/lib/postfix/smtpd").found = ["/usr/lib/libssl.so.3"] ∧
      Linked ⟨id, Char.isAlphanum⟩ postfixFiles ["/usr/lib"] "/usr/lib/postfix/smtpd"
        "/usr/lib/libssl.so.3" := by
  have hrun : ((neededLoop ⟨id, Char.isAlphanum⟩ "/proc/1/root" postfixFiles ["/usr/lib"]).runFor 4
      (NeededWalk.start Dict.empty 256 "/usr/lib/postfix/smtpd")).map
        (fun walk => (walk.found, walk.budget)) = some (["/usr/lib/libssl.so.3"], 253) := by
    decide +kernel
  obtain ⟨walk, hwalk, hvalues⟩ := Option.map_eq_some_iff.mp hrun
  have hresult : walkNeeded ⟨id, Char.isAlphanum⟩ "/proc/1/root" postfixFiles ["/usr/lib"]
      Dict.empty 256 "/usr/lib/postfix/smtpd" = walk := Loop.result_eq_of_runFor _ hwalk
  obtain ⟨hfound, hbudget⟩ := Prod.mk.injEq .. ▸ hvalues
  obtain ⟨-, -, -, -, -, hquiet, hspec⟩ := walkNeeded_spec ⟨id, Char.isAlphanum⟩ "/proc/1/root"
    postfixFiles ["/usr/lib"] Dict.empty 256 "/usr/lib/postfix/smtpd" (by decide +kernel)
    (by decide +kernel)
  have hreadable : ∀ place, ∃ dyn, postfixFiles.dynamic place = .ok dyn := by
    intro place
    simp only [postfixFiles]
    split
    · exact ⟨_, rfl⟩
    · split <;> exact ⟨_, rfl⟩
  have hreturns := hquiet hreadable
  rw [hresult] at hspec hreturns ⊢
  refine ⟨hfound, (hspec hreturns (.inl (by rw [hbudget]; decide)) ?_ ?_ _).mp (by simp [hfound])⟩
  · intro place dyn hdyn
    simp only [postfixFiles] at hdyn
    split at hdyn
    · cases hdyn
      rfl
    · split at hdyn
      · cases hdyn
        rfl
      · cases hdyn
  · intro path dyn hget
    cases hget

end Spec

end PqcReadiness.Runtime
