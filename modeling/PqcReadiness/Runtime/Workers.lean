import PqcReadiness.Runtime.ElfImage
import PqcReadiness.Runtime.Needed

/-!
# The executables of the workers

`_worker_binary_libraries` walks from one executable after the other, with one cache and one budget
for all of them.  The model of the scan (`searchBinaries`) walks level by level and only notes which
files the cache holds.  Here the loop is written turn by turn over the walk of `Runtime.Needed`
(`searchWorkers`), with a record of every file that it opens, and the two are compared: a turn keeps
the walks `Levelled`, or raises in both, so that they end alike.
-/

namespace PqcReadiness.Runtime

open PqcReadiness.Lib PqcReadiness.Lib.Bytes

/-! ## File by file, and level by level -/

/-- A process that shows the files below its root. -/
structure Shows (proc : Proc) (files : RootFiles) : Prop where
  isFile : ∀ path, proc.isFile path = files.isFile (location path)
  dynamic : ∀ path, openDynamic (proc.elf path) = files.dynamic (location path)

/-- The cache holds the dynamic sections noted for the owner, and holds them as the files do. -/
structure Noted (owner : ℕ) (root : String) (files : RootFiles)
    (cache : Dict String (Option Dynamic)) (dynamic : List (ℕ × String)) : Prop where
  noted : ∀ path, (owner, path) ∈ dynamic ↔ (cache.get? (dynamicKey root path)).isSome
  correct : Correct root files cache

/-- What a walk file by file and a walk level by level agree on, while nothing is raised. -/
structure Levelled (owner : ℕ) (root : String) (files : RootFiles) (fine : NeededWalk)
    (coarse : Walk) : Prop where
  quiet : fine.raised = none
  found : fine.found = coarse.found
  seen : fine.seen = coarse.seen
  budget : fine.budget = coarse.budget
  noted : Noted owner root files fine.cache coarse.dynamic

/-- How the two end: level by level as file by file, or with the exception that leaves both. -/
inductive Alike (owner : ℕ) (root : String) (files : RootFiles) (fine : NeededWalk) :
    Except Fault Walk → Prop
  | returned (coarse : Walk) (levelled : Levelled owner root files fine coarse) :
      Alike owner root files fine (.ok coarse)
  | raised (fault : ElfFault) (raised : fine.raised = some fault) :
      Alike owner root files fine (.error .indexError)

/-- The entries of the queue for the files of the next level. -/
def nextEntries (depth : ℕ) (next : List String) : List (String × ℕ) :=
  if depth < workerNeededDepth then next.map fun path => (path, depth + 1) else []

theorem nextEntries_append (depth : ℕ) (next more : List String) :
    nextEntries depth (next ++ more) = nextEntries depth next ++ nextEntries depth more := by
  rw [nextEntries, nextEntries, nextEntries]
  split
  · exact List.map_append
  · rfl

section Levels

variable (chars : CharData) {owner : ℕ} {root : String} {files : RootFiles} {proc : Proc}
  (libDirs : List String) {fine : NeededWalk} {coarse : Walk}

theorem location_osJoin {dir name : String} (hdir : startsWith "/" dir) (hname : isPlainName name) :
    location (osJoin dir name) = location dir ++ [name] := by
  obtain ⟨hcomponent, hdot, -⟩ := isComponent_of_isPlainName hname
  rw [location, components_osJoin hdir hcomponent, List.filter_append, location,
    List.filter_cons_of_pos (by simpa using hdot), List.filter_nil]

theorem lookUp_eq_find? (hshows : Shows proc files) {name : String} (hname : isPlainName name)
    (dirs : List String) :
    (lookUp files name dirs).1 =
      (dirs.find? fun dir => startsWith "/" dir && proc.isFile (osJoin dir name)).map
        fun dir => osJoin dir name := by
  induction dirs with
  | nil => rfl
  | cons dir dirs ih =>
      rw [lookUp, List.find?_cons]
      by_cases hdir : startsWith "/" dir
      · rw [if_pos hdir, hdir, Bool.true_and, hshows.isFile, location_osJoin hdir hname]
        by_cases hfile : files.isFile (location dir ++ [name])
        · simp [hfile]
        · simpa [hfile] using ih
      · simpa [hdir] using ih

/-- A name leads both walks to the same file, which stands in the queue of the one and in the next
level of the other. -/
theorem Levelled.need (hshows : Shows proc files) (dirs : List String) (depth : ℕ) (name : String)
    {rest : List (String × ℕ)} {next : List String} (h : Levelled owner root files fine coarse)
    (hqueue : fine.queue = rest ++ nextEntries depth next) :
    Levelled owner root files (NeededWalk.need chars files dirs depth fine name)
        (needName chars proc dirs (coarse, next) name).1 ∧
      (NeededWalk.need chars files dirs depth fine name).queue =
        rest ++ nextEntries depth (needName chars proc dirs (coarse, next) name).2 := by
  have hplain : isPlainName name = true ↔
      ¬ ('/' ∈ name.toList ∨ name = "" ∨ name = "." ∨ name = "..") := by
    simp [isPlainName, not_or, and_assoc]
  rw [NeededWalk.need, needName]
  by_cases hname : isPlainName name
  · rw [if_neg (by simp [hname]), if_neg (hplain.mp hname), h.seen]
    by_cases hskip : name ∈ coarse.seen ∨ notFollowed chars name
    · rw [if_pos hskip, if_pos hskip]
      exact ⟨h, hqueue⟩
    · rw [if_neg hskip, if_neg hskip]
      have hlook := lookUp_eq_find? hshows hname dirs
      dsimp only
      cases hfind : dirs.find? fun dir => startsWith "/" dir && proc.isFile (osJoin dir name) with
      | none =>
          rw [hfind, Option.map_none] at hlook
          simp only [hlook]
          exact ⟨⟨h.quiet, h.found, rfl, h.budget, h.noted⟩, hqueue⟩
      | some dir =>
          rw [hfind, Option.map_some] at hlook
          simp only [hlook]
          -- The file is found: it joins the next level, if there is one.
          have hentries : nextEntries depth (next ++ [osJoin dir name]) =
              nextEntries depth next ++
                if depth < workerNeededDepth then [(osJoin dir name, depth + 1)] else [] :=
            nextEntries_append depth next _
          refine ⟨?_, ?_⟩
          · by_cases hlibrary : (libraryFamily chars name).isSome
            · simp only [hlibrary, if_true]
              exact ⟨h.quiet, congrArg (· ++ [osJoin dir name]) h.found, rfl, h.budget, h.noted⟩
            · simp only [hlibrary]
              exact ⟨h.quiet, h.found, rfl, h.budget, h.noted⟩
          · have hnext : (if (libraryFamily chars name).isSome then
                (({ coarse with
                    seen := coarse.seen ++ [name]
                    found := coarse.found ++ [osJoin dir name] } : Walk),
                  next ++ [osJoin dir name])
                else ({ coarse with seen := coarse.seen ++ [name] },
                  next ++ [osJoin dir name])).2 = next ++ [osJoin dir name] := by
              split <;> rfl
            rw [hnext, hentries, ← List.append_assoc, ← hqueue]
            split
            · rfl
            · exact (List.append_nil _).symm
  · rw [if_pos (by simpa using hname), if_pos (not_not.mp ((not_congr hplain).mp hname))]
    exact ⟨h, hqueue⟩

theorem Levelled.needAll (hshows : Shows proc files) (dirs : List String) (depth : ℕ)
    (names : List String) {rest : List (String × ℕ)} {next : List String}
    (h : Levelled owner root files fine coarse)
    (hqueue : fine.queue = rest ++ nextEntries depth next) :
    Levelled owner root files (names.foldl (NeededWalk.need chars files dirs depth) fine)
        (names.foldl (needName chars proc dirs) (coarse, next)).1 ∧
      (names.foldl (NeededWalk.need chars files dirs depth) fine).queue =
        rest ++ nextEntries depth (names.foldl (needName chars proc dirs) (coarse, next)).2 := by
  induction names generalizing fine coarse next with
  | nil => exact ⟨h, hqueue⟩
  | cons name names ih =>
      obtain ⟨hnext, hqueue'⟩ := h.need chars hshows dirs depth name hqueue
      exact ih hnext hqueue'

/-- The names that a file needs are those of its dynamic section. -/
theorem needFile_eq (hshows : Shows proc files) (path : String) (state : Walk × List String) :
    needFile chars proc libDirs path state =
      match files.section? (location path) with
      | none => state
      | some dyn =>
          dyn.needed.foldl (needName chars proc (searchDirs libDirs path dyn.runpath)) state := by
  rw [needFile, RootFiles.section?, hshows.dynamic]
  cases files.dynamic (location path) with
  | error fault => rfl
  | ok dyn => cases dyn <;> rfl

/-- A file that the cache has costs nothing. -/
theorem openFile_of_mem {path : String} (hmem : (owner, path) ∈ coarse.dynamic) :
    (openFile .strict owner proc coarse path).ended = .ok coarse := by
  rw [openFile, if_pos hmem]
  rfl

/-- Another one is opened, and the program raises where `elf_dynamic` does. -/
theorem openFile_of_notMem (hshows : Shows proc files) {path : String}
    (hnew : (owner, path) ∉ coarse.dynamic) :
    (openFile .strict owner proc coarse path).ended =
      match files.dynamic (location path) with
      | .ok _ => .ok { coarse with
          dynamic := coarse.dynamic ++ [(owner, path)], budget := coarse.budget - 1 }
      | .error _ => .error .indexError := by
  have hcut := @openDynamic_error_iff (proc.elf path)
  rw [hshows.dynamic] at hcut
  rw [openFile, if_neg hnew]
  cases hfile : files.dynamic (location path) with
  | ok dyn =>
      have hwhole : ¬ Cut (proc.elf path) := fun h => by
        obtain ⟨fault, hfault⟩ := hcut.mpr h
        rw [hfile] at hfault
        cases hfault
      rw [Gen.bind_of_ok (checkElf_strict_of_not_cut hwhole)]
      rfl
  | error fault =>
      rw [Gen.bind_of_error (checkElf_strict_of_cut (hcut.mp ⟨fault, hfile⟩))]

/-- Reading a file costs both walks the same, unless it ends both. -/
theorem Levelled.opened (hshows : Shows proc files) {path : String} {opened : NeededWalk}
    (h : Levelled owner root files fine coarse)
    (hcost : NeededWalk.Cost root files path fine opened) (hseen : opened.seen = fine.seen)
    (hfound : opened.found = fine.found) :
    Alike owner root files opened (openFile .strict owner proc coarse path).ended := by
  have hnew : fine.cache.get? (dynamicKey root path) = none → (owner, path) ∉ coarse.dynamic := by
    intro hnone hmem
    rw [h.noted.noted, hnone] at hmem
    cases hmem
  cases hcost with
  | cached known read budget cache raised =>
      rw [openFile_of_mem ((h.noted.noted path).mpr known)]
      exact .returned coarse ⟨raised.trans h.quiet, hfound.trans h.found, hseen.trans h.seen,
        budget.trans h.budget, cache ▸ h.noted⟩
  | opened dyn fresh file read budget cache raised =>
      rw [openFile_of_notMem hshows (hnew fresh), file]
      refine .returned _ ⟨raised.trans h.quiet, hfound.trans h.found, hseen.trans h.seen,
        by rw [budget, h.budget], ?_, ?_⟩
      · intro other
        rw [cache, Dict.get?_update, List.mem_append, List.mem_singleton, h.noted.noted]
        by_cases hother : other = path
        · simp [hother]
        · rw [if_neg fun hkey => hother (dynamicKey_inj.mp hkey)]
          simp [hother]
      · exact h.noted.correct.cost (.opened dyn fresh file read budget cache raised)
  | raised fault fresh file read budget cache raised =>
      rw [openFile_of_notMem hshows (hnew fresh), file]
      exact .raised fault raised

/-- A file from the queue is a file of the level. -/
theorem Levelled.visit (hshows : Shows proc files) (path : String) (depth : ℕ)
    {rest : List (String × ℕ)} {next : List String} (h : Levelled owner root files fine coarse)
    (hqueue : fine.queue = rest ++ nextEntries depth next) (hbudget : coarse.budget ≠ 0) :
    (∃ after : Walk × List String,
        (visitFile .strict chars owner proc libDirs (coarse, next) path).ended = .ok after ∧
        Levelled owner root files
          (NeededWalk.visit chars root files libDirs fine path depth) after.1 ∧
        (NeededWalk.visit chars root files libDirs fine path depth).queue =
          rest ++ nextEntries depth after.2) ∨
      ((NeededWalk.visit chars root files libDirs fine path depth).raised.isSome ∧
        (visitFile .strict chars owner proc libDirs (coarse, next) path).ended =
          .error .indexError) := by
  obtain ⟨opened, hsame, hseen, hfound, -, hopened, heq⟩ :=
    NeededWalk.visit_eq chars root files libDirs fine path depth
  have halike := h.opened hshows hopened hseen hfound
  have hopen : opened.queue = rest ++ nextEntries depth next := hsame.trans hqueue
  rw [h.noted.correct.getD] at heq
  rw [visitFile, if_neg hbudget]
  cases hended : (openFile .strict owner proc coarse path).ended with
  | error fault =>
      rw [hended] at halike
      cases halike with
      | raised fault raised =>
          refine .inr ⟨?_, Gen.bind_of_error hended ▸ rfl⟩
          -- What has been raised stays, whatever the file needs.
          rw [heq]
          split
          · exact raised ▸ rfl
          · rw [(NeededWalk.grown_foldl chars files _ depth _ opened).raised, raised]
            rfl
  | ok walk =>
      rw [hended] at halike
      cases halike with
      | returned _ hlevelled =>
          refine .inl ⟨needFile chars proc libDirs path (walk, next),
            Gen.bind_of_ok hended ▸ rfl, ?_⟩
          rw [heq, needFile_eq chars libDirs hshows]
          cases files.section? (location path) with
          | none => exact ⟨hlevelled, hopen⟩
          | some dyn =>
              exact hlevelled.needAll chars hshows (searchDirs libDirs path dyn.runpath) depth
                dyn.needed hopen

theorem visitFiles_spent (hbudget : coarse.budget = 0) (next paths : List String) :
    (paths.foldlM (visitFile .strict chars owner proc libDirs) (coarse, next)).ended =
      .ok (coarse, next) := by
  induction paths with
  | nil => rfl
  | cons path paths ih =>
      have hvisit : (visitFile .strict chars owner proc libDirs (coarse, next) path).ended =
          .ok (coarse, next) := by
        rw [visitFile, if_pos hbudget]
        rfl
      rw [List.foldlM_cons, Gen.bind_of_ok hvisit]
      exact ih

theorem visitLevels_of_ok {levels : ℕ} {queue : List String} {after : Walk × List String}
    (hlevel : (queue.foldlM (visitFile .strict chars owner proc libDirs) (coarse, [])).ended =
      .ok after) :
    (visitLevels .strict chars owner proc libDirs (levels + 1) coarse queue).ended =
      (visitLevels .strict chars owner proc libDirs levels after.1 after.2).ended := by
  rw [visitLevels, Gen.bind_of_ok hlevel]

theorem visitLevels_spent (hbudget : coarse.budget = 0) (levels : ℕ) (queue : List String) :
    (visitLevels .strict chars owner proc libDirs levels coarse queue).ended = .ok coarse := by
  induction levels generalizing queue with
  | zero =>
      rw [visitLevels, Gen.bind_of_ok (visitFiles_spent chars libDirs hbudget [] queue)]
      rfl
  | succ levels ih =>
      rw [visitLevels_of_ok chars libDirs (visitFiles_spent chars libDirs hbudget [] queue)]
      exact ih []

/-- A walk whose budget is spent, or whose queue is empty, has ended. -/
theorem neededLoop_leaves (hended : fine.budget = 0 ∨ fine.queue = []) :
    (neededLoop chars root files libDirs).result fine = fine := by
  apply Loop.result_of_leaves
  rcases neededLoop_turn chars root files libDirs fine with
    ⟨-, hturn⟩ | ⟨path, depth, queue, hqueue, hbudget, -⟩
  · exact hturn
  · rcases hended with hspent | hempty
    · exact absurd hspent hbudget
    · rw [hempty] at hqueue
      cases hqueue

/-- A turn of a walk with budget left and a file in its queue. -/
theorem neededLoop_turn_cons {path : String} {depth : ℕ} {queue : List (String × ℕ)}
    (hqueue : fine.queue = (path, depth) :: queue) (hbudget : fine.budget ≠ 0) :
    (neededLoop chars root files libDirs).turn fine =
      if (NeededWalk.visit chars root files libDirs { fine with queue := queue } path
          depth).raised.isSome then
        .inr (NeededWalk.visit chars root files libDirs { fine with queue := queue } path depth)
      else
        .inl (NeededWalk.visit chars root files libDirs { fine with queue := queue } path
          depth) := by
  rcases neededLoop_turn chars root files libDirs fine with
    ⟨hdone, -⟩ | ⟨first, level, rest, hfirst, -, hturn⟩
  · rcases hdone with hempty | hspent
    · rw [hempty] at hqueue
      cases hqueue
    · exact absurd hspent hbudget
  · rw [hqueue] at hfirst
    cases hfirst
    exact hturn

/-- Either something is raised in both walks, or the budget is spent and the walk file by file has
ended with the same as the level, or the walk has come to the end of the level. -/
theorem Levelled.level (hshows : Shows proc files) (depth : ℕ) (paths next : List String)
    (h : Levelled owner root files fine coarse)
    (hqueue : fine.queue = paths.map (fun path => (path, depth)) ++ nextEntries depth next) :
    (∃ later after,
        (paths.foldlM (visitFile .strict chars owner proc libDirs) (coarse, next)).ended =
          .ok after ∧
        (neededLoop chars root files libDirs).result fine =
          (neededLoop chars root files libDirs).result later ∧
        Levelled owner root files later after.1 ∧
        (later.budget = 0 ∨ later.queue = nextEntries depth after.2)) ∨
      (((neededLoop chars root files libDirs).result fine).raised.isSome ∧
        (paths.foldlM (visitFile .strict chars owner proc libDirs) (coarse, next)).ended =
          .error .indexError) := by
  induction paths generalizing fine coarse next with
  | nil => exact .inl ⟨fine, (coarse, next), rfl, rfl, h, .inr hqueue⟩
  | cons path paths ih =>
      by_cases hbudget : coarse.budget = 0
      · exact .inl ⟨fine, (coarse, next), visitFiles_spent chars libDirs hbudget next _, rfl, h,
          .inl (h.budget.trans hbudget)⟩
      · rw [List.map_cons, List.cons_append] at hqueue
        have hturn := @neededLoop_turn_cons chars root files libDirs _ _ _ _ hqueue
          (h.budget ▸ hbudget)
        have hrest : Levelled owner root files { fine with
            queue := paths.map (fun path => (path, depth)) ++ nextEntries depth next } coarse :=
          ⟨h.quiet, h.found, h.seen, h.budget, h.noted⟩
        rw [List.foldlM_cons]
        rcases hrest.visit chars libDirs hshows path depth rfl hbudget with
          ⟨after, hended, hnext, hqueue'⟩ | ⟨hraised, hended⟩
        · rw [if_neg (by simp [hnext.quiet])] at hturn
          rw [Gen.bind_of_ok hended, Loop.result_of_continues hturn]
          exact ih after.2 hnext hqueue'
        · rw [if_pos hraised] at hturn
          rw [Gen.bind_of_error hended, Loop.result_of_leaves hturn]
          exact .inr ⟨hraised, rfl⟩

/-- From the start of a level, both walks end alike. -/
theorem Levelled.result (hshows : Shows proc files) (levels depth : ℕ)
    (hdepth : depth + levels = workerNeededDepth) (paths : List String)
    (h : Levelled owner root files fine coarse)
    (hqueue : fine.queue = paths.map fun path => (path, depth)) :
    Alike owner root files ((neededLoop chars root files libDirs).result fine)
      (visitLevels .strict chars owner proc libDirs levels coarse paths).ended := by
  induction levels generalizing fine coarse depth paths with
  | zero =>
      rw [visitLevels]
      rcases h.level chars libDirs hshows depth paths []
          (hqueue.trans (by simp [nextEntries])) with
        ⟨later, after, hended, hresult, hlater, hdone⟩ | ⟨hraised, hended⟩
      · have hlast : nextEntries depth after.2 = [] := if_neg (by omega)
        rw [Gen.bind_of_ok hended, hresult, neededLoop_leaves chars libDirs (by rwa [hlast] at hdone)]
        exact .returned after.1 hlater
      · obtain ⟨fault, hfault⟩ := Option.isSome_iff_exists.mp hraised
        rw [Gen.bind_of_error hended]
        exact .raised fault hfault
  | succ levels ih =>
      rcases h.level chars libDirs hshows depth paths []
          (hqueue.trans (by simp [nextEntries])) with
        ⟨later, after, hended, hresult, hlater, hdone⟩ | ⟨hraised, hended⟩
      · rw [hresult, visitLevels_of_ok chars libDirs hended]
        rcases hdone with hspent | hdone
        · rw [neededLoop_leaves chars libDirs (.inl hspent),
            visitLevels_spent chars libDirs (hlater.budget ▸ hspent)]
          exact .returned after.1 hlater
        · exact ih (depth + 1) (by omega) _ hlater (hdone.trans (if_pos (by omega)))
      · obtain ⟨fault, hfault⟩ := Option.isSome_iff_exists.mp hraised
        rw [visitLevels, Gen.bind_of_error hended]
        exact .raised fault hfault

/-- The walk file by file finds, opens, spends and raises what the walk level by level does. -/
theorem alike_walkNeeded (hshows : Shows proc files) {cache : Dict String (Option Dynamic)}
    {dynamic : List (ℕ × String)} (hnoted : Noted owner root files cache dynamic) (budget : ℕ)
    (binary : String) :
    Alike owner root files (walkNeeded chars root files libDirs cache budget binary)
      (linkedCryptoLibraries .strict chars owner proc libDirs dynamic budget binary).ended := by
  have hstart : Levelled owner root files (NeededWalk.start cache budget binary)
      ⟨[], [], dynamic, budget⟩ := ⟨rfl, rfl, rfl, rfl, hnoted⟩
  exact hstart.result chars libDirs hshows workerNeededDepth 0 (Nat.zero_add _) [binary] rfl

end Levels

/-! ## No file twice -/

section Once

variable {chars : CharData} {root : String} {files : RootFiles} {libDirs : List String}

/-- Every file has been opened once, and is in the cache since, but for one on which something was
raised. -/
structure Once (root : String) (files : RootFiles) (read : List String)
    (cache : Dict String (Option Dynamic)) (raised : Option ElfFault) : Prop where
  nodup : read.Nodup
  cached : ∀ path ∈ read, (cache.get? (dynamicKey root path)).isSome ∨
    raised.isSome ∧ ∃ fault, files.dynamic (location path) = .error fault

theorem Once.isSome {read : List String} {cache : Dict String (Option Dynamic)}
    (h : Once root files read cache none) {path : String} (hpath : path ∈ read) :
    (cache.get? (dynamicKey root path)).isSome :=
  (h.cached path hpath).resolve_right fun hraised => nomatch hraised.1

/-- A file that the cache does not have has not been opened. -/
theorem Once.append {read : List String} {cache : Dict String (Option Dynamic)} {path : String}
    (h : Once root files read cache none) (hfresh : cache.get? (dynamicKey root path) = none) :
    (read ++ [path]).Nodup := by
  rw [List.nodup_append]
  refine ⟨h.nodup, List.nodup_singleton path, fun other hother same hsame => ?_⟩
  rw [List.mem_singleton.mp hsame]
  rintro rfl
  have hsome := h.isSome hother
  rw [hfresh] at hsome
  cases hsome

theorem NeededWalk.Cost.once {path : String} {walk next : NeededWalk}
    (hcost : NeededWalk.Cost root files path walk next) (hquiet : walk.raised = none)
    (h : Once root files walk.read walk.cache none) :
    Once root files next.read next.cache next.raised := by
  cases hcost with
  | cached known read budget cache raised =>
      rw [read, cache, raised, hquiet]
      exact h
  | opened dyn fresh file read budget cache raised =>
      rw [read, cache]
      refine ⟨h.append fresh, fun other hother => .inl ?_⟩
      rw [Dict.get?_update]
      split
      · rfl
      · next hkey =>
          rcases List.mem_append.mp hother with hother | hother
          · exact h.isSome hother
          · exact absurd (congrArg (dynamicKey root) (List.mem_singleton.mp hother)) hkey
  | raised fault fresh file read budget cache raised =>
      rw [read, cache, raised]
      refine ⟨h.append fresh, fun other hother => ?_⟩
      rcases List.mem_append.mp hother with hother | hother
      · exact .inl (h.isSome hother)
      · exact .inr ⟨rfl, fault, List.mem_singleton.mp hother ▸ file⟩

theorem once_walkNeeded (cache : Dict String (Option Dynamic)) (budget : ℕ) (binary : String) :
    Once root files (walkNeeded chars root files libDirs cache budget binary).read
      (walkNeeded chars root files libDirs cache budget binary).cache
      (walkNeeded chars root files libDirs cache budget binary).raised := by
  refine neededLoop_keeps chars root files libDirs
    (P := fun walk => Once root files walk.read walk.cache walk.raised) ?_ rfl
    ⟨List.nodup_nil, fun _ hmem => by cases hmem⟩
  intro walk path depth queue _ _ hquiet h
  rw [hquiet] at h
  exact (NeededWalk.visited chars root files libDirs { walk with queue := queue } path
    depth).cost.once hquiet h

end Once

/-! ## The search -/

/-- The state of `_worker_binary_libraries`: `chosen` to `budget` are those of the code, `read` is
the files that it has opened, `probed` the places that it has looked at, and `raised` what has left
it. -/
structure WorkerSearch where
  chosen : Option (List String × String)
  fallback : Option (List String × String)
  cache : Dict String (Option Dynamic)
  budget : ℕ
  read : List String
  probed : List (List String)
  raised : Option ElfFault

section Search

variable (chars : CharData) (root : String) (files : RootFiles) (libDirs : List String)

/-- A walk that is over, with the libraries that it found. -/
def WorkerSearch.walked (search : WorkerSearch) (walk : NeededWalk) : WorkerSearch :=
  { search with
    cache := walk.cache
    budget := walk.budget
    read := search.read ++ walk.read
    probed := search.probed ++ walk.probed
    raised := walk.raised }

/-- One executable; the flag tells whether the loops go on. -/
def WorkerSearch.tryBinary (path : String) (search : WorkerSearch) : WorkerSearch × Bool :=
  if !files.isFile (location path) then (search, true)
  else
    let walk := walkNeeded chars root files libDirs search.cache search.budget path
    let search := search.walked walk
    if walk.raised.isSome then (search, false)
    else if walk.found ≠ [] ∧ hasTlsLibrary walk.found then
      ({ search with chosen := some (walk.found, path) }, false)
    else
      ({ search with
        fallback :=
          if walk.found ≠ [] ∧ search.fallback.isNone then some (walk.found, path)
          else search.fallback }, search.budget ≠ 0)

/-- The search before its first executable. -/
def WorkerSearch.start (cache : Dict String (Option Dynamic)) (budget : ℕ) : WorkerSearch :=
  ⟨none, none, cache, budget, [], [], none⟩

/-- The loops of `_worker_binary_libraries` over the executables. -/
def searchWorkers (cache : Dict String (Option Dynamic)) (budget : ℕ) (paths : List String) :
    WorkerSearch :=
  (forEach (WorkerSearch.tryBinary chars root files libDirs) paths (.start cache budget)).1

/-- `chosen or fallback`. -/
def WorkerSearch.answer (search : WorkerSearch) : Option (List String × String) :=
  search.chosen <|> search.fallback

variable {chars root files libDirs} {owner : ℕ} {proc : Proc} {search : WorkerSearch}

theorem WorkerSearch.tryBinary_of_isFile {path : String} (hfile : files.isFile (location path)) :
    search.tryBinary chars root files libDirs path =
      let walk := walkNeeded chars root files libDirs search.cache search.budget path
      if walk.raised.isSome then (search.walked walk, false)
      else if walk.found ≠ [] ∧ hasTlsLibrary walk.found then
        ({ search.walked walk with chosen := some (walk.found, path) }, false)
      else
        ({ search.walked walk with
          fallback :=
            if walk.found ≠ [] ∧ search.fallback.isNone then some (walk.found, path)
            else search.fallback }, walk.budget ≠ 0) := by
  rw [WorkerSearch.tryBinary, if_neg (by simp [hfile])]
  rfl

/-- How the search of the scan ends beside the one over the walks by file. -/
inductive SearchedAlike (owner : ℕ) (root : String) (files : RootFiles) (search : WorkerSearch) :
    Except Fault (Option (List String × String) × List (ℕ × String)) → Prop
  | returned (dynamic : List (ℕ × String)) (quiet : search.raised = none)
      (noted : Noted owner root files search.cache dynamic) :
      SearchedAlike owner root files search (.ok (search.answer, dynamic))
  | raised (fault : ElfFault) (raised : search.raised = some fault) :
      SearchedAlike owner root files search (.error .indexError)

/-- As long as nothing is chosen, the answer is the fallback. -/
theorem SearchedAlike.returnedFallback {dynamic : List (ℕ × String)}
    (hchosen : search.chosen = none) (hquiet : search.raised = none)
    (hnoted : Noted owner root files search.cache dynamic) :
    SearchedAlike owner root files search (.ok (search.fallback, dynamic)) := by
  have hanswer : search.answer = search.fallback := by
    rw [WorkerSearch.answer, hchosen]
    rfl
  exact hanswer ▸ .returned dynamic hquiet hnoted

/-- From the same state, the search over the walks by file ends as the one over the walks by
level. -/
theorem forEach_tryBinary (hshows : Shows proc files) (paths : List String)
    {dynamic : List (ℕ × String)} (hchosen : search.chosen = none) (hquiet : search.raised = none)
    (hnoted : Noted owner root files search.cache dynamic) :
    SearchedAlike owner root files
      (forEach (WorkerSearch.tryBinary chars root files libDirs) paths search).1
      (searchBinaries .strict chars owner proc libDirs dynamic search.budget search.fallback
        paths).ended := by
  induction paths generalizing search dynamic with
  | nil =>
      rw [searchBinaries, forEach_nil]
      exact .returnedFallback hchosen hquiet hnoted
  | cons path paths ih =>
      rw [searchBinaries, forEach_cons, hshows.isFile]
      by_cases hfile : files.isFile (location path)
      · have hwalk := alike_walkNeeded chars libDirs hshows hnoted search.budget path
        rw [if_pos hfile, WorkerSearch.tryBinary_of_isFile hfile]
        dsimp only
        generalize walkNeeded chars root files libDirs search.cache search.budget path = walk
          at hwalk ⊢
        -- Either both walks raise or neither does, and the latter leave the same behind.
        cases hended : (linkedCryptoLibraries .strict chars owner proc libDirs dynamic
            search.budget path).ended with
        | error fault =>
            rw [hended] at hwalk
            cases hwalk with
            | raised other raised =>
                have hsome : walk.raised.isSome = true := raised ▸ rfl
                rw [Gen.bind_of_error hended, if_pos hsome, if_neg Bool.false_ne_true]
                exact .raised other raised
        | ok coarse =>
            rw [hended] at hwalk
            cases hwalk with
            | returned _ levelled =>
                have hnone : ¬ walk.raised.isSome = true := by
                  rw [levelled.quiet]
                  exact Bool.false_ne_true
                rw [Gen.bind_of_ok hended, if_neg hnone, ← levelled.found, ← levelled.budget]
                dsimp only
                by_cases htls : walk.found ≠ [] ∧ hasTlsLibrary walk.found
                · rw [if_pos htls, if_pos htls, if_neg Bool.false_ne_true]
                  exact .returned coarse.dynamic levelled.quiet levelled.noted
                · rw [if_neg htls, if_neg htls]
                  -- A spent budget ends the search with the first binary that links anything.
                  by_cases hbudget : walk.budget = 0
                  · have hstop : ¬ decide (walk.budget ≠ 0) = true := by simpa using hbudget
                    rw [if_pos hbudget, if_neg hstop]
                    have hend : SearchedAlike owner root files { search.walked walk with
                        fallback :=
                          if walk.found ≠ [] ∧ search.fallback.isNone then some (walk.found, path)
                          else search.fallback } _ :=
                      .returnedFallback hchosen levelled.quiet levelled.noted
                    exact hend
                  · have hgo : decide (walk.budget ≠ 0) = true := by simpa using hbudget
                    rw [if_neg hbudget, if_pos hgo]
                    exact @ih { search.walked walk with
                      fallback :=
                        if walk.found ≠ [] ∧ search.fallback.isNone then some (walk.found, path)
                        else search.fallback } coarse.dynamic hchosen levelled.quiet levelled.noted
      · have hskip : search.tryBinary chars root files libDirs path = (search, true) :=
          if_pos (by simpa using hfile)
        rw [if_neg hfile, hskip, if_pos rfl]
        exact ih hchosen hquiet hnoted

/-- What the search keeps: it has gone nowhere up, has stayed within its budget, and has opened no
file twice. -/
structure Frugal (root : String) (files : RootFiles) (cache : Dict String (Option Dynamic))
    (limit : ℕ) (search : WorkerSearch) : Prop where
  probed : ∀ place ∈ search.probed, ".." ∉ place
  read : ∀ path ∈ search.read, ".." ∉ location path ∧ cache.get? (dynamicKey root path) = none
  spent : search.read.length + search.budget = limit
  cached : ∀ key, (cache.get? key).isSome → (search.cache.get? key).isSome
  once : Once root files search.read search.cache search.raised

theorem Frugal.walked {cache : Dict String (Option Dynamic)} {limit : ℕ}
    (hlibs : ∀ dir ∈ libDirs, Inside dir) {path : String} (hpath : Inside path)
    (hquiet : search.raised = none) (h : Frugal root files cache limit search) :
    Frugal root files cache limit
      (search.walked (walkNeeded chars root files libDirs search.cache search.budget path)) := by
  have hstart : Contained root search.cache search.budget
      (NeededWalk.start search.cache search.budget path) :=
    ⟨by simpa [NeededWalk.start] using hpath, by simp [NeededWalk.start],
      by simp [NeededWalk.start], by simp [NeededWalk.start], fun _ hkey => hkey,
      List.nodup_nil, by simp [NeededWalk.start]⟩
  have hwalk : Contained root search.cache search.budget
      (walkNeeded chars root files libDirs search.cache search.budget path) :=
    hstart.result hlibs rfl
  have honce : Once root files
      (walkNeeded chars root files libDirs search.cache search.budget path).read
      (walkNeeded chars root files libDirs search.cache search.budget path).cache
      (walkNeeded chars root files libDirs search.cache search.budget path).raised :=
    once_walkNeeded search.cache search.budget path
  have hbefore : Once root files search.read search.cache none := hquiet ▸ h.once
  have hspent := hwalk.spent
  have hlimit := h.spent
  refine ⟨List.forall_mem_append.mpr ⟨h.probed, hwalk.probed⟩, ?_, ?_,
    fun key hkey => hwalk.cached key (h.cached key hkey), ?_, ?_⟩
  · refine List.forall_mem_append.mpr
      ⟨h.read, fun other hother => ⟨(hwalk.read other hother).1, ?_⟩⟩
    -- What this search knows, and the cache before it, the cache of the walk knows.
    by_contra hsome
    have hkept := h.cached (dynamicKey root other) (Option.isSome_iff_ne_none.mpr hsome)
    rw [(hwalk.read other hother).2] at hkept
    cases hkept
  · rw [WorkerSearch.walked]
    dsimp only
    rw [List.length_append]
    omega
  · rw [WorkerSearch.walked, List.nodup_append]
    refine ⟨hbefore.nodup, honce.nodup, fun first hfirst other hother => ?_⟩
    rintro rfl
    have hknown := hbefore.isSome hfirst
    rw [(hwalk.read first hother).2] at hknown
    cases hknown
  · exact List.forall_mem_append.mpr
      ⟨fun other hother => .inl (hwalk.cached _ (hbefore.isSome hother)), honce.cached⟩

/-- One executable keeps this, and the loops go on only if nothing was raised. -/
theorem Frugal.tryBinary {cache : Dict String (Option Dynamic)} {limit : ℕ}
    (hlibs : ∀ dir ∈ libDirs, Inside dir) {path : String} (hpath : Inside path)
    (hquiet : search.raised = none) (h : Frugal root files cache limit search) :
    Frugal root files cache limit (search.tryBinary chars root files libDirs path).1 ∧
      ((search.tryBinary chars root files libDirs path).2 →
        (search.tryBinary chars root files libDirs path).1.raised = none) := by
  have hwalked : Frugal root files cache limit
      (search.walked (walkNeeded chars root files libDirs search.cache search.budget path)) :=
    h.walked hlibs hpath hquiet
  rw [WorkerSearch.tryBinary]
  split
  · exact ⟨h, fun _ => hquiet⟩
  · dsimp only
    split
    · exact ⟨hwalked, fun hgo => nomatch hgo⟩
    · next hnone =>
        split
        · exact ⟨⟨hwalked.probed, hwalked.read, hwalked.spent, hwalked.cached, hwalked.once⟩,
            fun hgo => nomatch hgo⟩
        · exact ⟨⟨hwalked.probed, hwalked.read, hwalked.spent, hwalked.cached, hwalked.once⟩,
            fun _ => Option.not_isSome_iff_eq_none.mp hnone⟩

theorem Frugal.forEach {cache : Dict String (Option Dynamic)} {limit : ℕ}
    (hlibs : ∀ dir ∈ libDirs, Inside dir) (paths : List String)
    (hpaths : ∀ path ∈ paths, Inside path) (hquiet : search.raised = none)
    (h : Frugal root files cache limit search) :
    Frugal root files cache limit
      (Lib.forEach (WorkerSearch.tryBinary chars root files libDirs) paths search).1 := by
  induction paths generalizing search with
  | nil => exact h
  | cons path paths ih =>
      obtain ⟨hpath, hrest⟩ := List.forall_mem_cons.mp hpaths
      obtain ⟨hnext, hgoes⟩ := @Frugal.tryBinary chars root files libDirs search cache limit hlibs path
        hpath hquiet h
      rw [forEach_cons]
      split
      · next hgo => exact ih hrest (hgoes hgo) hnext
      · exact hnext

variable (chars root files libDirs)

/-- **The search that opens file after file ends with the answer of the one that goes level by
level and with a cache of the same files, or what is raised leaves both.** -/
theorem searchWorkers_refines {cache : Dict String (Option Dynamic)} {dynamic : List (ℕ × String)}
    (hshows : Shows proc files) (hnoted : Noted owner root files cache dynamic) (budget : ℕ)
    (paths : List String) :
    ((searchWorkers chars root files libDirs cache budget paths).raised = none →
        ∃ after, (searchBinaries .strict chars owner proc libDirs dynamic budget none paths).ended =
            .ok ((searchWorkers chars root files libDirs cache budget paths).answer, after) ∧
          Noted owner root files (searchWorkers chars root files libDirs cache budget paths).cache
            after) ∧
      ((searchWorkers chars root files libDirs cache budget paths).raised ≠ none →
        (searchBinaries .strict chars owner proc libDirs dynamic budget none paths).ended =
          .error .indexError) := by
  have halike : SearchedAlike owner root files
      (searchWorkers chars root files libDirs cache budget paths)
      (searchBinaries .strict chars owner proc libDirs dynamic budget none paths).ended :=
    @forEach_tryBinary chars root files libDirs owner proc (.start cache budget) hshows paths
      dynamic rfl rfl hnoted
  generalize (searchBinaries .strict chars owner proc libDirs dynamic budget none paths).ended =
    ended at halike ⊢
  cases halike with
  | returned after quiet noted =>
      exact ⟨fun _ => ⟨after, rfl, noted⟩, fun hraised => absurd quiet hraised⟩
  | raised fault raised =>
      refine ⟨fun hquiet => ?_, fun _ => rfl⟩
      rw [raised] at hquiet
      cases hquiet

/-- **Over all the executables of the workers, no more files are opened than the budget allows, none
of them twice, none that the cache held before, and no path goes up.  The cache holds every file
that was opened, but for one on which `elf_dynamic` raises.** -/
theorem searchWorkers_frugal (cache : Dict String (Option Dynamic)) (budget : ℕ)
    (paths : List String) (hlibs : ∀ dir ∈ libDirs, Inside dir)
    (hpaths : ∀ path ∈ paths, Inside path) :
    (searchWorkers chars root files libDirs cache budget paths).read.length ≤ budget ∧
      (searchWorkers chars root files libDirs cache budget paths).read.Nodup ∧
      (∀ path ∈ (searchWorkers chars root files libDirs cache budget paths).read,
        cache.get? (dynamicKey root path) = none ∧
          (((searchWorkers chars root files libDirs cache budget paths).cache.get?
              (dynamicKey root path)).isSome ∨
            (searchWorkers chars root files libDirs cache budget paths).raised.isSome ∧
              ∃ fault, files.dynamic (location path) = .error fault)) ∧
      ∀ place ∈ (searchWorkers chars root files libDirs cache budget paths).probed ++
        (searchWorkers chars root files libDirs cache budget paths).read.map location,
          ".." ∉ place := by
  have hstart : Frugal root files cache budget (.start cache budget) :=
    ⟨by simp [WorkerSearch.start], by simp [WorkerSearch.start], by simp [WorkerSearch.start],
      fun _ hkey => hkey, ⟨List.nodup_nil, fun _ hmem => by cases hmem⟩⟩
  have h : Frugal root files cache budget
      (searchWorkers chars root files libDirs cache budget paths) :=
    hstart.forEach hlibs paths hpaths rfl
  have hspent := h.spent
  refine ⟨by omega, h.once.nodup,
    fun path hpath => ⟨(h.read path hpath).2, h.once.cached path hpath⟩,
    List.forall_mem_append.mpr ⟨h.probed, fun place hplace => ?_⟩⟩
  obtain ⟨path, hpath, rfl⟩ := List.mem_map.mp hplace
  exact (h.read path hpath).1

end Search

/-! ### A mail server -/

theorem linkedFile_limit : 2 ^ 40 < 2 ^ 63 := by decide

/-- A 32-bit program that needs one library. -/
def linkedFile (name : String) : ElfFile where
  data := elfMagic ++ ([1, 1, 1] ++ List.replicate 9 0) ++ wholes [0, 0, 0, 52, 0, 0] ++
    halves [52, 32, 2, 40, 0, 0] ++ wholes [1, 0, 4096, 0, 256, 256, 5, 0] ++
    wholes [2, 116, 4212, 0, 32, 32, 6, 0] ++ wholes [1, 1, 5, 4244, 10, 64, 0, 0] ++
    (0 :: encodeAscii name) ++ [0]
  limit := 2 ^ 40
  limit_lt := linkedFile_limit

/-- The programs of a mail server whose helper links OpenSSL through a library of its own. -/
def helperElf (place : List String) : Option ElfFile :=
  if place = ["usr", "lib", "postfix", "smtpd"] then some (linkedFile "libpostfix-tls.so")
  else if place = ["usr", "lib", "libpostfix-tls.so"] then some (linkedFile "libssl.so.3")
  else none

/-- The files of the mail server. -/
def helperFiles : RootFiles where
  isFile place := place = ["usr", "lib", "postfix", "smtpd"] || postfixFiles.isFile place
  dynamic place := openDynamic (helperElf place)

/-- The process that shows them. -/
def helperProc : Proc :=
  { Proc.exited with
    isFile := fun path => helperFiles.isFile (location path)
    elf := fun path => helperElf (location path) }

theorem searchWorkers_helper :
    (searchWorkers ⟨id, Char.isAlphanum⟩ "/proc/1/root" helperFiles ["/usr/lib"] Dict.empty 256
        ["/usr/lib/postfix/master", "/usr/lib/postfix/smtpd"]).answer =
      some (["/usr/lib/libssl.so.3"], "/usr/lib/postfix/smtpd") := by
  have hshows : Shows helperProc helperFiles := ⟨fun _ => rfl, fun _ => rfl⟩
  have hnoted : Noted 1 "/proc/1/root" helperFiles Dict.empty [] := by
    refine ⟨fun path => ⟨fun hmem => ?_, fun hsome => ?_⟩, fun path dyn hget => ?_⟩
    · cases hmem
    · cases hsome
    · cases hget
  have hrun : ∃ noted, (searchBinaries .strict ⟨id, Char.isAlphanum⟩ 1 helperProc ["/usr/lib"] []
      256 none ["/usr/lib/postfix/master", "/usr/lib/postfix/smtpd"]).ended =
        .ok (some (["/usr/lib/libssl.so.3"], "/usr/lib/postfix/smtpd"), noted) :=
    ⟨[(1, "/usr/lib/postfix/smtpd"), (1, "/usr/lib/libpostfix-tls.so"),
      (1, "/usr/lib/libssl.so.3")], by decide +kernel⟩
  obtain ⟨hreturns, hraises⟩ := searchWorkers_refines ⟨id, Char.isAlphanum⟩ "/proc/1/root"
    helperFiles ["/usr/lib"] hshows hnoted 256 ["/usr/lib/postfix/master", "/usr/lib/postfix/smtpd"]
  obtain ⟨noted, hrun⟩ := hrun
  by_cases hquiet : (searchWorkers ⟨id, Char.isAlphanum⟩ "/proc/1/root" helperFiles ["/usr/lib"]
      Dict.empty 256 ["/usr/lib/postfix/master", "/usr/lib/postfix/smtpd"]).raised = none
  · obtain ⟨after, hanswer, -⟩ := hreturns hquiet
    rw [hrun] at hanswer
    exact (Prod.mk.inj (Except.ok.inj hanswer)).1.symm
  · have herror := hraises hquiet
    rw [hrun] at herror
    cases herror

theorem searchWorkers_helper_frugal :
    (searchWorkers ⟨id, Char.isAlphanum⟩ "/proc/1/root" helperFiles ["/usr/lib"] Dict.empty 2
        ["/usr/lib/postfix/master", "/usr/lib/postfix/smtpd"]).read.length ≤ 2 :=
  (searchWorkers_frugal ⟨id, Char.isAlphanum⟩ "/proc/1/root" helperFiles ["/usr/lib"] Dict.empty 2
    ["/usr/lib/postfix/master", "/usr/lib/postfix/smtpd"] (by decide +kernel) (by decide +kernel)).1

end PqcReadiness.Runtime
