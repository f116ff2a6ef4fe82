import PqcReadiness.Platform.HostPath

/-!
# Offline scans and the tree

What `resolve_in_root` returns, and whether a scan under `--root` can be led out
of the tree.

The loop is compared with the walk of a system whose root the tree is: from any
state, it returns `final` exactly if that walk leads from `done` along `pending`
to `final` and follows no more links than are left (`result_eq_ok_iff`).  Each turn
is one rule of the walk, except that the target of a link goes onto the work list
instead of being resolved on its own (`reaches_link_iff`).

A path that does not resolve is the exception.  `host_path` and `in_tree` then
point below the name of `_LOOP_SINK`, which no one has looked up in the tree.  The
scan stays in the tree exactly if that name, or what is below it, does not lead
out.
-/

namespace PqcReadiness.Platform

open PqcReadiness.Lib

variable {trees : Trees} {maxLinks limit : ℕ}

/-! ## Resolution -/

/-- The path leads somewhere in a system whose root the tree is, and at most
`maxLinks` links are followed on the way. -/
def Resolvable (links : Links) (maxLinks : ℕ) (path : String) : Prop :=
  ∃ followed final, followed ≤ maxLinks ∧ Reaches links [] (components path) followed final

/-- The loop returns where the walk leads. -/
theorem result_eq_ok_iff (links : Links) (maxLinks : ℕ) (state : ResolveState)
    (hstate : state.links ≤ maxLinks) (final : List String) :
    (resolveLoop links maxLinks).result state = .ok final ↔
      ∃ followed, state.links + followed ≤ maxLinks ∧
        Reaches links state.done state.pending followed final := by
  induction state using (resolveLoop links maxLinks).induct with
  | hstep state ih =>
      rcases resolveTurn_cases links maxLinks state with
        ⟨hpending, hturn⟩ | ⟨part, pending, hpending, hpart⟩
      · rw [Loop.result_of_leaves hturn, hpending]
        simp only [reaches_nil_iff, Except.ok.injEq]
        constructor
        · rintro rfl
          exact ⟨0, hstate, rfl, rfl⟩
        · rintro ⟨followed, -, -, rfl⟩
          rfl
      · rw [hpending]
        rcases hpart with ⟨rfl, hturn⟩ | ⟨rfl, hturn⟩ | ⟨hname, hlink, hturn⟩ |
          ⟨hname, target, hlink, ⟨hlimit, hturn⟩ | ⟨hlimit, hturn⟩⟩
        · rw [Loop.result_of_continues hturn, ih _ hturn hstate]
          simp only [reaches_self_iff]
        · rw [Loop.result_of_continues hturn, ih _ hturn hstate]
          simp only [reaches_parent_iff]
        · rw [Loop.result_of_continues hturn, ih _ hturn hstate]
          simp only [reaches_name_iff hname hlink]
        · -- One link more than allowed: the walk would have to follow it, too.
          rw [Loop.result_of_leaves hturn]
          simp only [reaches_link_iff hname hlink, reduceCtorEq, false_iff]
          rintro ⟨followed, hcount, left, rfl, -⟩
          omega
        · -- The link is replaced by its target, and counts as one.
          rw [Loop.result_of_continues hturn, ih _ hturn hlimit]
          simp only [reaches_link_iff hname hlink]
          constructor
          · rintro ⟨left, hcount, hreaches⟩
            exact ⟨left + 1, by omega, left, rfl, hreaches⟩
          · rintro ⟨followed, hcount, left, rfl, hreaches⟩
            exact ⟨left, by omega, hreaches⟩

/-- `resolve_in_root` returns the location that a system chrooted at the root
reaches. -/
theorem resolveInRoot_eq_ok_iff (path root r : String) :
    resolveInRoot trees path root maxLinks = .ok r ↔
      ∃ followed final, followed ≤ maxLinks ∧
        Reaches (trees root).links [] (components path) followed final ∧ r = pathText final := by
  have hresult := result_eq_ok_iff (trees root).links maxLinks ⟨components path, [], 0⟩
    (Nat.zero_le _)
  simp only [Nat.zero_add] at hresult
  rw [resolveInRoot]
  constructor
  · intro hr
    cases hfinal : (resolveLoop (trees root).links maxLinks).result ⟨components path, [], 0⟩ with
    | error e =>
        rw [hfinal] at hr
        cases hr
    | ok final =>
        obtain ⟨followed, hcount, hreaches⟩ := (hresult final).mp hfinal
        rw [hfinal] at hr
        cases hr
        exact ⟨followed, final, hcount, hreaches, rfl⟩
  · rintro ⟨followed, final, hcount, hreaches, rfl⟩
    rw [(hresult final).mpr ⟨followed, hcount, hreaches⟩]
    rfl

theorem exists_resolveInRoot_iff (path root : String) :
    (∃ r, resolveInRoot trees path root maxLinks = .ok r) ↔
      Resolvable (trees root).links maxLinks path := by
  simp only [resolveInRoot_eq_ok_iff]
  constructor
  · rintro ⟨r, followed, final, hcount, hreaches, -⟩
    exact ⟨followed, final, hcount, hreaches⟩
  · rintro ⟨followed, final, hcount, hreaches⟩
    exact ⟨pathText final, followed, final, hcount, hreaches, rfl⟩

/-- Every other path raises `ELOOP`. -/
theorem resolveInRoot_eq_eloop_iff (path root : String) :
    resolveInRoot trees path root maxLinks = .error .eloop ↔
      ¬ Resolvable (trees root).links maxLinks path := by
  rw [← exists_resolveInRoot_iff]
  cases resolveInRoot trees path root maxLinks with
  | error e => simp
  | ok r => simp

/-- There are no dots and no links on the way to what is returned. -/
theorem clean_of_resolveInRoot {path root r : String}
    (hr : resolveInRoot trees path root maxLinks = .ok r) :
    ∃ parts, r = pathText parts ∧ Clean (trees root).links parts := by
  obtain ⟨followed, final, -, hreaches, rfl⟩ := (resolveInRoot_eq_ok_iff path root r).mp hr
  exact ⟨final, rfl, .of_reaches hreaches (fun _ => isComponent_of_mem_components) .nil⟩

/-! ## Opening what is returned -/

/-- The path is below the prefix, and opening it does not leave the tree there. -/
def OpensBelow (tree : Tree) (limit : ℕ) (pre : String) (path : PurePath) : Prop :=
  ∃ rest, path = (PurePath.ofText pre).below rest ∧ ¬ Leaves tree limit [] rest

theorem opensBelow_below_iff {tree : Tree} {pre : String} {rest : List String} :
    OpensBelow tree limit pre ((PurePath.ofText pre).below rest) ↔ ¬ Leaves tree limit [] rest := by
  constructor
  · rintro ⟨other, hother, hstays⟩
    obtain rfl := List.append_cancel_left (congrArg PurePath.parts hother)
    exact hstays
  · exact fun hstays => ⟨rest, rfl, hstays⟩

theorem parts_of_clean {parts : List String} {links : Links} (hparts : Clean links parts) :
    (PurePath.ofText (pathText parts)).parts = parts := by
  simp only [PurePath.ofText, pathText, components_slash_left, components_join hparts.component]
  exact List.filter_eq_self.mpr fun part hpart => by simpa using (hparts.name part hpart).ne_dot

/-- A resolved path, below the prefix. -/
theorem ofText_pathText {pre : String} {parts : List String} {links : Links} (hpre : pre ≠ "")
    (hslash : rstripChar '/' pre = pre) (hparts : Clean links parts) :
    PurePath.ofText (pre ++ pathText parts) = (PurePath.ofText pre).below parts := by
  have hpath : startsWith "/" (pathText parts) := startsWith_slash_iff.mpr ⟨_, rfl⟩
  rw [PurePath.ofText_append hpre hslash hpath, parts_of_clean hparts]

/-- A path below the loop sink, below the prefix. -/
theorem ofText_loopSink {pre p : String} (hpre : pre ≠ "") (hslash : rstripChar '/' pre = pre)
    (hp : startsWith "/" p) :
    PurePath.ofText (pre ++ loopSink ++ normpath p) =
      (PurePath.ofText pre).below (loopSinkName :: components (normpath p)) := by
  obtain ⟨hnorm, hcomponents⟩ := normpath_of_absolute hp
  have hsink : components loopSink = [loopSinkName] := by decide +kernel
  have hpath : startsWith "/" (loopSink ++ normpath p) :=
    startsWith_slash_iff.mpr ⟨loopSinkName ++ normpath p, String.append_assoc⟩
  have hparts : (PurePath.ofText (loopSink ++ normpath p)).parts =
      loopSinkName :: components (normpath p) := by
    simp only [PurePath.ofText, components_append hnorm, hsink, List.singleton_append]
    refine List.filter_eq_self.mpr (List.forall_mem_cons.mpr ⟨by decide, ?_⟩)
    intro part hpart
    rw [hcomponents] at hpart
    simpa using (normComponents_components p part hpart).2
  rw [String.append_assoc, PurePath.ofText_append hpre hslash hpath, hparts]

/-- The path resolves, or opening it below the loop sink does not leave the tree. -/
def Contained (tree : Tree) (limit : ℕ) (p : String) : Prop :=
  Resolvable tree.links defaultMaxLinks p ∨
    ¬ Leaves tree limit [] (loopSinkName :: components (normpath p))

/-- A tree that has nothing at the loop sink contains every path. -/
theorem contained_of_sink_absent {tree : Tree} (hlink : tree.links [loopSinkName] = none)
    (hdirectory : tree.directory [loopSinkName] = false) (p : String) : Contained tree limit p := by
  right
  generalize hsink : loopSinkName = sink at *
  intro hleaves
  cases hleaves with
  | up => exact absurd hsink (by decide)
  | out _ htarget => exact absurd (hlink.symm.trans htarget) (by simp)
  | self => exact absurd hsink (by decide)
  | parent hne => exact hne rfl
  | name _ _ hentered => exact absurd (hdirectory.symm.trans hentered) (by simp)
  | link _ htarget => exact absurd (hlink.symm.trans htarget) (by simp)

/-- What `host_path` and `in_tree` make of a path under a prefix. -/
theorem opensBelow_resolved_iff {pre p : String} {path : PurePath} (hpre : pre ≠ "")
    (hslash : rstripChar '/' pre = pre) (hp : startsWith "/" p)
    (hok : ∀ r, resolveInRoot trees p pre defaultMaxLinks = .ok r → path = .ofText (pre ++ r))
    (hloop : resolveInRoot trees p pre defaultMaxLinks = .error .eloop →
      path = .ofText (pre ++ loopSink ++ normpath p)) :
    OpensBelow (trees pre) limit pre path ↔ Contained (trees pre) limit p := by
  by_cases hresolves : Resolvable (trees pre).links defaultMaxLinks p
  · refine iff_of_true ?_ (.inl hresolves)
    obtain ⟨r, hr⟩ := (exists_resolveInRoot_iff p pre).mpr hresolves
    obtain ⟨parts, rfl, hclean⟩ := clean_of_resolveInRoot hr
    rw [hok _ hr, ofText_pathText hpre hslash hclean, opensBelow_below_iff]
    exact Clean.not_leaves hclean
  · rw [hloop ((resolveInRoot_eq_eloop_iff p pre).mpr hresolves), ofText_loopSink hpre hslash hp,
      opensBelow_below_iff]
    exact ⟨.inr, fun h => h.resolve_left hresolves⟩

theorem hostPath_opensBelow_iff {state : Prefixes} {p : String} (hroot : state.offlineRoot ≠ "")
    (hp : startsWith "/" p) :
    OpensBelow (trees state.offlineRoot) limit state.offlineRoot (hostPath trees state p) ↔
      Contained (trees state.offlineRoot) limit p := by
  refine opensBelow_resolved_iff hroot state.offlineRoot_stripped hp ?_ ?_
  · intro r hr
    simp only [hostPath, if_pos (And.intro hroot hp), hr]
  · intro hr
    simp only [hostPath, if_pos (And.intro hroot hp), hr]

theorem startsWith_relativeTo {pre p : String} (hbelow : isBelow pre p) :
    startsWith "/" (relativeTo pre p) := by
  rw [isBelow, Bool.or_eq_true, beq_iff_eq, startsWith, List.isPrefixOf_iff_prefix] at hbelow
  rcases hbelow with rfl | ⟨rest, hrest⟩
  · rw [relativeTo, List.drop_length]
    rfl
  · rw [relativeTo, ← hrest, String.toList_append, List.append_assoc, List.drop_left]
    have hne : String.ofList ("/".toList ++ rest) ≠ "" := by simp
    rw [if_neg hne, startsWith_slash_iff]
    exact ⟨String.ofList rest, String.ofList_append⟩

theorem inTree_opensBelow_iff {state : Prefixes} {p : String} (hpre : state.hostPrefix ≠ "")
    (hbelow : isBelow state.hostPrefix p) :
    OpensBelow (trees state.hostPrefix) limit state.hostPrefix (inTree trees state p) ↔
      Contained (trees state.hostPrefix) limit (relativeTo state.hostPrefix p) := by
  have hguard : ¬ (state.hostPrefix = "" ∨ ¬ isBelow state.hostPrefix p) := by simp [hpre, hbelow]
  refine opensBelow_resolved_iff hpre state.hostPrefix_stripped (startsWith_relativeTo hbelow) ?_ ?_
  · intro r hr
    simp only [inTree, if_neg hguard, hr]
  · intro hr
    simp only [inTree, if_neg hguard, hr]

/-! ## Listing -/

/-- What `host_glob` lists for one path is resolved under the prefix. -/
theorem listed_globBase {listing : Listing} {pre part base text : String}
    (htext : text ∈ (globBase trees listing pre part base).listed) :
    ∃ parts, text = pre ++ pathText parts ∧ Clean (trees pre).links parts := by
  simp only [globBase] at htext
  split at htext
  · exact absurd htext List.not_mem_nil
  · split at htext
    · exact absurd htext List.not_mem_nil
    · next resolved hresolved =>
        obtain ⟨parts, rfl, hclean⟩ := clean_of_resolveInRoot hresolved
        split at htext <;> exact ⟨parts, List.mem_singleton.mp htext, hclean⟩

/-- The same over all components of the pattern. -/
theorem listed_foldl_globPart {listing : Listing} {pre : String} (pattern : List String)
    {state : Globbed} {Listed : String → Prop} (hstate : ∀ text ∈ state.listed, Listed text)
    (hbase : ∀ part base, ∀ text ∈ (globBase trees listing pre part base).listed, Listed text) :
    ∀ text ∈ (pattern.foldl (globPart trees listing pre) state).listed, Listed text := by
  induction pattern generalizing state with
  | nil => exact hstate
  | cons part rest ih =>
      apply ih
      intro text htext
      rcases List.mem_append.mp htext with hold | hnew
      · exact hstate text hold
      · obtain ⟨next, hnext, htext⟩ := List.mem_flatMap.mp hnew
        obtain ⟨base, -, rfl⟩ := List.mem_map.mp hnext
        exact hbase part base text htext

theorem hostGlob_opensBelow {listing : Listing} {state : Prefixes} {pattern : String}
    (hpre : state.hostPrefix ≠ "") :
    ∀ text ∈ (hostGlob trees listing state pattern).listed,
      OpensBelow (trees state.hostPrefix) limit state.hostPrefix (.ofText text) := by
  rw [hostGlob, if_neg hpre]
  refine listed_foldl_globPart _ (by simp) ?_
  intro part base text htext
  obtain ⟨parts, rfl, hclean⟩ := listed_globBase htext
  rw [ofText_pathText hpre state.hostPrefix_stripped hclean, opensBelow_below_iff]
  exact Clean.not_leaves hclean

/-! ## Offline scans -/

/-- A scan stays in the tree at the path `p`: `resolve_in_root` ends and returns what
a system chrooted at the root reaches, or raises `ELOOP`; what it returns has no dots
and no links on the way, so that it is opened where it is; `host_path` and `in_tree` return a path below the prefix that
does not leave the tree when it is opened; so are the directories that `host_glob`
lists.  `limit` is the number of links that the scanning machine follows. -/
structure OfflineContained (trees : Trees) (limit : ℕ) (state : Prefixes) (p : String) : Prop where
  terminates : ∀ root maxLinks, ∃ turns outcome,
    (resolveLoop (trees root).links maxLinks).runFor turns ⟨components p, [], 0⟩ = some outcome ∧
      resolveInRoot trees p root maxLinks = outcome.map pathText
  clean : ∀ root maxLinks r, resolveInRoot trees p root maxLinks = .ok r →
    ∃ parts, r = pathText parts ∧ components r = parts ∧ Clean (trees root).links parts ∧
      Reaches (trees root).links [] parts 0 parts ∧ ¬ Leaves (trees root) limit [] parts
  chrooted : ∀ root maxLinks r, resolveInRoot trees p root maxLinks = .ok r ↔
    ∃ followed final, followed ≤ maxLinks ∧
      Reaches (trees root).links [] (components p) followed final ∧ r = pathText final
  eloop : ∀ root maxLinks, resolveInRoot trees p root maxLinks = .error .eloop ↔
    ¬ Resolvable (trees root).links maxLinks p
  hostPath : state.offlineRoot ≠ "" → startsWith "/" p →
    OpensBelow (trees state.offlineRoot) limit state.offlineRoot (hostPath trees state p)
  inTree : state.hostPrefix ≠ "" → isBelow state.hostPrefix p →
    OpensBelow (trees state.hostPrefix) limit state.hostPrefix (inTree trees state p)
  hostGlob : state.hostPrefix ≠ "" → ∀ listing,
    ∀ text ∈ (hostGlob trees listing state p).listed,
      OpensBelow (trees state.hostPrefix) limit state.hostPrefix (.ofText text)

/-- The tree under the prefix contains the path, whichever function asks for it. -/
structure LoopsContained (trees : Trees) (limit : ℕ) (state : Prefixes) (p : String) : Prop where
  hostPath : state.offlineRoot ≠ "" → startsWith "/" p →
    Contained (trees state.offlineRoot) limit p
  inTree : state.hostPrefix ≠ "" → isBelow state.hostPrefix p →
    Contained (trees state.hostPrefix) limit (relativeTo state.hostPrefix p)

/-- **A scan stays in the tree at exactly the paths that resolve, or that the loop
sink does not lead out.** -/
theorem offlineContained_iff (trees : Trees) (limit : ℕ) (state : Prefixes) (p : String) :
    OfflineContained trees limit state p ↔ LoopsContained trees limit state p := by
  constructor
  · intro h
    exact ⟨fun hroot hp => (hostPath_opensBelow_iff hroot hp).mp (h.hostPath hroot hp),
      fun hpre hbelow => (inTree_opensBelow_iff hpre hbelow).mp (h.inTree hpre hbelow)⟩
  · intro h
    constructor
    · intro root maxLinks
      obtain ⟨turns, hrun⟩ :=
        (resolveLoop (trees root).links maxLinks).exists_runFor ⟨components p, [], 0⟩
      exact ⟨turns, _, hrun, rfl⟩
    · intro root maxLinks r hr
      obtain ⟨parts, rfl, hclean⟩ := clean_of_resolveInRoot hr
      have hcomponents : components (pathText parts) = parts := by
        rw [pathText, components_slash_left, components_join hclean.component]
      exact ⟨parts, rfl, hcomponents, hclean, Clean.reaches hclean, Clean.not_leaves hclean⟩
    · intro root maxLinks r
      exact resolveInRoot_eq_ok_iff p root r
    · intro root maxLinks
      exact resolveInRoot_eq_eloop_iff p root
    · intro hroot hp
      exact (hostPath_opensBelow_iff hroot hp).mpr (h.hostPath hroot hp)
    · intro hpre hbelow
      exact (inTree_opensBelow_iff hpre hbelow).mpr (h.inTree hpre hbelow)
    · intro hpre listing
      exact hostGlob_opensBelow hpre

/-- A tree with a link to itself, and an absolute link at the loop sink. -/
def escapingTree : Tree where
  links := fun location =>
    if location = ["loop"] then some "loop"
    else if location = [loopSinkName] then some "/"
    else none
  directory := fun _ => true

theorem escapingTree_leaves :
    ¬ OfflineContained (fun _ => escapingTree) 40 (setOfflineRoot live "/mnt/image") "/loop" := by
  intro h
  have hroot : (setOfflineRoot live "/mnt/image").offlineRoot ≠ "" := by decide +kernel
  have hp : startsWith "/" "/loop" := by decide
  rcases (hostPath_opensBelow_iff hroot hp).mp (h.hostPath hroot hp) with hresolves | hstays
  · have hrun : (resolveLoop escapingTree.links 40).runFor 50 ⟨components "/loop", [], 0⟩ =
        some (.error .eloop) := by decide +kernel
    have heloop : resolveInRoot (fun _ => escapingTree) "/loop" "" 40 = .error .eloop := by
      rw [resolveInRoot, Loop.result_eq_of_runFor _ hrun]
      rfl
    exact (resolveInRoot_eq_eloop_iff "/loop" "").mp heloop hresolves
  · -- The OS follows the absolute link at the sink.
    exact hstays (.out ⟨by decide, by decide⟩ rfl (by decide))

end PqcReadiness.Platform
