import Mathlib.Data.Multiset.DershowitzManna
import PqcReadiness.Lib.Loop

/-!
# Searching breadth first by name, to a depth

Nodes name others, and a name may stand for a node.  `search` takes nodes from a queue; a name
that has not been seen is noted, and the node it stands for is queued one level deeper, unless that
is deeper than `bound`.  The queue may grow on every turn; what ends the loop is that whatever is
queued is deeper than what is taken (`Deeper`).

`mem_search_iff` is the rule for users: the names seen are those on a chain of at most `bound + 1`
names from the start, although a node is never queued twice.  The invariant `Searched` says why:
nodes come from the queue in the order of their depth, so that a name is first seen at the end of
a shortest chain.
-/

namespace PqcReadiness.Lib

variable {α ν : Type*}

/-- A node at the end of a chain of `n` names from the start. -/
inductive Chain (names : α → List ν) (target : ν → Option α) (start : α) : ℕ → α → Prop where
  | start : Chain names target start 0 start
  | step {n : ℕ} {x y : α} {name : ν} (hchain : Chain names target start n x)
      (hname : name ∈ names x) (htarget : target name = some y) :
      Chain names target start (n + 1) y

/-! ## Queues of nodes with their depths -/

/-- How far the entries of a queue are from the deepest level. -/
def heights (bound : ℕ) (queue : List (α × ℕ)) : Multiset ℕ :=
  queue.map fun entry => bound + 1 - entry.2

/-- An entry has been taken from the queue, and only deeper ones have been added. -/
def Deeper (bound : ℕ) (next queue : List (α × ℕ)) : Prop :=
  Multiset.IsDershowitzMannaLT (heights bound next) (heights bound queue)

theorem wellFounded_deeper (bound : ℕ) : WellFounded (Deeper (α := α) bound) :=
  InvImage.wf (heights bound) Multiset.wellFounded_isDershowitzMannaLT

theorem deeper_of_append {bound depth : ℕ} {x : α} {queue added : List (α × ℕ)}
    (hadded : ∀ entry ∈ added, entry.2 = depth + 1 ∧ depth < bound) :
    Deeper bound (queue ++ added) ((x, depth) :: queue) := by
  refine ⟨heights bound queue, heights bound added, {bound + 1 - depth}, by simp, ?_, ?_, ?_⟩
  · simp [heights]
  · simp [heights, add_comm]
  · intro height hheight
    obtain ⟨entry, hentry, rfl⟩ := List.mem_map.mp (Multiset.mem_coe.mp hheight)
    obtain ⟨hdepth, hbound⟩ := hadded entry hentry
    refine ⟨_, Multiset.mem_singleton_self _, ?_⟩
    omega

/-! ## The search -/

/-- The names seen, and the nodes to be looked at with their depths. -/
structure Search (α ν : Type*) where
  seen : List ν
  queue : List (α × ℕ)

section Search

variable [DecidableEq ν] (names : α → List ν) (target : ν → Option α) (bound : ℕ)

/-- A name that a node at this depth names. -/
def Search.meet (depth : ℕ) (state : Search α ν) (name : ν) : Search α ν :=
  if name ∈ state.seen then state
  else
    { seen := state.seen ++ [name]
      queue := match target name with
        | some y => if depth < bound then state.queue ++ [(y, depth + 1)] else state.queue
        | none => state.queue }

/-- What meeting some names adds to the queue. -/
structure Search.Met (depth : ℕ) (state : Search α ν) (met : List ν) (next : Search α ν) :
    Prop where
  mem_seen : ∀ name, name ∈ next.seen ↔ name ∈ state.seen ∨ name ∈ met
  queue : ∃ added, next.queue = state.queue ++ added ∧ ∀ entry ∈ added,
    entry.2 = depth + 1 ∧ depth < bound ∧ ∃ name ∈ met, target name = some entry.1
  queued : ∀ name ∈ met, name ∉ state.seen → depth < bound → ∀ y, target name = some y →
    (y, depth + 1) ∈ next.queue

theorem Search.foldl_meet (depth : ℕ) (met : List ν) (state : Search α ν) :
    Search.Met target bound depth state met (met.foldl (Search.meet target bound depth) state) := by
  induction met generalizing state with
  | nil => exact ⟨by simp, ⟨[], by simp⟩, by simp⟩
  | cons name met ih =>
      rw [List.foldl_cons]
      by_cases hseen : name ∈ state.seen
      · rw [Search.meet, if_pos hseen]
        obtain ⟨hmem, ⟨added, hqueue, hadded⟩, hqueued⟩ := ih state
        refine ⟨fun other => ?_, ⟨added, hqueue, fun entry hentry => ?_⟩, ?_⟩
        · rw [hmem, List.mem_cons]
          constructor
          · tauto
          · rintro (h | rfl | h)
            · exact .inl h
            · exact .inl hseen
            · exact .inr h
        · obtain ⟨hdepth, hbound, other, hother, htarget⟩ := hadded entry hentry
          exact ⟨hdepth, hbound, other, List.mem_cons_of_mem _ hother, htarget⟩
        · intro other hother hnot
          rcases List.mem_cons.mp hother with rfl | hother
          · exact absurd hseen hnot
          · exact hqueued other hother hnot
      · obtain ⟨hmem, ⟨added, hqueue, hadded⟩, hqueued⟩ :=
          ih (Search.meet target bound depth state name)
        have hfirst : ∃ first, (Search.meet target bound depth state name).queue =
            state.queue ++ first ∧ (∀ entry ∈ first, entry.2 = depth + 1 ∧ depth < bound ∧
              target name = some entry.1) ∧
            (depth < bound → ∀ y, target name = some y → (y, depth + 1) ∈ first) := by
          rw [Search.meet, if_neg hseen]
          cases target name with
          | none => exact ⟨[], by simp⟩
          | some y =>
              by_cases hbound : depth < bound
              · exact ⟨[(y, depth + 1)], by simp [hbound]⟩
              · exact ⟨[], by simp [hbound]⟩
        have hnow : (Search.meet target bound depth state name).seen = state.seen ++ [name] := by
          rw [Search.meet, if_neg hseen]
        obtain ⟨first, hstart, hentries, hnew⟩ := hfirst
        refine ⟨fun other => ?_, ⟨first ++ added, ?_, fun entry hentry => ?_⟩, ?_⟩
        · rw [hmem, hnow, List.mem_append, List.mem_singleton, List.mem_cons, or_assoc]
        · rw [hqueue, hstart, List.append_assoc]
        · rcases List.mem_append.mp hentry with hentry | hentry
          · obtain ⟨hdepth, hbound, htarget⟩ := hentries entry hentry
            exact ⟨hdepth, hbound, name, List.mem_cons_self, htarget⟩
          · obtain ⟨hdepth, hbound, other, hother, htarget⟩ := hadded entry hentry
            exact ⟨hdepth, hbound, other, List.mem_cons_of_mem _ hother, htarget⟩
        · intro other hother hnot hbound y htarget
          by_cases hsame : other = name
          · subst hsame
            rw [hqueue, hstart]
            exact List.mem_append_left _ (List.mem_append_right _ (hnew hbound y htarget))
          · have hlater : other ∉ (Search.meet target bound depth state name).seen := by
              rw [hnow, List.mem_append, List.mem_singleton]
              tauto
            exact hqueued other ((List.mem_cons.mp hother).resolve_left hsame) hlater hbound y
              htarget

/-- The loop of the search. -/
def searchLoop : Loop (Search α ν) (List ν) where
  turn state :=
    match state.queue with
    | [] => .inr state.seen
    | (x, depth) :: queue =>
        .inl ((names x).foldl (Search.meet target bound depth) ⟨state.seen, queue⟩)
  below next state := Deeper bound next.queue state.queue
  wellFounded := InvImage.wf Search.queue (wellFounded_deeper bound)
  decreases {state next} hturn := by
    cases hqueue : state.queue with
    | nil => simp [hqueue] at hturn
    | cons entry queue =>
        obtain ⟨x, depth⟩ := entry
        simp only [hqueue, Sum.inl.injEq] at hturn
        subst hturn
        obtain ⟨added, hnext, hadded⟩ :=
          (Search.foldl_meet target bound depth (names x) ⟨state.seen, queue⟩).queue
        rw [hnext]
        refine deeper_of_append fun entry hentry => ?_
        obtain ⟨hdepth, hbound, -⟩ := hadded entry hentry
        exact ⟨hdepth, hbound⟩

/-- The names that a search from `start` sees. -/
def search (start : α) : List ν := (searchLoop names target bound).result ⟨[], [(start, 0)]⟩

/-! ## What a search sees -/

/-- A state of a search in which `done` has been looked at. -/
structure Searched (start : α) (done : List (α × ℕ)) (state : Search α ν) : Prop where
  /-- The queue is in the order of the depths, of which it has two at most. -/
  sorted : state.queue.Pairwise fun first second => first.2 ≤ second.2
  window : ∀ first ∈ state.queue, ∀ second ∈ state.queue, second.2 ≤ first.2 + 1
  done_le : ∀ first ∈ done, ∀ second ∈ state.queue, first.2 ≤ second.2
  bounded : ∀ entry ∈ done ++ state.queue, entry.2 ≤ bound
  chain : ∀ entry ∈ done ++ state.queue, Chain names target start entry.2 entry.1
  start : (start, 0) ∈ done ++ state.queue
  closed : ∀ entry ∈ done, ∀ name ∈ names entry.1, name ∈ state.seen
  /-- A name has been seen first as near to the start as it is named. -/
  seen : ∀ name ∈ state.seen, ∃ first ∈ done, name ∈ names first.1 ∧
    (first.2 < bound → ∀ y, target name = some y → (y, first.2 + 1) ∈ done ++ state.queue) ∧
    ∀ other ∈ done, name ∈ names other.1 → first.2 ≤ other.2

omit [DecidableEq ν] in
theorem searched_start (start : α) :
    Searched names target bound start [] ⟨[], [(start, 0)]⟩ where
  sorted := List.pairwise_singleton _ _
  window := by simp
  done_le := by simp
  bounded := by simp
  chain := by simpa using Chain.start
  start := by simp
  closed := by simp
  seen := by simp

/-- Looking at the first node of the queue. -/
theorem Searched.next {start x : α} {depth : ℕ} {done queue : List (α × ℕ)} {seen : List ν}
    (h : Searched names target bound start done ⟨seen, (x, depth) :: queue⟩) :
    Searched names target bound start (done ++ [(x, depth)])
      ((names x).foldl (Search.meet target bound depth) ⟨seen, queue⟩) := by
  obtain ⟨hmem, ⟨added, hqueue, hadded⟩, hqueued⟩ :=
    Search.foldl_meet target bound depth (names x) ⟨seen, queue⟩
  generalize (names x).foldl (Search.meet target bound depth) ⟨seen, queue⟩ = next at *
  obtain ⟨hbefore, hsorted⟩ := List.pairwise_cons.mp h.sorted
  have hhead : (x, depth) ∈ (x, depth) :: queue := List.mem_cons_self
  have hwindow : ∀ entry ∈ queue, entry.2 ≤ depth + 1 := fun entry hentry =>
    h.window (x, depth) hhead entry (List.mem_cons_of_mem _ hentry)
  have hall : ∀ entry, entry ∈ done ++ [(x, depth)] ++ next.queue ↔
      entry ∈ done ++ (x, depth) :: queue ∨ entry ∈ added := by
    intro entry
    rw [hqueue]
    simp only [List.mem_append, List.mem_cons]
    tauto
  refine ⟨?_, ?_, ?_, ?_, ?_, (hall _).mpr (.inl h.start), ?_, ?_⟩
  · rw [hqueue, List.pairwise_append]
    refine ⟨hsorted, ?_, fun entry hentry other hother => ?_⟩
    · refine List.pairwise_of_forall_mem_list fun entry hentry other hother => ?_
      rw [(hadded entry hentry).1, (hadded other hother).1]
    · rw [(hadded other hother).1]
      exact hwindow entry hentry
  · have hrange : ∀ entry ∈ next.queue, depth ≤ entry.2 ∧ entry.2 ≤ depth + 1 := by
      intro entry hentry
      rw [hqueue] at hentry
      rcases List.mem_append.mp hentry with hentry | hentry
      · exact ⟨hbefore entry hentry, hwindow entry hentry⟩
      · have hdepth := (hadded entry hentry).1
        omega
    intro first hfirst second hsecond
    have hlow := (hrange first hfirst).1
    have hhigh := (hrange second hsecond).2
    omega
  · have hrange : ∀ entry ∈ next.queue, depth ≤ entry.2 := by
      intro entry hentry
      rw [hqueue] at hentry
      rcases List.mem_append.mp hentry with hentry | hentry
      · exact hbefore entry hentry
      · have hdepth := (hadded entry hentry).1
        omega
    intro first hfirst second hsecond
    rcases List.mem_append.mp hfirst with hfirst | hfirst
    · exact (h.done_le first hfirst (x, depth) hhead).trans (hrange second hsecond)
    · rw [List.mem_singleton.mp hfirst]
      exact hrange second hsecond
  · intro entry hentry
    rcases (hall entry).mp hentry with hentry | hentry
    · exact h.bounded entry hentry
    · obtain ⟨hdepth, hbound, -⟩ := hadded entry hentry
      omega
  · have hchain : Chain names target start depth x :=
      h.chain (x, depth) (List.mem_append_right _ hhead)
    intro entry hentry
    rcases (hall entry).mp hentry with hentry | hentry
    · exact h.chain entry hentry
    · obtain ⟨hdepth, -, name, hname, htarget⟩ := hadded entry hentry
      rw [hdepth]
      exact .step hchain hname htarget
  · intro entry hentry name hname
    rw [hmem]
    rcases List.mem_append.mp hentry with hentry | hentry
    · exact .inl (h.closed entry hentry name hname)
    · rw [List.mem_singleton.mp hentry] at hname
      exact .inr hname
  · intro name hname
    by_cases hold : name ∈ seen
    · obtain ⟨first, hfirst, hnames, htargets, hleast⟩ := h.seen name hold
      refine ⟨first, List.mem_append_left _ hfirst, hnames,
        fun hbound y htarget => (hall _).mpr (.inl (htargets hbound y htarget)), ?_⟩
      intro other hother hin
      rcases List.mem_append.mp hother with hother | hother
      · exact hleast other hother hin
      · rw [List.mem_singleton.mp hother]
        exact h.done_le first hfirst (x, depth) hhead
    · have hnew : name ∈ names x := ((hmem name).mp hname).resolve_left hold
      refine ⟨(x, depth), by simp, hnew, fun hbound y htarget => ?_, fun other hother hin => ?_⟩
      · exact List.mem_append_right _ (hqueued name hnew hold hbound y htarget)
      · rcases List.mem_append.mp hother with hother | hother
        · exact absurd (h.closed other hother name hin) hold
        · rw [List.mem_singleton.mp hother]

/-- A search ends with an empty queue. -/
theorem Searched.result {start : α} {done : List (α × ℕ)} {state : Search α ν}
    (h : Searched names target bound start done state) :
    ∃ done seen, (searchLoop names target bound).result state = seen ∧
      Searched names target bound start done ⟨seen, []⟩ := by
  induction state using (searchLoop names target bound).induct generalizing done with
  | hstep state ih =>
      obtain ⟨seen, queue⟩ := state
      cases queue with
      | nil => exact ⟨done, seen, Loop.result_of_leaves rfl, h⟩
      | cons entry queue =>
          obtain ⟨x, depth⟩ := entry
          have hturn : (searchLoop names target bound).turn ⟨seen, (x, depth) :: queue⟩ =
              .inl ((names x).foldl (Search.meet target bound depth) ⟨seen, queue⟩) := rfl
          rw [Loop.result_of_continues hturn]
          exact ih _ hturn (Searched.next names target bound h)

omit [DecidableEq ν] in
/-- A chain that is short enough leads to a node that has been looked at, no deeper. -/
theorem Searched.reaches {start x : α} {done : List (α × ℕ)} {seen : List ν} {n : ℕ}
    (h : Searched names target bound start done ⟨seen, []⟩)
    (hchain : Chain names target start n x) (hn : n ≤ bound) :
    ∃ depth ≤ n, (x, depth) ∈ done := by
  induction hchain with
  | start => exact ⟨0, le_rfl, by simpa using h.start⟩
  | @step n x y name hchain hname htarget ih =>
      obtain ⟨depth, hdepth, hdone⟩ := ih (by omega)
      have hseen : name ∈ seen := h.closed (x, depth) hdone name hname
      obtain ⟨first, hfirst, -, htargets, hleast⟩ := h.seen name hseen
      have hfirst' : first.2 ≤ depth := hleast (x, depth) hdone hname
      refine ⟨first.2 + 1, by omega, ?_⟩
      simpa using htargets (by omega) y htarget

/-- A search sees the names at the end of a chain of at most `bound + 1` names. -/
theorem mem_search_iff {start : α} {name : ν} :
    name ∈ search names target bound start ↔
      ∃ n ≤ bound, ∃ x, Chain names target start n x ∧ name ∈ names x := by
  obtain ⟨done, seen, hresult, h⟩ :=
    Searched.result names target bound (searched_start names target bound start)
  rw [search, hresult]
  constructor
  · intro hname
    obtain ⟨first, hfirst, hnames, -⟩ := h.seen name hname
    have hmem : first ∈ done ++ [] := by simpa using hfirst
    exact ⟨first.2, h.bounded first hmem, first.1, h.chain first hmem, hnames⟩
  · rintro ⟨n, hn, x, hchain, hname⟩
    obtain ⟨depth, -, hdone⟩ := Searched.reaches names target bound h hchain hn
    exact h.closed (x, depth) hdone name hname

end Search

end PqcReadiness.Lib
