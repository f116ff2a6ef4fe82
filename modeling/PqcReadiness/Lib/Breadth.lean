import Mathlib.Data.List.Basic
import Mathlib.Data.List.Dedup
import Mathlib.Data.List.Perm.Subperm
import Mathlib.Data.Nat.Find

/-!
# Searching breadth first

`visit` takes nodes from a queue, skips those that it has seen or cannot open, and appends the
children of the others.  `level` lists the nodes at a given depth, with every repetition.

`find?_visit` is the rule for users: what a search finds first in the order of the visit is what it
finds first level by level.  A visit leaves repetitions out, and all that lies below them; `Thins`
says that whatever it leaves out has been seen on a level above or further to the left.
-/

namespace PqcReadiness.Lib

variable {α : Type*}

/-- The children of a node, of which one that cannot be opened has none. -/
def childrenOf (next : α → Option (List α)) (x : α) : List α := (next x).getD []

/-- The nodes at a depth below the starts, from left to right. -/
def level (next : α → Option (List α)) (starts : List α) : ℕ → List α
  | 0 => starts
  | n + 1 => (level next starts n).flatMap (childrenOf next)

/-- The first node with a property, level by level. -/
def FirstInLevels (next : α → Option (List α)) (starts : List α) (p : α → Bool) (x : α) : Prop :=
  ∃ n, (∀ m < n, ∀ y ∈ level next starts m, p y = false) ∧
    (level next starts n).find? p = some x

section Visit

variable [DecidableEq α]

/-- The nodes seen, after those that the queue leads to, until there are `limit` of them. -/
def visit (next : α → Option (List α)) (limit : ℕ) (seen : List α) : List α → List α
  | [] => seen
  | x :: queue =>
      if seen.length < limit then
        if x ∈ seen then visit next limit seen queue
        else
          match next x with
          | none => visit next limit seen queue
          | some children => visit next limit (seen ++ [x]) (queue ++ children)
      else seen
termination_by queue => (limit - seen.length, queue.length)
decreasing_by
  · exact Prod.Lex.right _ (Nat.lt_succ_self _)
  · exact Prod.Lex.right _ (Nat.lt_succ_self _)
  · apply Prod.Lex.left
    rw [List.length_append, List.length_singleton]
    omega

variable {next : α → Option (List α)} {limit : ℕ} {seen queue starts : List α} {x : α}

theorem visit_seen (hlimit : seen.length < limit) (hseen : x ∈ seen) :
    visit next limit seen (x :: queue) = visit next limit seen queue := by
  rw [visit, if_pos hlimit, if_pos hseen]

theorem visit_closed (hlimit : seen.length < limit) (hclosed : next x = none) :
    visit next limit seen (x :: queue) = visit next limit seen queue := by
  rw [visit, if_pos hlimit]
  split
  · rfl
  · rw [hclosed]

theorem visit_open (hlimit : seen.length < limit) (hfresh : x ∉ seen) {children : List α}
    (hopen : next x = some children) : visit next limit seen (x :: queue) =
      visit next limit (seen ++ [x]) (queue ++ children) := by
  rw [visit, if_pos hlimit, if_neg hfresh, hopen]

theorem visit_full (hlimit : ¬ seen.length < limit) : visit next limit seen queue = seen := by
  cases queue with
  | nil => rw [visit]
  | cons x queue => rw [visit, if_neg hlimit]

/-- A rule for the results of a visit: what holds of the nodes seen, if it is kept by each node
that the visit opens. -/
theorem visit_keeps (good : List α → List α → Prop) (hgood : good seen queue)
    (hskip : ∀ {seen queue x}, good seen (x :: queue) → good seen queue)
    (hopen : ∀ {seen queue x children}, good seen (x :: queue) → x ∉ seen →
      next x = some children → good (seen ++ [x]) (queue ++ children)) :
    ∃ rest, good (visit next limit seen queue) rest := by
  induction seen, queue using visit.induct next limit with
  | case1 seen => exact ⟨[], by rwa [visit]⟩
  | case2 seen x queue hlimit hseen ih =>
      rw [visit_seen hlimit hseen]
      exact ih (hskip hgood)
  | case3 seen x queue hlimit hfresh hclosed ih =>
      rw [visit_closed hlimit hclosed]
      exact ih (hskip hgood)
  | case4 seen x queue hlimit hfresh children hchildren ih =>
      rw [visit_open hlimit hfresh hchildren]
      exact ih (hopen hgood hfresh hchildren)
  | case5 seen x queue hlimit =>
      rw [visit_full hlimit]
      exact ⟨_, hgood⟩

theorem nodup_visit (hnodup : seen.Nodup) : (visit next limit seen queue).Nodup := by
  have hkept : ∃ rest : List α, (visit next limit seen queue).Nodup := by
    refine visit_keeps (fun seen _ => seen.Nodup) hnodup (fun h => h) fun h hfresh _ => ?_
    rw [List.nodup_append]
    refine ⟨h, List.nodup_singleton _, fun a ha b hb => ?_⟩
    rintro rfl
    exact hfresh (List.mem_singleton.mp hb ▸ ha)
  exact hkept.elim fun _ hresult => hresult

/-- What has been seen comes first. -/
theorem prefix_visit : seen <+: visit next limit seen queue := by
  have hkept : ∃ rest : List α, seen <+: visit next limit seen queue :=
    visit_keeps (fun now _ => seen <+: now) (List.prefix_refl seen) (fun h => h)
      fun h _ _ => h.trans (List.prefix_append ..)
  exact hkept.elim fun _ hresult => hresult

theorem length_lt_of_visit (hfew : (visit next limit seen queue).length < limit) :
    seen.length < limit := Nat.lt_of_le_of_lt prefix_visit.length_le hfew

/-- Everything that is visited can be opened, and lies on some level. -/
theorem mem_level_of_visit {y : α} (hy : y ∈ visit next limit [] starts) :
    (next y).isSome ∧ ∃ n, y ∈ level next starts n := by
  have hkept : ∃ rest : List α,
      (∀ y ∈ visit next limit [] starts, (next y).isSome ∧ ∃ n, y ∈ level next starts n) ∧
        ∀ y ∈ rest, ∃ n, y ∈ level next starts n := by
    refine visit_keeps (fun seen queue =>
      (∀ y ∈ seen, (next y).isSome ∧ ∃ n, y ∈ level next starts n) ∧
        ∀ y ∈ queue, ∃ n, y ∈ level next starts n) ⟨nofun, fun y hy => ⟨0, hy⟩⟩
      (fun h => ⟨h.1, fun y hy => h.2 y (List.mem_cons_of_mem _ hy)⟩) ?_
    intro seen queue x children h hfresh hchildren
    obtain ⟨n, hn⟩ := h.2 x List.mem_cons_self
    constructor
    · intro y hy
      rcases List.mem_append.mp hy with hy | hy
      · exact h.1 y hy
      · obtain rfl := List.mem_singleton.mp hy
        exact ⟨by rw [hchildren]; rfl, n, hn⟩
    · intro y hy
      rcases List.mem_append.mp hy with hy | hy
      · exact h.2 y (List.mem_cons_of_mem _ hy)
      · refine ⟨n + 1, List.mem_flatMap.mpr ⟨x, hn, ?_⟩⟩
        rw [childrenOf, hchildren]
        exact hy
  obtain ⟨-, hresult, -⟩ := hkept
  exact hresult y hy

/-- The nodes of a queue that a visit opens. -/
def freshOf (next : α → Option (List α)) (seen : List α) : List α → List α
  | [] => []
  | x :: rest =>
      if x ∈ seen ∨ next x = none then freshOf next seen rest
      else x :: freshOf next (seen ++ [x]) rest

end Visit

/-! ## What a visit leaves out -/

/-- The second list is the first without some elements that are dead, or have come before. -/
inductive Thins (dead : α → Prop) : List α → List α → List α → Prop where
  | nil {before : List α} : Thins dead before [] []
  | keep {before xs ys : List α} {x : α} (hrest : Thins dead (before ++ [x]) xs ys) :
      Thins dead before (x :: xs) (x :: ys)
  | drop {before xs ys : List α} {x : α} (hx : dead x ∨ x ∈ before)
      (hrest : Thins dead before xs ys) : Thins dead before (x :: xs) ys

namespace Thins

variable {dead : α → Prop} {before xs ys zs : List α}

theorem refl (before xs : List α) : Thins dead before xs xs := by
  induction xs generalizing before with
  | nil => exact .nil
  | cons x xs ih => exact .keep (ih _)

/-- A search does not find what is left out. -/
theorem find?_eq {p : α → Bool} (hthins : Thins dead before xs ys)
    (hdead : ∀ x, dead x → p x = false) (hbefore : ∀ x ∈ before, p x = false) :
    xs.find? p = ys.find? p := by
  induction hthins with
  | nil => rfl
  | @keep before xs ys x hrest ih =>
      cases hx : p x with
      | true => rw [List.find?_cons_of_pos hx, List.find?_cons_of_pos hx]
      | false =>
          rw [List.find?_cons_of_neg (by simp [hx]), List.find?_cons_of_neg (by simp [hx])]
          apply ih
          intro y hy
          rcases List.mem_append.mp hy with hy | hy
          · exact hbefore y hy
          · rwa [List.mem_singleton.mp hy]
  | @drop before xs ys x hx hrest ih =>
      have hfalse : p x = false := hx.elim (hdead x) (hbefore x)
      rw [List.find?_cons_of_neg (by simp [hfalse])]
      exact ih hbefore

theorem append_left (hthins : Thins dead (before ++ zs) xs ys) :
    Thins dead before (zs ++ xs) (zs ++ ys) := by
  induction zs generalizing before with
  | nil => rwa [List.append_nil] at hthins
  | cons z zs ih =>
      apply Thins.keep
      apply ih
      rwa [List.append_assoc, List.singleton_append]

theorem drop_all (hzs : ∀ z ∈ zs, dead z ∨ z ∈ before) (hthins : Thins dead before xs ys) :
    Thins dead before (zs ++ xs) ys := by
  induction zs with
  | nil => exact hthins
  | cons z zs ih =>
      exact .drop (hzs z List.mem_cons_self) (ih fun y hy => hzs y (List.mem_cons_of_mem _ hy))

/-- What lies below a dead node is dead, one level further down. -/
theorem flatMap {later : α → Prop} {children : α → List α} (hthins : Thins dead before xs ys)
    (hdead : ∀ x, dead x → ∀ y ∈ children x, later y) :
    Thins later (before.flatMap children) (xs.flatMap children) (ys.flatMap children) := by
  induction hthins with
  | nil => exact .nil
  | @keep before xs ys x hrest ih =>
      rw [List.flatMap_cons, List.flatMap_cons]
      apply append_left
      rwa [List.flatMap_append, List.flatMap_singleton] at ih
  | @drop before xs ys x hx hrest ih =>
      rw [List.flatMap_cons]
      refine ih.drop_all fun y hy => ?_
      rcases hx with hx | hx
      · exact Or.inl (hdead x hx y hy)
      · exact Or.inr (List.mem_flatMap.mpr ⟨x, hx, hy⟩)

/-- Leaving out twice. -/
theorem trans {kept : List α} (hfirst : Thins dead before xs ys) (hsecond : Thins dead kept ys zs)
    (hkept : ∀ x ∈ before, dead x ∨ x ∈ kept) : Thins dead kept xs zs := by
  induction hfirst generalizing kept zs with
  | nil => exact hsecond
  | @keep before xs ys x hrest ih =>
      cases hsecond with
      | keep hsecond =>
          refine .keep (ih hsecond fun y hy => ?_)
          rcases List.mem_append.mp hy with hy | hy
          · exact (hkept y hy).imp_right fun hmem => List.mem_append_left _ hmem
          · exact Or.inr (List.mem_append_right _ hy)
      | drop hx hsecond =>
          refine .drop hx (ih hsecond fun y hy => ?_)
          rcases List.mem_append.mp hy with hy | hy
          · exact hkept y hy
          · rwa [List.mem_singleton.mp hy]
  | @drop before xs ys x hx hrest ih =>
      refine .drop ?_ (ih hsecond hkept)
      exact hx.elim Or.inl (hkept x)

theorem sublist (hthins : Thins dead before xs ys) : ys.Sublist xs := by
  induction hthins with
  | nil => exact List.Sublist.refl _
  | keep hrest ih => exact ih.cons_cons _
  | drop hx hrest ih => exact ih.cons _

end Thins

section Search

variable [DecidableEq α] {next : α → Option (List α)} {limit : ℕ} {seen starts : List α}
  {p : α → Bool} {x : α}

theorem thins_freshOf {dead : α → Prop} {before xs : List α}
    (hclosed : ∀ x, next x = none → dead x) (hseen : ∀ x ∈ seen, dead x ∨ x ∈ before) :
    Thins dead before xs (freshOf next seen xs) := by
  induction xs generalizing seen before with
  | nil => exact .nil
  | cons x xs ih =>
      rw [freshOf]
      split
      · next hskip =>
          refine .drop ?_ (ih hseen)
          exact hskip.elim (hseen x) fun hnone => Or.inl (hclosed x hnone)
      · refine .keep (ih fun y hy => ?_)
        rcases List.mem_append.mp hy with hy | hy
        · exact (hseen y hy).imp_right fun hmem => List.mem_append_left _ hmem
        · exact Or.inr (List.mem_append_right _ hy)

/-- A visit goes through the nodes of one level, and then through their children. -/
theorem visit_append {now later : List α}
    (hfew : (visit next limit seen (now ++ later)).length < limit) :
    visit next limit seen (now ++ later) = visit next limit (seen ++ freshOf next seen now)
      (later ++ (freshOf next seen now).flatMap (childrenOf next)) := by
  induction now generalizing seen later with
  | nil => rw [freshOf, List.nil_append, List.append_nil, List.flatMap_nil, List.append_nil]
  | cons x now ih =>
      have hlimit := length_lt_of_visit hfew
      rw [List.cons_append] at hfew ⊢
      rw [freshOf]
      split
      · next hskip =>
          have hrest : visit next limit seen (x :: (now ++ later)) =
              visit next limit seen (now ++ later) :=
            hskip.elim (visit_seen hlimit) (visit_closed hlimit)
          rw [hrest] at hfew ⊢
          exact ih hfew
      · next hopen =>
          obtain ⟨hfresh, hsome⟩ := not_or.mp hopen
          obtain ⟨children, hchildren⟩ := Option.ne_none_iff_exists'.mp hsome
          rw [visit_open hlimit hfresh hchildren, List.append_assoc] at hfew ⊢
          rw [ih hfew, List.flatMap_cons, List.append_assoc, List.append_assoc,
            List.singleton_append, childrenOf, hchildren, Option.getD_some]

/-- What has been seen, and the queue, after some levels. -/
def rounds (next : α → Option (List α)) (starts : List α) : ℕ → List α × List α
  | 0 => ([], starts)
  | n + 1 =>
      let (seen, queue) := rounds next starts n
      (seen ++ freshOf next seen queue, (freshOf next seen queue).flatMap (childrenOf next))

/-- A node that cannot be opened, or that is on one of the first levels. -/
def Above (next : α → Option (List α)) (starts : List α) (n : ℕ) (x : α) : Prop :=
  next x = none ∨ ∃ m < n, x ∈ level next starts m

theorem visit_rounds (hfew : (visit next limit [] starts).length < limit) (n : ℕ) :
    visit next limit [] starts =
      visit next limit (rounds next starts n).1 (rounds next starts n).2 := by
  induction n with
  | zero => rfl
  | succ n ih =>
      rw [ih] at hfew ⊢
      rw [← List.append_nil (rounds next starts n).2] at hfew ⊢
      rw [visit_append hfew]
      simp [rounds]

/-- The queue leaves out only what is above, or further to the left. -/
theorem thins_rounds (next : α → Option (List α)) (starts : List α) (n : ℕ) :
    (∀ y ∈ (rounds next starts n).1, Above next starts n y) ∧
      Thins (Above next starts n) [] (level next starts n) (rounds next starts n).2 := by
  induction n with
  | zero => exact ⟨nofun, .refl _ _⟩
  | succ n ih =>
      obtain ⟨hseen, hqueue⟩ := ih
      have hfresh : Thins (Above next starts n) [] (level next starts n)
          (freshOf next (rounds next starts n).1 (rounds next starts n).2) :=
        hqueue.trans (thins_freshOf (fun y hy => Or.inl hy) fun y hy => Or.inl (hseen y hy)) nofun
      constructor
      · intro y hy
        rcases List.mem_append.mp hy with hy | hy
        · exact (hseen y hy).imp_right fun ⟨m, hm, hmem⟩ => ⟨m, Nat.lt_succ_of_lt hm, hmem⟩
        · exact Or.inr ⟨n, Nat.lt_succ_self n, hfresh.sublist.subset hy⟩
      · refine hfresh.flatMap fun y hy z hz => ?_
        rcases hy with hy | ⟨m, hm, hy⟩
        · rw [childrenOf, hy] at hz
          cases hz
        · exact Or.inr ⟨m + 1, Nat.succ_lt_succ hm, List.mem_flatMap.mpr ⟨y, hy, hz⟩⟩

/-- What is first in its level, with nothing on the levels above, is found first by a visit. -/
theorem find?_visit_of_first (hfew : (visit next limit [] starts).length < limit)
    (hopen : ∀ y, p y = true → (next y).isSome) (hfirst : FirstInLevels next starts p x) :
    (visit next limit [] starts).find? p = some x := by
  obtain ⟨n, habove, hlevel⟩ := hfirst
  obtain ⟨hseen, hqueue⟩ := thins_rounds next starts n
  have hdead : ∀ y, Above next starts n y → p y = false := by
    rintro y (hclosed | ⟨m, hm, hmem⟩)
    · by_contra htrue
      have hsome := hopen y (by simpa using htrue)
      rw [hclosed] at hsome
      cases hsome
    · exact habove m hm y hmem
  have hfresh : Thins (Above next starts n) [] (level next starts n)
      (freshOf next (rounds next starts n).1 (rounds next starts n).2) :=
    hqueue.trans (thins_freshOf (fun y hy => Or.inl hy) fun y hy => Or.inl (hseen y hy)) nofun
  -- The visit begins with the nodes of the levels above and those of this one.
  have hbegins : (rounds next starts (n + 1)).1 <+: visit next limit [] starts := by
    rw [visit_rounds hfew (n + 1)]
    exact prefix_visit
  obtain ⟨rest, hrest⟩ := hbegins
  have hnone : (rounds next starts n).1.find? p = none :=
    List.find?_eq_none.mpr fun y hy => by simp [hdead y (hseen y hy)]
  rw [← hrest]
  simp only [rounds, List.find?_append, hnone, Option.none_or]
  rw [← hfresh.find?_eq hdead nofun, hlevel, Option.some_or]

/-- A search in the order of a visit is a search level by level. -/
theorem find?_visit (hfew : (visit next limit [] starts).length < limit)
    (hopen : ∀ y, p y = true → (next y).isSome) :
    (visit next limit [] starts).find? p = some x ↔ FirstInLevels next starts p x := by
  refine ⟨fun hfind => ?_, find?_visit_of_first hfew hopen⟩
  -- The first level that has such a node.
  have hexists : ∃ n, ∃ y ∈ level next starts n, p y = true := by
    obtain ⟨n, hn⟩ := (mem_level_of_visit (List.mem_of_find?_eq_some hfind)).2
    exact ⟨n, x, hn, List.find?_some hfind⟩
  classical
  obtain ⟨y, hy, hpy⟩ := Nat.find_spec hexists
  have hlevel : ((level next starts (Nat.find hexists)).find? p).isSome := by
    rw [List.find?_isSome]
    exact ⟨y, hy, hpy⟩
  obtain ⟨z, hz⟩ := Option.isSome_iff_exists.mp hlevel
  have hfirst : FirstInLevels next starts p z := by
    refine ⟨_, fun m hm y hmem => ?_, hz⟩
    have hnot := Nat.find_min hexists hm
    push Not at hnot
    simpa using hnot y hmem
  have hsame := find?_visit_of_first hfew hopen hfirst
  rw [hfind] at hsame
  rwa [Option.some.inj hsame]

end Search

end PqcReadiness.Lib
