import Mathlib.Data.List.Basic
import Mathlib.Data.List.Nodup
import Mathlib.Data.Fintype.Card

/-!
# Lists that are edited by additions and removals

A list is read as a history: every mention adds an element, at the end and only if it is not there,
or removes it.  What is left, and in which order, depends on the whole history; `Stands` says at
which mention an element that is left came in.

* `mem_replay_iff`: an element is left iff no mention after one of its additions removes it;
* `idxOf_replay_lt_iff`: what is left stands in the order of the mentions at which it came in, also
  after some of it is left out.
-/

namespace PqcReadiness.Lib

/-- An addition or a removal. -/
structure Mention (α : Type*) where
  remove : Bool
  value : α

namespace Mention

variable {α : Type*}

/-- An addition. -/
def addition (x : α) : Mention α := ⟨false, x⟩

/-- A removal. -/
def removal (x : α) : Mention α := ⟨true, x⟩

theorem addition_ne_removal (x y : α) : addition x ≠ removal y := nofun

variable [DecidableEq α]

/-- One mention. -/
def apply (kept : List α) (mention : Mention α) : List α :=
  if mention.remove then kept.filter (· ≠ mention.value)
  else if mention.value ∈ kept then kept
  else kept ++ [mention.value]

/-- A history, from the empty list. -/
def replay (history : List (Mention α)) : List α := history.foldl apply []

omit [DecidableEq α] in
/-- At mention `i` the value came in that is still there: the first of its additions that no removal
follows. -/
structure Stands (history : List (Mention α)) (i : ℕ) (x : α) : Prop where
  added : history[i]? = some (addition x)
  kept : ∀ j, i < j → history[j]? ≠ some (removal x)
  first : ∀ j, j < i → history[j]? = some (addition x) →
    ∃ k, j < k ∧ k < i ∧ history[k]? = some (removal x)

section Stands

variable {history : List (Mention α)} {mention : Mention α} {i j : ℕ} {x : α}

omit [DecidableEq α] in
theorem Stands.lt_length (h : Stands history i x) : i < history.length :=
  (List.getElem?_eq_some_iff.mp h.added).1

omit [DecidableEq α] in
/-- A value came in once. -/
theorem Stands.unique (hi : Stands history i x) (hj : Stands history j x) : i = j := by
  rcases lt_trichotomy i j with hlt | heq | hlt
  · obtain ⟨k, hik, -, hk⟩ := hj.first i hlt hi.added
    exact absurd hk (hi.kept k hik)
  · exact heq
  · obtain ⟨k, hjk, -, hk⟩ := hi.first j hlt hj.added
    exact absurd hk (hj.kept k hjk)

omit [DecidableEq α] in
/-- A further mention that does not remove the value. -/
theorem Stands.concat (h : Stands history i x) (hother : mention ≠ removal x) :
    Stands (history ++ [mention]) i x := by
  have hlength := h.lt_length
  constructor
  · rw [List.getElem?_append_left hlength]
    exact h.added
  · intro k hk hremoved
    rcases lt_trichotomy k history.length with hlt | heq | hlt
    · rw [List.getElem?_append_left hlt] at hremoved
      exact h.kept k hk hremoved
    · rw [heq, List.getElem?_concat_length] at hremoved
      exact hother (Option.some.inj hremoved)
    · rw [List.getElem?_eq_none (by simp; omega)] at hremoved
      cases hremoved
  · intro k hk hadded
    rw [List.getElem?_append_left (by omega)] at hadded
    obtain ⟨l, hkl, hli, hl⟩ := h.first k hk hadded
    refine ⟨l, hkl, hli, ?_⟩
    rw [List.getElem?_append_left (by omega)]
    exact hl

omit [DecidableEq α] in
/-- An addition of a value that was added before only ahead of a removal. -/
theorem stands_concat_length
    (hgone : ∀ j : ℕ, history[j]? = some (addition x) → ∃ k : ℕ, j < k ∧ history[k]? = some (removal x)) :
    Stands (history ++ [addition x]) history.length x := by
  constructor
  · exact List.getElem?_concat_length
  · intro k hk
    rw [List.getElem?_eq_none (by simp; omega)]
    rintro ⟨⟩
  · intro j hj hadded
    rw [List.getElem?_append_left hj] at hadded
    obtain ⟨k, hjk, hk⟩ := hgone j hadded
    have hlt : k < history.length := (List.getElem?_eq_some_iff.mp hk).1
    refine ⟨k, hjk, hlt, ?_⟩
    rw [List.getElem?_append_left hlt]
    exact hk

end Stands

/-- What is left of a history, with the mention at which each element came in. -/
structure Stamped (history : List (Mention α)) (stamped : List (ℕ × α)) : Prop where
  values : stamped.map Prod.snd = replay history
  ordered : stamped.Pairwise fun first second => first.1 < second.1
  stands : ∀ entry ∈ stamped, Stands history entry.1 entry.2

section Replay

variable {history : List (Mention α)} {x y : α} {i j : ℕ}

theorem replay_concat (history : List (Mention α)) (mention : Mention α) :
    replay (history ++ [mention]) = apply (replay history) mention :=
  List.foldl_concat ..

/-- An element is there after a mention if it was and is not removed, or is added. -/
theorem mem_apply_iff {kept : List α} {mention : Mention α} :
    x ∈ apply kept mention ↔ x ∈ kept ∧ mention ≠ removal x ∨ mention = addition x := by
  obtain ⟨remove, value⟩ := mention
  have hremoval : (⟨remove, value⟩ : Mention α) = removal x ↔ remove = true ∧ value = x := by
    rw [removal, Mention.mk.injEq]
  have haddition : (⟨remove, value⟩ : Mention α) = addition x ↔ remove = false ∧ value = x := by
    rw [addition, Mention.mk.injEq]
  rw [ne_eq, hremoval, haddition, apply]
  cases remove with
  | true => simp [@eq_comm _ value x]
  | false =>
      by_cases hthere : value ∈ kept
      · simp only [Bool.false_eq_true, if_false, if_pos hthere, false_and, not_false_eq_true,
          and_true, true_and]
        exact ⟨.inl, fun h => h.elim id fun hsame => hsame ▸ hthere⟩
      · simp [hthere, @eq_comm _ value x]

theorem mem_apply_of_ne {kept : List α} {mention : Mention α} (hne : mention.value ≠ x) :
    x ∈ apply kept mention ↔ x ∈ kept := by
  have hremoval : mention ≠ removal x := fun h => hne (congrArg Mention.value h)
  have haddition : mention ≠ addition x := fun h => hne (congrArg Mention.value h)
  rw [mem_apply_iff]
  simp [hremoval, haddition]

/-- Several mentions of one kind. -/
theorem mem_foldl_apply_iff {remove : Bool} {values kept : List α} :
    x ∈ (values.map fun value => (⟨remove, value⟩ : Mention α)).foldl apply kept ↔
      if x ∈ values then remove = false else x ∈ kept := by
  induction values generalizing kept with
  | nil => simp
  | cons value values ih =>
      rw [List.map_cons, List.foldl_cons, ih]
      by_cases hlater : x ∈ values
      · simp [hlater]
      by_cases hhere : value = x
      · subst hhere
        simp only [hlater, if_false, List.mem_cons, true_or, if_true]
        rw [mem_apply_iff]
        cases remove with
        | true => simp [removal, addition]
        | false => simp [addition]
      · simp only [hlater, if_false, List.mem_cons, Ne.symm hhere, or_self]
        exact mem_apply_of_ne hhere

/-- An addition that no removal follows. -/
def IsLeft (history : List (Mention α)) (x : α) : Prop :=
  ∃ j : ℕ, history[j]? = some (addition x) ∧ ∀ k : ℕ, j < k → history[k]? ≠ some (removal x)

omit [DecidableEq α] in
theorem isLeft_concat_iff {mention : Mention α} :
    IsLeft (history ++ [mention]) x ↔
      IsLeft history x ∧ mention ≠ removal x ∨ mention = addition x := by
  constructor
  · rintro ⟨j, hadded, hkept⟩
    have hlength : j < history.length + 1 := by
      have hlt := (List.getElem?_eq_some_iff.mp hadded).1
      simpa using hlt
    rcases Nat.lt_succ_iff_lt_or_eq.mp hlength with hlt | heq
    · refine .inl ⟨⟨j, ?_, fun k hk hremoved => ?_⟩, fun hlast => ?_⟩
      · rwa [List.getElem?_append_left hlt] at hadded
      · have hk' : k < history.length := (List.getElem?_eq_some_iff.mp hremoved).1
        refine hkept k hk ?_
        rw [List.getElem?_append_left hk']
        exact hremoved
      · refine hkept history.length hlt ?_
        rw [List.getElem?_concat_length, hlast]
    · rw [heq, List.getElem?_concat_length] at hadded
      exact .inr (Option.some.inj hadded)
  · rintro (⟨⟨j, hadded, hkept⟩, hother⟩ | rfl)
    · have hlt : j < history.length := (List.getElem?_eq_some_iff.mp hadded).1
      refine ⟨j, by rw [List.getElem?_append_left hlt]; exact hadded, fun k hk hremoved => ?_⟩
      rcases lt_trichotomy k history.length with hlt | heq | hlt
      · rw [List.getElem?_append_left hlt] at hremoved
        exact hkept k hk hremoved
      · rw [heq, List.getElem?_concat_length] at hremoved
        exact hother (Option.some.inj hremoved)
      · rw [List.getElem?_eq_none (by simp; omega)] at hremoved
        cases hremoved
    · refine ⟨history.length, List.getElem?_concat_length, fun k hk => ?_⟩
      rw [List.getElem?_eq_none (by simp; omega)]
      rintro ⟨⟩

/-- An element is left iff no mention after one of its additions removes it. -/
theorem mem_replay_iff : x ∈ replay history ↔ IsLeft history x := by
  induction history using List.reverseRecOn with
  | nil => simp [replay, IsLeft]
  | append_singleton history mention ih =>
      rw [replay_concat, mem_apply_iff, ih, isLeft_concat_iff]

/-- Every history can be stamped. -/
theorem exists_stamped (history : List (Mention α)) : ∃ stamped, Stamped history stamped := by
  induction history using List.reverseRecOn with
  | nil => exact ⟨[], rfl, List.Pairwise.nil, nofun⟩
  | append_singleton history mention ih =>
      obtain ⟨stamped, hvalues, hordered, hstands⟩ := ih
      obtain ⟨remove, value⟩ := mention
      cases remove with
      | true =>
          refine ⟨stamped.filter fun entry => entry.2 ≠ value, ?_, hordered.filter _, ?_⟩
          · rw [replay_concat, apply, if_pos rfl, ← hvalues, List.filter_map]
            rfl
          · intro entry hentry
            obtain ⟨hmem, hne⟩ := List.mem_filter.mp hentry
            refine (hstands entry hmem).concat fun h => ?_
            have hsame : value = entry.2 := congrArg Mention.value h
            simp [hsame] at hne
      | false =>
          have hothers : ∀ entry ∈ stamped, Stands (history ++ [addition value]) entry.1 entry.2 :=
            fun entry hentry => (hstands entry hentry).concat (addition_ne_removal _ _)
          by_cases hthere : value ∈ replay history
          · refine ⟨stamped, ?_, hordered, hothers⟩
            rw [replay_concat, apply, if_neg Bool.false_ne_true, if_pos hthere, hvalues]
          · refine ⟨stamped ++ [(history.length, value)], ?_, ?_, ?_⟩
            · rw [replay_concat, apply, if_neg Bool.false_ne_true, if_neg hthere, List.map_append,
                hvalues]
              rfl
            · refine List.pairwise_append.mpr ⟨hordered, List.pairwise_singleton _ _, ?_⟩
              intro entry hentry last hlast
              rw [List.mem_singleton.mp hlast]
              exact (hstands entry hentry).lt_length
            · intro entry hentry
              rcases List.mem_append.mp hentry with h | h
              · exact hothers entry h
              · rw [List.mem_singleton.mp h]
                refine stands_concat_length fun j hadded => ?_
                by_contra hnever
                refine hthere (mem_replay_iff.mpr ⟨j, hadded, fun k hk hremoved => ?_⟩)
                exact hnever ⟨k, hk, hremoved⟩

theorem nodup_replay (history : List (Mention α)) : (replay history).Nodup := by
  obtain ⟨stamped, hvalues, hordered, hstands⟩ := exists_stamped history
  rw [← hvalues, List.nodup_iff_pairwise_ne, List.pairwise_map]
  refine hordered.imp_of_mem fun {first second} hfirst hsecond hlt hsame => ?_
  have hstands' := hstands second hsecond
  rw [← hsame] at hstands'
  have heq := (hstands first hfirst).unique hstands'
  omega

/-- An element that is left came in at some mention. -/
theorem exists_stands (hx : x ∈ replay history) : ∃ i, Stands history i x := by
  obtain ⟨stamped, hvalues, -, hstands⟩ := exists_stamped history
  rw [← hvalues] at hx
  obtain ⟨entry, hentry, rfl⟩ := List.mem_map.mp hx
  exact ⟨entry.1, hstands entry hentry⟩

/-- What is left stands in the order of the mentions at which it came in. -/
theorem idxOf_replay_lt_iff (keep : α → Bool) (hx : x ∈ (replay history).filter keep)
    (hy : y ∈ (replay history).filter keep) (hi : Stands history i x) (hj : Stands history j y) :
    ((replay history).filter keep).idxOf x < ((replay history).filter keep).idxOf y ↔ i < j := by
  obtain ⟨stamped, hvalues, hordered, hstands⟩ := exists_stamped history
  have hnodup := (nodup_replay history).filter keep
  rw [← hvalues, List.filter_map] at hx hy hnodup ⊢
  -- Both at their places.
  obtain ⟨m, hm, hxm⟩ := List.getElem_of_mem hx
  obtain ⟨n, hn, hyn⟩ := List.getElem_of_mem hy
  have hordered' : (stamped.filter (keep ∘ Prod.snd)).Pairwise fun first second =>
      first.1 < second.1 := hordered.filter _
  have hstamp : ∀ (k : ℕ) (hk : k < (stamped.filter (keep ∘ Prod.snd)).length) {l : ℕ} {z : α},
      (stamped.filter (keep ∘ Prod.snd))[k].2 = z → Stands history l z →
        (stamped.filter (keep ∘ Prod.snd))[k].1 = l := by
    intro k hk l z hz hl
    have hmem := List.mem_of_mem_filter (List.getElem_mem hk)
    have hstand := hstands _ hmem
    rw [hz] at hstand
    exact hstand.unique hl
  rw [List.length_map] at hm hn
  rw [List.getElem_map] at hxm hyn
  have hix := hstamp m hm hxm hi
  have hjy := hstamp n hn hyn hj
  have hidx : ∀ (k : ℕ) (hk : k < (stamped.filter (keep ∘ Prod.snd)).length),
      ((stamped.filter (keep ∘ Prod.snd)).map Prod.snd).idxOf
        (stamped.filter (keep ∘ Prod.snd))[k].2 = k := by
    intro k hk
    have hget := hnodup.idxOf_getElem k (by rwa [List.length_map])
    rwa [List.getElem_map] at hget
  rw [← hxm, ← hyn, hidx m hm, hidx n hn, ← hix, ← hjy]
  rw [List.pairwise_iff_getElem] at hordered'
  constructor
  · exact hordered' m n hm hn
  · intro hlt
    by_contra hge
    rcases Nat.lt_or_eq_of_le (Nat.le_of_not_lt hge) with h | h
    · have hback := hordered' n m hn hm h
      omega
    · subst h
      exact lt_irrefl _ hlt

end Replay

end Mention

end PqcReadiness.Lib
