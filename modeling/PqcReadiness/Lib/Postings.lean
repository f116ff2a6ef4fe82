import Mathlib.Data.List.Dedup
import PqcReadiness.Lib.Dict

/-!
# Inverted indexes

`Postings keysOf xs` is an index of the list `xs`: under each key it holds the
positions of the elements that have the key.  The defining equation is a field,
so that `add` has to keep it, and a lookup is `List.findIdxs` whatever the order
in which the elements came.

A set of positions is given by its members; `sortedBy id` of it without
duplicates is the one ascending list of them (`sortedSet_eq_findIdxs`).  Reading
the elements back turns positions into a `filter` (`filterMap_findIdxs`), which is
how an argument about positions becomes one about elements.
-/

namespace PqcReadiness.Lib

variable {α κ : Type*}

/-! ## Ascending lists of positions -/

theorem mem_findIdxs_iff {p : α → Bool} {xs : List α} {i : ℕ} :
    i ∈ xs.findIdxs p ↔ ∃ x, xs[i]? = some x ∧ p x := by
  rw [List.mem_findIdxs_iff_exists_getElem_pos]
  constructor
  · rintro ⟨hi, hp⟩
    exact ⟨xs[i], List.getElem?_eq_getElem hi, hp⟩
  · rintro ⟨x, hx, hp⟩
    obtain ⟨hi, rfl⟩ := List.getElem?_eq_some_iff.mp hx
    exact ⟨hi, hp⟩

/-- One position alone satisfies `p`. -/
theorem findIdxs_eq_singleton_iff {p : α → Bool} {xs : List α} {i : ℕ} :
    xs.findIdxs p = [i] ↔ ∀ j, (∃ x, xs[j]? = some x ∧ p x) ↔ j = i := by
  simp only [← mem_findIdxs_iff]
  constructor
  · intro hone j
    rw [hone, List.mem_singleton]
  · intro hone
    rw [← List.perm_singleton, List.perm_ext_iff_of_nodup List.nodup_findIdxs (by simp)]
    simpa using hone

/-- A list of distinct positions that is neither empty nor a singleton has two
members. -/
theorem exists_pair_of_length_ne_one {hits : List ℕ} (hnodup : hits.Nodup) (hnil : hits ≠ [])
    (hone : hits.length ≠ 1) : ∃ i j, i ≠ j ∧ i ∈ hits ∧ j ∈ hits := by
  match hits with
  | [] => exact absurd rfl hnil
  | [_] => exact absurd rfl hone
  | first :: second :: rest =>
      simp only [List.nodup_cons, List.mem_cons, not_or] at hnodup
      exact ⟨first, second, hnodup.1.1, by simp, by simp⟩

/-- The one ascending list of the positions that satisfy `p`. -/
theorem sortedSet_eq_findIdxs {p : α → Bool} {xs : List α} {hits : List ℕ}
    (hhits : ∀ i, i ∈ hits ↔ ∃ x, xs[i]? = some x ∧ p x) :
    sortedBy id hits.dedup = xs.findIdxs p := by
  have hperm : hits.dedup.Perm (xs.findIdxs p) := by
    rw [List.perm_ext_iff_of_nodup hits.nodup_dedup List.nodup_findIdxs]
    intro i
    rw [List.mem_dedup, hhits, mem_findIdxs_iff]
  rw [sortedBy_id_eq_of_perm hperm]
  have hascending : (xs.findIdxs p).Pairwise (id · ≤ id ·) :=
    List.pairwise_findIdxs.imp Nat.le_of_lt
  exact hascending.insertionSort_eq

/-- Reading the elements back. -/
theorem filterMap_findIdxs (p : α → Bool) (xs : List α) :
    (xs.findIdxs p).filterMap (xs[·]?) = xs.filter p := by
  induction xs with
  | nil => rfl
  | cons x rest ih =>
      have htail : (rest.findIdxs p 1).filterMap ((x :: rest)[·]?) =
          (rest.findIdxs p).filterMap (rest[·]?) := by
        rw [List.findIdxs_start, List.filterMap_map]
        rfl
      by_cases hp : p x
      · simp [hp, htail, ih]
      · simp [hp, htail, ih]

theorem filter_findIdxs {p q : α → Bool} {xs : List α} {chosen : ℕ → Bool}
    (hchosen : ∀ i, chosen i ↔ ∃ x, xs[i]? = some x ∧ q x) :
    (xs.findIdxs p).filter chosen = xs.findIdxs fun x => p x && q x := by
  have hantisymm : ∀ i j : ℕ, i ∈ (xs.findIdxs p).filter chosen →
      j ∈ xs.findIdxs (fun x => p x && q x) → i < j → j < i → i = j :=
    fun i j _ _ hij hji => absurd hij (Nat.lt_asymm hji)
  refine List.Perm.eq_of_pairwise hantisymm
    (List.pairwise_findIdxs.filter _) List.pairwise_findIdxs ?_
  rw [List.perm_ext_iff_of_nodup (List.nodup_findIdxs.filter _) List.nodup_findIdxs]
  intro i
  rw [List.mem_filter, mem_findIdxs_iff, mem_findIdxs_iff, hchosen]
  constructor
  · rintro ⟨⟨x, hx, hp⟩, y, hy, hq⟩
    obtain rfl := Option.some.inj (hx.symm.trans hy)
    exact ⟨x, hx, by simp [hp, hq]⟩
  · rintro ⟨x, hx, hboth⟩
    obtain ⟨hp, hq⟩ := Bool.and_eq_true_iff.mp hboth
    exact ⟨⟨x, hx, hp⟩, x, hx, hq⟩

/-! ## The index -/

/-- An inverted index of `xs`. -/
structure Postings [DecidableEq κ] (keysOf : α → List κ) (xs : List α) where
  table : Dict κ (List ℕ)
  spec : ∀ key, (table.get? key).getD [] = xs.findIdxs fun x => decide (key ∈ keysOf x)

namespace Postings

variable [DecidableEq κ] {keysOf : α → List κ} {xs : List α}

/-- The positions under a key. -/
def lookup (index : Postings keysOf xs) (key : κ) : List ℕ := (index.table.get? key).getD []

theorem mem_lookup (index : Postings keysOf xs) (key : κ) (i : ℕ) :
    i ∈ index.lookup key ↔ ∃ x, xs[i]? = some x ∧ key ∈ keysOf x := by
  rw [lookup, index.spec, mem_findIdxs_iff]
  simp

/-- The index of the empty list. -/
def empty : Postings keysOf [] := ⟨Dict.empty, fun _ => rfl⟩

/-- `table.setdefault(key, []).append(i)` for each key. -/
def post (table : Dict κ (List ℕ)) (keys : List κ) (i : ℕ) : Dict κ (List ℕ) :=
  keys.foldl (fun current key => current.update key fun old => old.getD [] ++ [i]) table

theorem get?_post (table : Dict κ (List ℕ)) {keys : List κ} (hnodup : keys.Nodup) (i : ℕ)
    (key : κ) :
    ((post table keys i).get? key).getD [] =
      (table.get? key).getD [] ++ if key ∈ keys then [i] else [] := by
  induction keys generalizing table with
  | nil => simp [post]
  | cons head rest ih =>
      rw [List.nodup_cons] at hnodup
      refine (ih _ hnodup.2).trans ?_
      rw [Dict.get?_update]
      by_cases hkey : key = head
      · subst hkey
        simp [hnodup.1]
      · simp [hkey]

/-- Index one more element, under each of its keys once. -/
def add (index : Postings keysOf xs) (x : α) : Postings keysOf (xs ++ [x]) where
  table := post index.table (keysOf x).dedup xs.length
  spec key := by
    rw [get?_post _ (List.nodup_dedup _), index.spec, List.findIdxs_append,
      List.findIdxs_singleton]
    simp

end Postings

end PqcReadiness.Lib
