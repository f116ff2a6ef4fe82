import Mathlib.Data.List.Nodup

/-!
# Lists without two values of one kind

Two lists whose values fall into different classes have no value in common, so the list of both has
no duplicates exactly if neither has.
-/

namespace PqcReadiness.Lib

theorem nodup_map_append_iff {α β : Type*} {f : α → β} {xs ys : List α}
    (hapart : ∀ x ∈ xs, ∀ y ∈ ys, f x ≠ f y) :
    ((xs ++ ys).map f).Nodup ↔ (xs.map f).Nodup ∧ (ys.map f).Nodup := by
  rw [List.map_append, List.nodup_append]
  refine and_congr_right fun _ => and_iff_left ?_
  intro a ha b hb
  obtain ⟨x, hx, rfl⟩ := List.mem_map.mp ha
  obtain ⟨y, hy, rfl⟩ := List.mem_map.mp hb
  exact hapart x hx y hy

section Kinds

variable {α κ : Type*} (kind : α → κ) {xs ys : List α} {first second : List κ}

theorem nodup_append_iff_of_kind (hxs : ∀ x ∈ xs, kind x ∈ first) (hys : ∀ y ∈ ys, kind y ∈ second)
    (hapart : ∀ k ∈ first, k ∉ second) : (xs ++ ys).Nodup ↔ xs.Nodup ∧ ys.Nodup := by
  rw [List.nodup_append]
  refine and_congr_right fun _ => and_iff_left ?_
  rintro x hx y hy rfl
  exact hapart _ (hxs x hx) (hys x hy)

theorem kind_append (hxs : ∀ x ∈ xs, kind x ∈ first) (hys : ∀ y ∈ ys, kind y ∈ second) :
    ∀ z ∈ xs ++ ys, kind z ∈ first ++ second := by
  intro z hz
  rcases List.mem_append.mp hz with h | h
  · exact List.mem_append_left _ (hxs z h)
  · exact List.mem_append_right _ (hys z h)

/-- A list of values of one kind. -/
theorem kind_map {β : Type*} {f : β → α} {k : κ} (hf : ∀ x, kind (f x) = k) (items : List β) :
    ∀ y ∈ items.map f, kind y ∈ [k] := by
  intro y hy
  obtain ⟨x, -, rfl⟩ := List.mem_map.mp hy
  exact List.mem_singleton.mpr (hf x)

end Kinds

end PqcReadiness.Lib
