import Mathlib.Algebra.Order.BigOperators.Group.List
import Mathlib.Algebra.Order.Group.Nat
import Mathlib.Data.List.Nodup
import Mathlib.Data.List.Infix

/-!
# Prefix-free families

The members of a family begin with one of its starts.  If no start of a family is the beginning of a
start of another, the families have no member in common, and together they are a family without
duplicates (`BeginsWith.append`).

Lists that are put one behind the other can be told apart where none of them is longer than the one
in its place (`flatMap_eq_iff_of_length_le`), or where each has at most one member, which tells
whether there is one (`flatMap_eq_iff_of_tag`).
-/

namespace PqcReadiness.Lib

variable {τ α : Type*} {chars : τ → List α}

/-- No start is the beginning of one of the others. -/
def Apart (starts others : List (List α)) : Prop :=
  ∀ start ∈ starts, ∀ other ∈ others, ¬ start <+: other ∧ ¬ other <+: start

instance [DecidableEq α] (starts others : List (List α)) : Decidable (Apart starts others) :=
  inferInstanceAs (Decidable (∀ start ∈ starts, ∀ other ∈ others, _ ∧ _))

/-- Members without duplicates, read as lists by `chars`, that begin with one of the starts. -/
structure BeginsWith (chars : τ → List α) (starts : List (List α)) (members : List τ) : Prop where
  nodup : members.Nodup
  starts : ∀ x ∈ members, ∃ start ∈ starts, start <+: chars x

namespace BeginsWith

variable {starts others : List (List α)} {xs ys : List τ}

theorem nil (starts : List (List α)) : BeginsWith chars starts [] := ⟨List.nodup_nil, nofun⟩

theorem disjoint (hxs : BeginsWith chars starts xs) (hys : BeginsWith chars others ys)
    (hapart : Apart starts others) : xs.Disjoint ys := by
  intro x hx hx'
  obtain ⟨start, hstart, hprefix⟩ := hxs.starts x hx
  obtain ⟨other, hother, hprefix'⟩ := hys.starts x hx'
  obtain ⟨hnot, hnot'⟩ := hapart start hstart other hother
  rcases List.prefix_or_prefix_of_prefix hprefix hprefix' with hle | hle
  · exact hnot hle
  · exact hnot' hle

theorem append (hxs : BeginsWith chars starts xs) (hys : BeginsWith chars others ys)
    (hapart : Apart starts others) : BeginsWith chars (starts ++ others) (xs ++ ys) := by
  refine ⟨List.nodup_append'.mpr ⟨hxs.nodup, hys.nodup, disjoint hxs hys hapart⟩, ?_⟩
  intro x hx
  rcases List.mem_append.mp hx with hx | hx
  · obtain ⟨start, hstart, hprefix⟩ := hxs.starts x hx
    exact ⟨start, List.mem_append_left _ hstart, hprefix⟩
  · obtain ⟨start, hstart, hprefix⟩ := hys.starts x hx
    exact ⟨start, List.mem_append_right _ hstart, hprefix⟩

end BeginsWith

/-! ## One behind the other -/

section FlatMap

variable {β κ : Type*} {f g : τ → List β} {xs : List τ}

/-- Lists that are nowhere longer, one behind the other, are equal only if each two are. -/
theorem flatMap_eq_iff_of_length_le
    (hle : ∀ x ∈ xs, (f x).length ≤ (g x).length) :
    xs.flatMap f = xs.flatMap g ↔ ∀ x ∈ xs, f x = g x := by
  induction xs with
  | nil => exact iff_of_true rfl nofun
  | cons x rest ih =>
      rw [List.forall_mem_cons] at hle
      rw [List.flatMap_cons, List.flatMap_cons, List.forall_mem_cons, ← ih hle.2]
      constructor
      · intro hsame
        have hrest : (rest.flatMap f).length ≤ (rest.flatMap g).length := by
          rw [List.length_flatMap, List.length_flatMap]
          exact List.sum_le_sum hle.2
        have hlength := congrArg List.length hsame
        rw [List.length_append, List.length_append] at hlength
        have hfirst : (f x).length = (g x).length := by
          have := hle.1
          omega
        exact List.append_inj hsame hfirst
      · rintro ⟨hfirst, hrest⟩
        rw [hfirst, hrest]

/-- Lists of at most one member each, which tells for which of them there is one. -/
theorem flatMap_eq_iff_of_tag (tag : β → κ) (label : τ → κ)
    (hf : ∀ x ∈ xs, ∀ y ∈ f x, tag y = label x) (hg : ∀ x ∈ xs, ∀ y ∈ g x, tag y = label x)
    (hsingle : ∀ x ∈ xs, (g x).length ≤ 1)
    (hlabel : ∀ x ∈ xs, ∀ x' ∈ xs, label x = label x' → f x ≠ [] → f x' ≠ []) :
    xs.flatMap f = xs.flatMap g ↔ ∀ x ∈ xs, f x = g x := by
  constructor
  · intro hsame
    have hle : ∀ x ∈ xs, (g x).length ≤ (f x).length := by
      intro x hx
      by_cases hnil : g x = []
      · rw [hnil]
        exact Nat.zero_le _
      · obtain ⟨y, hy⟩ := List.exists_mem_of_ne_nil _ hnil
        obtain ⟨x', hx', hy'⟩ := List.mem_flatMap.mp
          (hsame ▸ List.mem_flatMap.mpr ⟨x, hx, hy⟩ : y ∈ xs.flatMap f)
        have hne := hlabel x' hx' x hx ((hf x' hx' y hy').symm.trans (hg x hx y hy))
          (List.ne_nil_of_mem hy')
        have hpos := List.length_pos_iff.mpr hne
        have hone := hsingle x hx
        omega
    intro x hx
    exact ((flatMap_eq_iff_of_length_le hle).mp hsame.symm x hx).symm
  · intro hall
    exact List.flatMap_congr hall

end FlatMap

end PqcReadiness.Lib
