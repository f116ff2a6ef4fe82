import Mathlib.Data.List.Sort
import Mathlib.Data.List.Perm.Basic
import Mathlib.Data.List.Nodup
import Mathlib.Data.String.Basic
import Mathlib.Data.Prod.Lex
import Mathlib.Algebra.BigOperators.Group.List.Basic
import Mathlib.Algebra.GroupWithZero.Nat

/-!
# Insertion-ordered dictionaries, counters and stable sorting

A `Dict` is a list of key/value pairs whose keys are pairwise distinct; the
invariant is a field, so no operation can build a dictionary with a repeated
key.  The only mutation is `Dict.update key f`, which replaces the value under
`key` in place by `f (some old)`, or appends `f none` at the end.  It covers
`d[k] = v`, `d.setdefault(k, v)` and `d[k] += n` alike.

Two dictionaries are compared by `Dict.Equiv`, which ignores the order of
insertion.  `Dict.items_perm_of_equiv` turns that into a permutation of the
entries, and `sortedItems_eq_of_equiv` says that sorting by key forgets the
order altogether.

`Dict.collect` is the grouping loop: every element with a key is absorbed into
the value under that key.  `get?_collect` says that the value under a key is
the fold over the elements with that key alone, in their order, and
`sum_size_collect` that nothing is lost or counted twice.

A counter is a dictionary into an additive monoid.  `Dict.bump` adds to one
entry, `Dict.tally` adds up a list of increments, and the three facts used
everywhere are `count_bump`, `total_bump` and `tally_equiv_of_perm`.
-/

namespace PqcReadiness.Lib

variable {κ ν : Type*}

/-! ## Looking a key up in a list of pairs -/

/-- The value of the first pair with this key. -/
def find [DecidableEq κ] (key : κ) : List (κ × ν) → Option ν
  | [] => none
  | (other, value) :: rest => if other = key then some value else find key rest

/-- Replace the value under `key` in place, or append a new pair. -/
def updateEntries [DecidableEq κ] (key : κ) (f : Option ν → ν) : List (κ × ν) → List (κ × ν)
  | [] => [(key, f none)]
  | (other, value) :: rest =>
      if other = key then (other, f (some value)) :: rest
      else (other, value) :: updateEntries key f rest

section Entries

variable [DecidableEq κ] {key : κ} {f : Option ν → ν} {entries : List (κ × ν)}

omit f in
theorem find_append (first second : List (κ × ν)) :
    find key (first ++ second) = (find key first).or (find key second) := by
  induction first with
  | nil => rfl
  | cons entry first ih =>
      obtain ⟨other, value⟩ := entry
      rw [List.cons_append, find, find, ih]
      split <;> rfl

theorem find_eq_none_iff : find key entries = none ↔ key ∉ entries.map Prod.fst := by
  induction entries with
  | nil => simp [find]
  | cons entry rest ih =>
      obtain ⟨other, value⟩ := entry
      by_cases hkey : other = key
      · simp [find, hkey]
      · simp [find, hkey, Ne.symm hkey, ih]

theorem mem_of_find_eq_some {value : ν} (hfind : find key entries = some value) :
    (key, value) ∈ entries := by
  induction entries with
  | nil => simp [find] at hfind
  | cons entry rest ih =>
      obtain ⟨other, head⟩ := entry
      by_cases hkey : other = key
      · simp only [find, if_pos hkey, Option.some.injEq] at hfind
        rw [hkey, hfind]
        exact List.mem_cons_self ..
      · simp only [find, if_neg hkey] at hfind
        exact List.mem_cons_of_mem _ (ih hfind)

theorem find_eq_some_of_mem {value : ν} (hnodup : (entries.map Prod.fst).Nodup)
    (hmem : (key, value) ∈ entries) : find key entries = some value := by
  induction entries with
  | nil => simp at hmem
  | cons entry rest ih =>
      obtain ⟨other, head⟩ := entry
      simp only [List.map_cons, List.nodup_cons] at hnodup
      rcases List.mem_cons.mp hmem with heq | hmem
      · cases heq
        simp [find]
      · have hne : other ≠ key := by
          rintro rfl
          exact hnodup.1 (List.mem_map.mpr ⟨_, hmem, rfl⟩)
        simp only [find, if_neg hne]
        exact ih hnodup.2 hmem

omit f in
/-- Where no key is there twice, the order does not matter. -/
theorem find_reverse (hnodup : (entries.map Prod.fst).Nodup) :
    find key entries.reverse = find key entries := by
  cases hfind : find key entries with
  | none =>
      rw [find_eq_none_iff] at hfind ⊢
      rwa [List.map_reverse, List.mem_reverse]
  | some value =>
      refine find_eq_some_of_mem ?_ (List.mem_reverse.mpr (mem_of_find_eq_some hfind))
      rw [List.map_reverse]
      exact List.nodup_reverse.mpr hnodup

theorem find_updateEntries (other : κ) :
    find other (updateEntries key f entries) =
      if other = key then some (f (find key entries)) else find other entries := by
  induction entries with
  | nil =>
      by_cases hkey : other = key
      · simp [updateEntries, find, hkey]
      · simp [updateEntries, find, hkey, Ne.symm hkey]
  | cons entry rest ih =>
      obtain ⟨head, value⟩ := entry
      by_cases hhead : head = key
      · subst hhead
        by_cases hother : other = head
        · simp [updateEntries, find, hother]
        · simp [updateEntries, find, hother, Ne.symm hother]
      · -- Past an entry of another key the update goes on in the rest.
        by_cases hother : head = other
        · subst hother
          simp [updateEntries, find, hhead]
        · simp [updateEntries, find, hhead, hother, ih]

theorem mem_keys_updateEntries (other : κ) :
    other ∈ (updateEntries key f entries).map Prod.fst ↔
      other = key ∨ other ∈ entries.map Prod.fst := by
  rw [← not_iff_not, not_or, ← find_eq_none_iff, ← find_eq_none_iff, find_updateEntries]
  by_cases hkey : other = key <;> simp [hkey]

theorem nodup_updateEntries (hnodup : (entries.map Prod.fst).Nodup) :
    ((updateEntries key f entries).map Prod.fst).Nodup := by
  induction entries with
  | nil => simp [updateEntries]
  | cons entry rest ih =>
      obtain ⟨head, value⟩ := entry
      rw [List.map_cons, List.nodup_cons] at hnodup
      by_cases hhead : head = key
      · rw [updateEntries, if_pos hhead, List.map_cons, List.nodup_cons]
        exact hnodup
      · rw [updateEntries, if_neg hhead, List.map_cons, List.nodup_cons,
          mem_keys_updateEntries, not_or]
        exact ⟨⟨hhead, hnodup.1⟩, ih hnodup.2⟩

/-- An update exchanges the weight of the old value for that of the new one. -/
theorem sum_updateEntries {M : Type*} [AddCommMonoid M] (weight : κ × ν → M) :
    ((updateEntries key f entries).map weight).sum +
        ((find key entries).map fun old => weight (key, old)).getD 0 =
      (entries.map weight).sum + weight (key, f (find key entries)) := by
  induction entries with
  | nil => simp [updateEntries, find]
  | cons entry rest ih =>
      obtain ⟨head, value⟩ := entry
      by_cases hhead : head = key
      · subst hhead
        simp [updateEntries, find, add_assoc, add_comm, add_left_comm]
      · simp only [updateEntries, find, if_neg hhead, List.map_cons, List.sum_cons, add_assoc, ih]

end Entries

/-! ## Dictionaries -/

/-- A dictionary that remembers the order in which its keys were inserted. -/
structure Dict (κ ν : Type*) where
  entries : List (κ × ν)
  nodup : (entries.map Prod.fst).Nodup

namespace Dict

variable [DecidableEq κ]

/-- The dictionary with no entry. -/
def empty : Dict κ ν := ⟨[], List.nodup_nil⟩

/-- The value under a key, if any. -/
def get? (d : Dict κ ν) (key : κ) : Option ν := find key d.entries

/-- The keys in insertion order. -/
def keys (d : Dict κ ν) : List κ := d.entries.map Prod.fst

/-- The values in insertion order. -/
def values (d : Dict κ ν) : List ν := d.entries.map Prod.snd

/-- Replace the value under `key`, or append one. -/
def update (d : Dict κ ν) (key : κ) (f : Option ν → ν) : Dict κ ν :=
  ⟨updateEntries key f d.entries, nodup_updateEntries d.nodup⟩

/-- Equality of dictionaries as mappings. -/
def Equiv (d e : Dict κ ν) : Prop := ∀ key, d.get? key = e.get? key

@[simp] theorem get?_empty (key : κ) : (empty : Dict κ ν).get? key = none := rfl

omit [DecidableEq κ] in
@[simp] theorem entries_empty : (empty : Dict κ ν).entries = [] := rfl

omit [DecidableEq κ] in
@[simp] theorem keys_empty : (empty : Dict κ ν).keys = [] := rfl

theorem get?_update (d : Dict κ ν) (key other : κ) (f : Option ν → ν) :
    (d.update key f).get? other =
      if other = key then some (f (d.get? key)) else d.get? other :=
  find_updateEntries other

/-- `{**first, **second}`. -/
def override (second first : Dict κ ν) : Dict κ ν :=
  second.entries.foldl (fun d entry => d.update entry.1 fun _ => entry.2) first

theorem get?_foldl_update (entries : List (κ × ν)) (first : Dict κ ν)
    (hnodup : (entries.map Prod.fst).Nodup) (key : κ) :
    (entries.foldl (fun d entry => d.update entry.1 fun _ => entry.2) first).get? key =
      (find key entries).or (first.get? key) := by
  induction entries generalizing first with
  | nil => rfl
  | cons entry rest ih =>
      rw [List.map_cons, List.nodup_cons] at hnodup
      rw [List.foldl_cons, ih _ hnodup.2, get?_update, find]
      by_cases hkey : entry.1 = key
      · have hnone : find key rest = none := find_eq_none_iff.mpr (hkey ▸ hnodup.1)
        rw [hnone, if_pos hkey.symm, if_pos hkey]
        rfl
      · rw [if_neg (Ne.symm hkey), if_neg hkey]

/-- The dictionary of some pairs, of which the first with a key is kept. -/
def ofFirst (entries : List (κ × ν)) : Dict κ ν :=
  entries.foldl (fun d entry => d.update entry.1 fun old => old.getD entry.2) empty

/-- The dictionary of some pairs, of which the last with a key is kept. -/
def ofLast (entries : List (κ × ν)) : Dict κ ν :=
  entries.foldl (fun d entry => d.update entry.1 fun _ => entry.2) empty

theorem get?_ofFirst (entries : List (κ × ν)) (key : κ) :
    (ofFirst entries).get? key = find key entries := by
  have hfold : ∀ d : Dict κ ν, (entries.foldl (fun d entry => d.update entry.1 fun old =>
      old.getD entry.2) d).get? key = (d.get? key).or (find key entries) := by
    induction entries with
    | nil => exact fun d => (Option.or_none).symm
    | cons entry rest ih =>
        intro d
        rw [List.foldl_cons, ih, get?_update, find]
        by_cases hkey : entry.1 = key
        · subst hkey
          cases d.get? entry.1 <;> simp
        · rw [if_neg (Ne.symm hkey), if_neg hkey]
  exact hfold empty

theorem get?_ofLast (entries : List (κ × ν)) (key : κ) :
    (ofLast entries).get? key = find key entries.reverse := by
  have hfold : ∀ d : Dict κ ν, (entries.foldl (fun d entry => d.update entry.1 fun _ =>
      entry.2) d).get? key = (find key entries.reverse).or (d.get? key) := by
    induction entries with
    | nil => exact fun d => rfl
    | cons entry rest ih =>
        intro d
        rw [List.foldl_cons, ih, get?_update, List.reverse_cons, find_append, find]
        by_cases hkey : entry.1 = key
        · subst hkey
          cases find entry.1 rest.reverse <;> simp
        · rw [if_neg (Ne.symm hkey), if_neg hkey]
          simp [find]
  exact (hfold empty).trans Option.or_none

theorem get?_override (second first : Dict κ ν) (key : κ) :
    (second.override first).get? key = (second.get? key).or (first.get? key) :=
  get?_foldl_update second.entries first second.nodup key

theorem mem_entries_iff (d : Dict κ ν) {key : κ} {value : ν} :
    (key, value) ∈ d.entries ↔ d.get? key = some value :=
  ⟨find_eq_some_of_mem d.nodup, mem_of_find_eq_some⟩

theorem mem_values_iff (d : Dict κ ν) {value : ν} :
    value ∈ d.values ↔ ∃ key, d.get? key = some value := by
  simp only [values, List.mem_map, Prod.exists, mem_entries_iff]
  constructor
  · rintro ⟨key, other, hget, rfl⟩
    exact ⟨key, hget⟩
  · rintro ⟨key, hget⟩
    exact ⟨key, value, hget, rfl⟩

theorem mem_keys_iff (d : Dict κ ν) {key : κ} : key ∈ d.keys ↔ (d.get? key).isSome := by
  rw [keys, ← not_iff_not, ← find_eq_none_iff, get?]
  simp

omit [DecidableEq κ] in
theorem nodup_entries (d : Dict κ ν) : d.entries.Nodup := List.Nodup.of_map _ d.nodup

theorem Equiv.refl (d : Dict κ ν) : d.Equiv d := fun _ => rfl

theorem items_perm_of_equiv {d e : Dict κ ν} (h : d.Equiv e) : d.entries.Perm e.entries := by
  rw [List.perm_ext_iff_of_nodup d.nodup_entries e.nodup_entries]
  rintro ⟨key, value⟩
  rw [mem_entries_iff, mem_entries_iff, h key]

/-- A property that singles out one key holds of at most one value. -/
theorem countP_values (d : Dict κ ν) (key : κ) (p : ν → Bool)
    (hp : ∀ other value, d.get? other = some value → (p value ↔ other = key)) :
    d.values.countP p = if (d.get? key).isSome then 1 else 0 := by
  have hkeys : d.values.countP p = d.keys.count key := by
    rw [values, keys, List.count, List.countP_map, List.countP_map]
    apply List.countP_congr
    rintro ⟨other, value⟩ hmem
    simpa using hp other value (d.mem_entries_iff.mp hmem)
  rw [hkeys]
  split
  case isTrue hsome => exact List.count_eq_one_of_mem d.nodup (d.mem_keys_iff.mpr hsome)
  case isFalse hnone => exact List.count_eq_zero_of_not_mem (mt d.mem_keys_iff.mp hnone)

theorem sum_update {M : Type*} [AddCommMonoid M] (d : Dict κ ν) (key : κ) (f : Option ν → ν)
    (weight : κ × ν → M) :
    ((d.update key f).entries.map weight).sum +
        ((d.get? key).map fun old => weight (key, old)).getD 0 =
      (d.entries.map weight).sum + weight (key, f (d.get? key)) :=
  sum_updateEntries weight

end Dict

/-! ## Grouping -/

namespace Dict

variable [DecidableEq κ] {α : Type*}

/-- Absorb an element into the value under its key, if it has one. -/
def absorbInto (key : α → Option κ) (absorb : Option ν → α → ν) (d : Dict κ ν) (x : α) :
    Dict κ ν :=
  match key x with
  | none => d
  | some k => d.update k fun old => absorb old x

/-- Absorb every element that has a key into the value under that key. -/
def collect (key : α → Option κ) (absorb : Option ν → α → ν) (d : Dict κ ν) (xs : List α) :
    Dict κ ν :=
  xs.foldl (absorbInto key absorb) d

/-- What absorbing `xs` one after the other makes of a value. -/
def absorbAll (absorb : Option ν → α → ν) (old : Option ν) (xs : List α) : Option ν :=
  xs.foldl (fun value x => some (absorb value x)) old

theorem absorbAll_cons (absorb : Option ν → α → ν) (old : Option ν) (x : α) (xs : List α) :
    absorbAll absorb old (x :: xs) = absorbAll absorb (some (absorb old x)) xs := rfl

theorem isSome_absorbAll (absorb : Option ν → α → ν) (old : Option ν) (xs : List α) :
    (absorbAll absorb old xs).isSome ↔ old.isSome ∨ xs ≠ [] := by
  induction xs generalizing old with
  | nil => simp [absorbAll]
  | cons x rest ih => rw [absorbAll_cons, ih]; simp

/-- What only the first element decides. -/
theorem map_absorbAll_none {β : Type*} {absorb : Option ν → α → ν} (view : ν → β) (first : α → β)
    (hnew : ∀ x, view (absorb none x) = first x)
    (hold : ∀ value x, view (absorb (some value) x) = view value) (xs : List α) :
    (absorbAll absorb none xs).map view = xs.head?.map first := by
  cases xs with
  | nil => rfl
  | cons x rest =>
      have hrest : ∀ value, (absorbAll absorb (some value) rest).map view = some (view value) := by
        induction rest with
        | nil => intro value; rfl
        | cons y rest ih =>
            intro value
            rw [absorbAll_cons, ih, hold]
      rw [absorbAll_cons, hrest, hnew]
      rfl

theorem get?_collect (key : α → Option κ) (absorb : Option ν → α → ν) (d : Dict κ ν)
    (xs : List α) (k : κ) :
    (d.collect key absorb xs).get? k =
      absorbAll absorb (d.get? k) (xs.filter fun x => key x = some k) := by
  induction xs generalizing d with
  | nil => rfl
  | cons x rest ih =>
      rw [collect, List.foldl_cons]
      refine (ih _).trans ?_
      cases hx : key x with
      | none => simp [absorbInto, hx]
      | some other =>
          by_cases hk : k = other
          · subst hk
            simp [absorbInto, hx, get?_update, absorbAll_cons]
          · simp [absorbInto, hx, get?_update, hk, Ne.symm hk]

/-- Each absorbed element adds one to the size of one value, here summed up over some of the
keys. -/
theorem sum_selected_collect (key : α → Option κ) (absorb : Option ν → α → ν) (size : ν → ℕ)
    (hsize : ∀ old x, size (absorb old x) = (old.map size).getD 0 + 1) (selected : κ → Bool)
    (d : Dict κ ν) (xs : List α) :
    ((d.collect key absorb xs).entries.map fun entry =>
        if selected entry.1 then size entry.2 else 0).sum =
      (d.entries.map fun entry => if selected entry.1 then size entry.2 else 0).sum +
        xs.countP fun x => (key x).any selected := by
  induction xs generalizing d with
  | nil => simp [collect]
  | cons x rest ih =>
      rw [collect, List.foldl_cons]
      refine (ih _).trans ?_
      cases hx : key x with
      | none => simp [absorbInto, hx]
      | some k =>
          have hsum := sum_update d k (fun old => absorb old x) fun entry =>
            if selected entry.1 then size entry.2 else 0
          simp only [hsize] at hsum
          -- One update, one element more.
          rw [show absorbInto key absorb d x = d.update k fun old => absorb old x by
            rw [absorbInto, hx], List.countP_cons, hx, Option.any_some]
          by_cases hselected : selected k
          · simp only [hselected, if_true] at hsum ⊢
            have heta : (d.get? k).map (fun old => size old) = (d.get? k).map size := rfl
            rw [heta] at hsum
            omega
          · simp only [hselected, if_false, Bool.false_eq_true] at hsum ⊢
            cases hold : d.get? k with
            | none =>
                rw [hold] at hsum
                simp only [Option.map_none, Option.getD_none] at hsum
                omega
            | some old =>
                rw [hold] at hsum
                simp only [Option.map_some, Option.getD_some] at hsum
                omega

theorem sum_size_collect (key : α → Option κ) (absorb : Option ν → α → ν) (size : ν → ℕ)
    (hsize : ∀ old x, size (absorb old x) = (old.map size).getD 0 + 1) (d : Dict κ ν)
    (xs : List α) :
    ((d.collect key absorb xs).values.map size).sum =
      (d.values.map size).sum + xs.countP fun x => (key x).isSome := by
  have hsum := sum_selected_collect key absorb size hsize (fun _ => true) d xs
  have hany : ∀ o : Option κ, (o.any fun _ => true) = o.isSome := fun o => by cases o <;> rfl
  simp only [if_true, hany] at hsum
  simp only [values, List.map_map]
  exact hsum

/-- What every element adds to. -/
theorem size_absorbAll (absorb : Option ν → α → ν) (size : ν → ℕ) (weight : α → ℕ)
    (hsize : ∀ old x, size (absorb old x) = (old.map size).getD 0 + weight x) (old : Option ν)
    (xs : List α) :
    ((absorbAll absorb old xs).map size).getD 0 = (old.map size).getD 0 + (xs.map weight).sum := by
  induction xs generalizing old with
  | nil => rfl
  | cons x rest ih =>
      rw [absorbAll_cons, ih, List.map_cons, List.sum_cons, Option.map_some, Option.getD_some,
        hsize, Nat.add_assoc]

/-- The dictionary of what is read of the values. -/
def mapValues {μ : Type*} (f : ν → μ) (d : Dict κ ν) : Dict κ μ where
  entries := d.entries.map fun entry => (entry.1, f entry.2)
  nodup := by
    rw [List.map_map]
    exact d.nodup

omit [DecidableEq κ] in
theorem values_mapValues {μ : Type*} (f : ν → μ) (d : Dict κ ν) :
    (d.mapValues f).values = d.values.map f := by
  simp only [values, mapValues, List.map_map]
  rfl

theorem get?_mapValues {μ : Type*} (f : ν → μ) (d : Dict κ ν) (key : κ) :
    (d.mapValues f).get? key = (d.get? key).map f := by
  show find key (d.entries.map fun entry => (entry.1, f entry.2)) = (find key d.entries).map f
  induction d.entries with
  | nil => rfl
  | cons entry rest ih =>
      obtain ⟨other, value⟩ := entry
      by_cases hkey : other = key
      · simp [find, hkey]
      · simp [find, hkey, ih]

end Dict

/-! ## Sorting by a key -/

section Sorting

variable {α : Type*} [LinearOrder κ]

/-- Stable sort by a key, as `sorted(xs, key=...)`. -/
def sortedBy (key : α → κ) (xs : List α) : List α :=
  xs.insertionSort fun first second => key first ≤ key second

theorem sortedBy_perm (key : α → κ) (xs : List α) : (sortedBy key xs).Perm xs :=
  List.perm_insertionSort _ xs

@[simp] theorem mem_sortedBy {key : α → κ} {xs : List α} {x : α} :
    x ∈ sortedBy key xs ↔ x ∈ xs :=
  List.mem_insertionSort _

theorem pairwise_sortedBy (key : α → κ) (xs : List α) :
    (sortedBy key xs).Pairwise fun first second => key first ≤ key second := by
  have : Std.Total fun first second : α => key first ≤ key second :=
    ⟨fun first second => le_total (key first) (key second)⟩
  have : IsTrans α fun first second : α => key first ≤ key second :=
    ⟨fun _ _ _ hfirst hsecond => hfirst.trans hsecond⟩
  exact List.pairwise_insertionSort _ xs

/-- A list whose elements are told apart by the key has one sorted order. -/
theorem sortedBy_eq_of_perm {key : α → κ} {xs ys : List α} (hperm : xs.Perm ys)
    (hkey : ∀ x ∈ xs, ∀ y ∈ xs, key x = key y → x = y) : sortedBy key xs = sortedBy key ys := by
  have hxs : ∀ {x}, x ∈ sortedBy key xs → x ∈ xs := fun h => mem_sortedBy.mp h
  have hys : ∀ {y}, y ∈ sortedBy key ys → y ∈ xs :=
    fun h => hperm.mem_iff.mpr (mem_sortedBy.mp h)
  refine List.Perm.eq_of_pairwise ?_ (pairwise_sortedBy key xs) (pairwise_sortedBy key ys)
    (((sortedBy_perm key xs).trans hperm).trans (sortedBy_perm key ys).symm)
  intro first second hfirst hsecond hle hge
  exact hkey first (hxs hfirst) second (hys hsecond) (le_antisymm hle hge)

theorem sortedBy_id_eq_of_perm {xs ys : List κ} (hperm : xs.Perm ys) :
    sortedBy id xs = sortedBy id ys :=
  sortedBy_eq_of_perm hperm fun _ _ _ _ h => h

/-- The entries in ascending key order, as `dict(sorted(d.items()))`. -/
def Dict.sortedItems (d : Dict κ ν) : List (κ × ν) := sortedBy Prod.fst d.entries

theorem Dict.sortedItems_perm (d : Dict κ ν) : d.sortedItems.Perm d.entries :=
  sortedBy_perm _ _

/-- `dict(sorted(d.items()))`. -/
def Dict.sorted (d : Dict κ ν) : Dict κ ν :=
  ⟨d.sortedItems, (d.sortedItems_perm.map Prod.fst).nodup_iff.mpr d.nodup⟩

theorem Dict.get?_sorted (d : Dict κ ν) : d.sorted.Equiv d := by
  intro key
  apply Option.ext
  intro value
  rw [← Dict.mem_entries_iff, ← Dict.mem_entries_iff]
  exact d.sortedItems_perm.mem_iff

theorem Dict.sortedItems_eq_of_equiv {d e : Dict κ ν} (h : d.Equiv e) :
    d.sortedItems = e.sortedItems := by
  refine sortedBy_eq_of_perm (Dict.items_perm_of_equiv h) ?_
  rintro ⟨key, first⟩ hfirst ⟨other, second⟩ hsecond hkey
  cases hkey
  rw [Dict.mem_entries_iff] at hfirst hsecond
  rw [Option.some.inj (hfirst.symm.trans hsecond)]

end Sorting

/-! ## Counters -/

namespace Dict

variable [DecidableEq κ] {M : Type*} [AddCommMonoid M]

/-- The count under a key, zero when absent. -/
def count (d : Dict κ M) (key : κ) : M := (d.get? key).getD 0

/-- The sum of all counts. -/
def total (d : Dict κ M) : M := d.values.sum

/-- `d[key] += amount`. -/
def bump (d : Dict κ M) (key : κ) (amount : M) : Dict κ M :=
  d.update key fun old => old.getD 0 + amount

/-- Add up a list of increments, starting from `d`. -/
def tallyFrom (d : Dict κ M) (increments : List (κ × M)) : Dict κ M :=
  increments.foldl (fun current inc => current.bump inc.1 inc.2) d

/-- Add up a list of increments. -/
def tally (increments : List (κ × M)) : Dict κ M := tallyFrom empty increments

theorem tallyFrom_cons (d : Dict κ M) (inc : κ × M) (rest : List (κ × M)) :
    tallyFrom d (inc :: rest) = tallyFrom (d.bump inc.1 inc.2) rest := rfl

theorem tallyFrom_append (d : Dict κ M) (first second : List (κ × M)) :
    tallyFrom d (first ++ second) = tallyFrom (tallyFrom d first) second :=
  List.foldl_append

theorem get?_bump (d : Dict κ M) (key other : κ) (amount : M) :
    (d.bump key amount).get? other =
      if other = key then some (d.count key + amount) else d.get? other :=
  get?_update d key other _

theorem count_bump (d : Dict κ M) (key other : κ) (amount : M) :
    (d.bump key amount).count other = d.count other + if other = key then amount else 0 := by
  unfold count
  rw [get?_bump]
  by_cases hkey : other = key
  · subst hkey
    simp [count]
  · simp [hkey]

theorem total_bump (d : Dict κ M) (key : κ) (amount : M) [IsRightCancelAdd M] :
    (d.bump key amount).total = d.total + amount := by
  have hsum := sum_update d key (fun old => old.getD 0 + amount) (Prod.snd (α := κ))
  have hold : ((d.get? key).map fun old => (key, old).2).getD 0 = d.count key := by
    simp [count]
  rw [hold] at hsum
  have hcount : (d.get? key).getD 0 = d.count key := rfl
  simp only [hcount, add_comm (d.count key) amount, ← add_assoc] at hsum
  exact add_right_cancel hsum

/-- A dictionary is determined by its counts and its keys. -/
theorem get?_eq (d : Dict κ M) (key : κ) :
    d.get? key = if key ∈ d.keys then some (d.count key) else none := by
  unfold count
  cases hget : d.get? key with
  | none => rw [if_neg (by rw [mem_keys_iff, hget]; simp)]
  | some value => rw [if_pos (by rw [mem_keys_iff, hget]; simp)]; rfl

theorem mem_keys_bump (d : Dict κ M) (key other : κ) (amount : M) :
    other ∈ (d.bump key amount).keys ↔ other = key ∨ other ∈ d.keys :=
  mem_keys_updateEntries other

theorem mem_keys_tallyFrom (d : Dict κ M) (increments : List (κ × M)) (key : κ) :
    key ∈ (tallyFrom d increments).keys ↔ key ∈ increments.map Prod.fst ∨ key ∈ d.keys := by
  induction increments generalizing d with
  | nil => simp [tallyFrom]
  | cons inc rest ih =>
      rw [tallyFrom_cons, ih, mem_keys_bump]
      simp only [List.map_cons, List.mem_cons]
      tauto

theorem count_tallyFrom (d : Dict κ M) (increments : List (κ × M)) (key : κ) :
    (tallyFrom d increments).count key =
      d.count key + (increments.map fun inc => if key = inc.1 then inc.2 else 0).sum := by
  induction increments generalizing d with
  | nil => simp [tallyFrom]
  | cons inc rest ih =>
      rw [tallyFrom_cons, ih, count_bump]
      simp only [List.map_cons, List.sum_cons, add_assoc]

theorem count_tally (increments : List (κ × M)) (key : κ) :
    (tally increments).count key =
      (increments.map fun inc => if key = inc.1 then inc.2 else 0).sum := by
  rw [tally, count_tallyFrom]
  simp [count]

theorem count_tally_append (first second : List (κ × M)) (key : κ) :
    (tally (first ++ second)).count key = (tally first).count key + (tally second).count key := by
  simp only [count_tally, List.map_append, List.sum_append]

theorem total_tally (increments : List (κ × M)) [IsRightCancelAdd M] :
    (tally increments).total = (increments.map Prod.snd).sum := by
  have hfrom : ∀ d : Dict κ M, (tallyFrom d increments).total =
      d.total + (increments.map Prod.snd).sum := by
    induction increments with
    | nil => intro d; simp [tallyFrom]
    | cons inc rest ih =>
        intro d
        rw [tallyFrom_cons, ih, total_bump]
        simp only [List.map_cons, List.sum_cons, add_assoc]
  rw [tally, hfrom]
  simp [total, values]

/-- Counting occurrences. -/
theorem count_tally_ones (keys : List κ) (key : κ) :
    (tally (keys.map fun k => (k, 1))).count key = keys.count key := by
  rw [count_tally, List.map_map, List.count, List.countP_eq_length_filter]
  induction keys with
  | nil => rfl
  | cons head rest ih =>
      by_cases hkey : head = key
      · simp [hkey, Nat.add_comm 1, ← ih]
      · simp [hkey, Ne.symm hkey, ← ih]

theorem mem_sortedItems_tally_ones {ι : Type*} [LinearOrder ι] (keys : List ι) (key : ι) (n : ℕ) :
    (key, n) ∈ (tally (keys.map fun k => (k, 1))).sortedItems ↔ 0 < n ∧ n = keys.count key := by
  have hcount : (tally (keys.map fun k => (k, 1))).count key = keys.count key :=
    count_tally_ones keys key
  have hkeys : key ∈ (tally (keys.map fun k => (k, 1))).keys ↔ key ∈ keys := by
    rw [tally, mem_keys_tallyFrom]
    simp [Function.comp_def]
  rw [(sortedItems_perm _).mem_iff, mem_entries_iff, get?_eq, hcount]
  simp only [hkeys]
  split
  case isTrue hmem =>
    have hpos : 0 < keys.count key := List.count_pos_iff.mpr hmem
    simp only [Option.some.injEq]
    constructor
    · rintro rfl
      exact ⟨hpos, rfl⟩
    · rintro ⟨-, rfl⟩
      rfl
  case isFalse hmem =>
    have hzero : keys.count key = 0 := List.count_eq_zero_of_not_mem hmem
    simp only [reduceCtorEq, false_iff, not_and, hzero]
    omega

theorem sum_sortedItems_tally {ι : Type*} [LinearOrder ι] (increments : List (ι × ℕ)) :
    ((tally increments).sortedItems.map Prod.snd).sum = (increments.map Prod.snd).sum := by
  rw [← total_tally increments]
  exact ((sortedItems_perm _).map _).sum_eq

/-- The order of the increments does not show. -/
theorem tally_equiv_of_perm {first second : List (κ × M)} (hperm : first.Perm second) :
    (tally first).Equiv (tally second) := by
  intro key
  have hkeys : key ∈ (tally first).keys ↔ key ∈ (tally second).keys := by
    simp only [tally, mem_keys_tallyFrom, (hperm.map Prod.fst).mem_iff]
  have hcount : (tally first).count key = (tally second).count key := by
    rw [count_tally, count_tally]
    exact (hperm.map _).sum_eq
  rw [get?_eq, get?_eq, hcount]
  simp only [hkeys]

end Dict

end PqcReadiness.Lib
