import Mathlib.Data.List.Induction
import PqcReadiness.Observations.Join

/-!
# Nothing is lost in the join

The loop of `join_observations` updates seven accumulators, some of them for every
record and some only for records that were attributed to a host.  `Counted` says
how each of them is tied to the list of matches made so far; `joinStep` keeps it
(`joinStep_counted`), so it holds of the whole run (`foldl_joinStep_counted`), and
the sums of the output follow.
-/

namespace PqcReadiness.Observations

open Lib Gap

/-- What the accumulators say about the matches made so far. -/
structure Counted (state : JoinState) (ms : List Match) : Prop where
  matchEntries : state.matchEntries = ms
  byStatus : state.byStatus.total = ms.length
  byClass : state.byClass.total = ms.length
  states : state.states.total = ms.countP fun m => m.status.isCounted
  gapStates : state.gapStates.total = ms.countP fun m => m.status.isCounted
  perHost : (state.perHost.values.map HostTotals.endpoints).sum =
    ms.countP fun m => m.status.isCounted
  perHostClass : ∀ host totals, state.perHost.get? host = some totals →
    totals.byObservedClass.total = totals.endpoints
  stale : state.stale = ms.countP fun m => m.stale = some true

theorem initial_counted : Counted {} [] where
  matchEntries := rfl
  byStatus := rfl
  byClass := rfl
  states := rfl
  gapStates := rfl
  perHost := rfl
  perHostClass host totals hget := by simp at hget
  stale := rfl

theorem HostTotals.add_endpoints (m : Match) (old : Option HostTotals) :
    ((old.getD {}).add m).endpoints = (old.map HostTotals.endpoints).getD 0 + 1 := by
  cases old <;> rfl

/-- Counting one endpoint adds one to the endpoints of one host. -/
theorem sum_endpoints_update (d : Dict String HostTotals) (host : String) (m : Match) :
    ((d.update host fun old => (old.getD {}).add m).values.map HostTotals.endpoints).sum =
      (d.values.map HostTotals.endpoints).sum + 1 := by
  have hsum := Dict.sum_size_collect (fun _ : Match => some host)
    (fun old m => (old.getD {}).add m) HostTotals.endpoints
    (fun old m => HostTotals.add_endpoints m old) d [m]
  simpa [Dict.collect, Dict.absorbInto] using hsum

/-- A host's classes add up to its endpoints before and after. -/
theorem perHostClass_update {d : Dict String HostTotals} {m : Match} {host : String}
    (hclass : ∀ other totals, d.get? other = some totals →
      totals.byObservedClass.total = totals.endpoints) :
    ∀ other totals, (d.update host fun old => (old.getD {}).add m).get? other = some totals →
      totals.byObservedClass.total = totals.endpoints := by
  intro other totals hget
  rw [Dict.get?_update] at hget
  split at hget
  case isTrue =>
    obtain rfl := Option.some.inj hget
    rw [HostTotals.add, Dict.total_bump]
    cases hold : d.get? host with
    | none => rfl
    | some old => simp [hclass host old hold]
  case isFalse => exact hclass other totals hget

/-- Counting one match keeps the accumulators in step. -/
theorem joinStep_counted {state : JoinState} {ms : List Match} (h : Counted state ms) (m : Match) :
    Counted (joinStep state m) (ms ++ [m]) := by
  have hstale : (ms ++ [m]).countP (fun m => m.stale = some true) =
      ms.countP (fun m => m.stale = some true) + if m.stale = some true then 1 else 0 := by
    simp [List.countP_append, List.countP_singleton]
  have hcounted : (ms ++ [m]).countP (fun m => m.status.isCounted) =
      ms.countP (fun m => m.status.isCounted) + if m.status.isCounted then 1 else 0 := by
    simp [List.countP_append, List.countP_singleton]
  have hlength : (ms ++ [m]).length = ms.length + 1 := by simp
  by_cases hstatus : m.status.isCounted
  · rw [if_pos hstatus] at hcounted
    simp only [joinStep, if_pos hstatus]
    exact
      { matchEntries := by rw [h.matchEntries]
        byStatus := by rw [Dict.total_bump, h.byStatus, hlength]
        byClass := by rw [Dict.total_bump, h.byClass, hlength]
        states := by rw [Dict.total_bump, h.states, hcounted]
        gapStates := by rw [Dict.total_bump, h.gapStates, hcounted]
        perHost := by rw [sum_endpoints_update, h.perHost, hcounted]
        perHostClass := perHostClass_update h.perHostClass
        stale := by rw [h.stale, hstale] }
  · rw [if_neg hstatus, Nat.add_zero] at hcounted
    simp only [joinStep, if_neg hstatus]
    exact
      { matchEntries := by rw [h.matchEntries]
        byStatus := by rw [Dict.total_bump, h.byStatus, hlength]
        byClass := by rw [Dict.total_bump, h.byClass, hlength]
        states := by rw [h.states, hcounted]
        gapStates := by rw [h.gapStates, hcounted]
        perHost := by rw [h.perHost, hcounted]
        perHostClass := h.perHostClass
        stale := by rw [h.stale, hstale] }

/-- The accumulators are in step after any run of the loop. -/
theorem foldl_joinStep_counted (ms : List Match) : Counted (ms.foldl joinStep {}) ms := by
  induction ms using List.reverseRecOn with
  | nil => exact initial_counted
  | append_singleton ms m ih =>
      rw [List.foldl_append]
      exact joinStep_counted ih m

section Join

variable {chars : CharData} {fromIsoFormat : String → Option DateTime} (tooOld : ℕ → Bool)
  (loaded : LoadedObservations fromIsoFormat) (index : HostIndex chars)

/-- The loop makes one match of each record and counts it. -/
theorem foldl_matchRecord (state : JoinState) :
    loaded.records.foldl (fun state rec => joinStep state (matchRecord tooOld index rec)) state =
      (loaded.records.map (matchRecord tooOld index)).foldl joinStep state :=
  List.foldl_map.symm

@[simp] theorem matchEntries_joinObservations :
    (joinObservations tooOld loaded index).matchEntries =
      loaded.records.map (matchRecord tooOld index) := by
  simp only [joinObservations, foldl_matchRecord]
  exact (foldl_joinStep_counted _).matchEntries

/-- Whatever becomes of a record, its match keeps its position. -/
@[simp] theorem record_matchRecord (rec : Observation fromIsoFormat) :
    (matchRecord tooOld index rec).record = rec.position := by
  unfold matchRecord
  obtain ⟨hits, basis, ambiguous⟩ := candidates index rec
  dsimp only
  split
  case isTrue => rfl
  case isFalse =>
    split
    case h_1 entry _ =>
      unfold attributed
      dsimp only
      split <;> rfl
    case h_2 => rfl

/-- **The join conserves its records.**  Statuses and classes count every record
once, there is one match per record in the order of the records, the three
breakdowns of attributed endpoints count each of them once, the classes of a host
add up to its endpoints, and `stale` counts the matches that are flagged. -/
theorem joinObservations_conserves (tooOld : ℕ → Bool)
    (loaded : LoadedObservations fromIsoFormat) (index : HostIndex chars) :
    let out := joinObservations tooOld loaded index
    (out.byStatus.map Prod.snd).sum = loaded.records.length ∧
      (out.byObservedClass.map Prod.snd).sum = loaded.records.length ∧
      out.matchEntries = loaded.records.map (matchRecord tooOld index) ∧
      out.matchEntries.map Match.record = loaded.records.map Observation.position ∧
      (out.states.map Prod.snd).sum = out.matchEntries.countP (fun m => m.status.isCounted) ∧
      (out.byGapState.map Prod.snd).sum = out.matchEntries.countP (fun m => m.status.isCounted) ∧
      (out.perHost.map fun entry => entry.2.endpoints).sum =
        out.matchEntries.countP (fun m => m.status.isCounted) ∧
      (∀ entry ∈ out.perHost, (entry.2.byObservedClass.values).sum = entry.2.endpoints) ∧
      out.stale = out.matchEntries.countP (fun m => m.stale = some true) := by
  have hcounted := foldl_joinStep_counted (loaded.records.map (matchRecord tooOld index))
  rw [← foldl_matchRecord] at hcounted
  have hsorted : ∀ {κ : Type} [LinearOrder κ] (d : Dict κ ℕ),
      (d.sortedItems.map Prod.snd).sum = d.total := fun d =>
    ((Dict.sortedItems_perm d).map Prod.snd).sum_eq
  simp only [matchEntries_joinObservations]
  simp only [joinObservations, hsorted]
  refine ⟨?_, ?_, trivial, ?_, hcounted.states, hcounted.gapStates, ?_, ?_,
    hcounted.stale⟩
  · rw [hcounted.byStatus, List.length_map]
  · rw [hcounted.byClass, List.length_map]
  · rw [List.map_map]
    exact List.map_congr_left fun rec _ => record_matchRecord tooOld index rec
  · rw [← hcounted.perHost, Dict.values, List.map_map]
    exact ((Dict.sortedItems_perm _).map _).sum_eq
  · intro entry hentry
    rw [(Dict.sortedItems_perm _).mem_iff] at hentry
    exact hcounted.perHostClass entry.1 entry.2 ((Dict.mem_entries_iff _).mp hentry)

end Join

end PqcReadiness.Observations
