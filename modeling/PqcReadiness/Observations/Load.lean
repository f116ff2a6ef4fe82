import PqcReadiness.Observations.Conservation
import PqcReadiness.Observations.Schema

/-!
# Loading an observations file

`load_observations` on the decoded text of a file: an envelope object with a list
of records, or one record per line.  Parsing of JSON is the parameter `loads`,
which returns the parser's message when it refuses a text.

A record that the validator refuses is reported under its position and does not
stop the load.  Three things can still go wrong (`Harmless` rules them out): the
validator itself crashes on a record whose `protocol` has no hash or whose version
numeral is too long for `int`, and an accepted record of a newer minor version may
bring a `_position` of its own, which replaces the one the loader gives it.

## Strategy

Every entry of the file ends up in one of two lists, `accepted` or `refused`, and
`loadObservations_eq` computes the result of the loop from these when no entry crashes.
What the two lists hold under one position then follows from the positions being
pairwise different (`filter_filterMap_of_position`).
-/

namespace PqcReadiness.Observations

open Lib

/-! ## The loader -/

/-- Why a file as a whole is refused. -/
inductive FileError where
  | unsupportedEnvelope (version : Json)
  | observationsNotAList

/-- How a load ends without a result. -/
inductive LoadFailure where
  | file (error : FileError)
  | crash (error : Crash)

/-- A record of the file, or what the JSON parser says about it, with its
position and the version it inherits. -/
structure Entry where
  position : ℕ
  content : Except String Json
  inherited : Option String

/-- The entries of an envelope. -/
def envelopeEntries (version : String) (records : List Json) : List Entry :=
  (records.zipIdx 1).map fun (rec, n) => ⟨n, .ok rec, some version⟩

section Loader

variable (fromIsoFormat : String → Option DateTime) (loads : String → Except String Json)

/-- The entries of a file of JSON lines: the lines that are not blank. -/
def lineEntries (text : String) : List Entry :=
  ((split '\n' text).zipIdx 1).filterMap fun (line, n) =>
    let line := dropLast "\r" line
    if strip line = "" then none else some ⟨n, loads line, none⟩

/-- The members of the envelope, when the text is one. -/
def envelope? (text : String) : Option (List (String × Json)) :=
  match loads text with
  | .ok (.obj members) => if (find "observations" members).isSome then some members else none
  | _ => none

/-- The entries of the file, or why it is refused. -/
def openFile (text : String) : Except LoadFailure (FileFormat × List Entry) :=
  match envelope? loads text with
  | some members =>
      let version := Json.get members "observation_schema_version"
      match versionTuple version with
      | .error crash => .error (.crash crash)
      | .ok (some (1, _)) =>
          match Json.get members "observations" with
          | .arr records => .ok (.envelope, envelopeEntries (orEmpty version.asStr) records)
          | _ => .error (.file .observationsNotAList)
      | .ok _ => .error (.file (.unsupportedEnvelope version))
  | none => .ok (.jsonl, lineEntries loads text)

/-- A parsed record, validated: a rejected record, or `{"_position": position, **rec}`. -/
def loadRecord (position : ℕ) (content : Json) (inherited : Option String) :
    Except Crash (Invalid ⊕ Observation fromIsoFormat) :=
  match content with
  | .obj members =>
      match hvalid : validateRecord fromIsoFormat (.obj members) inherited with
      | .error crash => .error crash
      | .ok [] =>
          .ok (.inr ⟨(find "_position" members).getD (.int position), members, inherited, hvalid⟩)
      | .ok (problem :: rest) => .ok (.inl ⟨position, join "; " (problem :: rest)⟩)
  | other =>
      (validateRecord fromIsoFormat other inherited).map fun problems =>
        .inl ⟨position, join "; " problems⟩

/-- What is reported for a line that is not JSON. -/
def unreadable (entry : Entry) : Option Invalid :=
  match entry.content with
  | .error msg => some ⟨entry.position, "line is not JSON: " ++ msg⟩
  | .ok _ => none

/-- One pass of the loop over the parsed records. -/
def loadStep (out : LoadedObservations fromIsoFormat) (entry : Entry) :
    Except Crash (LoadedObservations fromIsoFormat) :=
  match entry.content with
  | .error _ => .ok out
  | .ok content =>
      (loadRecord fromIsoFormat entry.position content entry.inherited).map fun loaded =>
        match loaded with
        | .inl invalid => { out with invalid := out.invalid ++ [invalid] }
        | .inr rec => { out with records := out.records ++ [rec] }

/-- `load_observations`, on the text of the file. -/
def loadObservations (text : String) : Except LoadFailure (LoadedObservations fromIsoFormat) :=
  match openFile loads text with
  | .error failure => .error failure
  | .ok (format, entries) =>
      match entries.foldlM (loadStep fromIsoFormat)
          { invalid := entries.filterMap unreadable, fileFormat := format } with
      | .error crash => .error (.crash crash)
      | .ok out => .ok { out with invalid := sortedBy Invalid.record out.invalid }

end Loader

/-! ## What crashes and what is mislabelled -/

/-- A version whose numerals `int` does not convert. -/
def OverlongVersion (version : Json) : Prop :=
  ∃ groups, version.asStr.bind (fun text => versionGroups (strip text)) = some groups ∧
    (maxStrDigits < groups.1.length ∨ maxStrDigits < groups.2.length)

/-- A value that has no hash. -/
def Unhashable : Json → Prop
  | .arr _ => True
  | .obj _ => True
  | _ => False

/-- An entry that neither crashes the validator nor is accepted under a position of
its own making. -/
def Harmless (fromIsoFormat : String → Option DateTime) (entry : Entry) : Prop :=
  ∀ members, entry.content = .ok (.obj members) →
    ¬ OverlongVersion (recordVersion members entry.inherited) ∧
      ¬ Unhashable (Json.get members "protocol") ∧
      (validateRecord fromIsoFormat (.obj members) entry.inherited = .ok [] →
        ∀ own, find "_position" members = some own → own.eqNat entry.position)

theorem versionTuple_error_iff {version : Json} :
    (∃ crash, versionTuple version = .error crash) ↔ OverlongVersion version := by
  unfold versionTuple OverlongVersion
  cases hgroups : version.asStr.bind fun text => versionGroups (strip text) with
  | none => simp
  | some groups =>
      obtain ⟨major, minor⟩ := groups
      simp only [Option.some.injEq, exists_eq_left']
      unfold intOfText
      by_cases hmajor : maxStrDigits < major.length
      · simp [hmajor, bind, Except.bind]
      · by_cases hminor : maxStrDigits < minor.length <;>
          simp [hmajor, hminor, bind, Except.bind, pure, Except.pure]

theorem lookup_error_iff {value : Json} :
    (∃ crash, Protocol.lookup value = .error crash) ↔ Unhashable value := by
  cases value <;> simp [Protocol.lookup, Unhashable]

theorem validateRecord_error_iff (fromIsoFormat : String → Option DateTime)
    {members : List (String × Json)} {inherited : Option String} :
    (∃ crash, validateRecord fromIsoFormat (.obj members) inherited = .error crash) ↔
      OverlongVersion (recordVersion members inherited) ∨
        Unhashable (Json.get members "protocol") := by
  rw [← versionTuple_error_iff, ← lookup_error_iff]
  simp only [validateRecord]
  cases versionTuple (recordVersion members inherited) with
  | error crash => simp [bind, Except.bind]
  | ok vt =>
      cases Protocol.lookup (Json.get members "protocol") <;>
        simp [bind, Except.bind, pure, Except.pure]

/-! ## The two lists -/

section Fate

variable (fromIsoFormat : String → Option DateTime)

/-- What becomes of an entry. -/
def fate (entry : Entry) : Except Crash (Invalid ⊕ Observation fromIsoFormat) :=
  match entry.content with
  | .error msg => .ok (.inl ⟨entry.position, "line is not JSON: " ++ msg⟩)
  | .ok content => loadRecord fromIsoFormat entry.position content entry.inherited

/-- The record that is kept of an entry. -/
def accepted (entry : Entry) : Option (Observation fromIsoFormat) :=
  match fate fromIsoFormat entry with
  | .ok (.inr rec) => some rec
  | _ => none

/-- The problem that is reported for an entry. -/
def refused (entry : Entry) : Option Invalid :=
  match fate fromIsoFormat entry with
  | .ok (.inl invalid) => some invalid
  | _ => none

/-- The problem that the validator has with an entry. -/
def rejected (entry : Entry) : Option Invalid :=
  match entry.content with
  | .error _ => none
  | .ok _ => refused fromIsoFormat entry

variable {fromIsoFormat} {entry : Entry}

theorem loadStep_of_fate (out : LoadedObservations fromIsoFormat)
    {loaded : Invalid ⊕ Observation fromIsoFormat} (hfate : fate fromIsoFormat entry = .ok loaded) :
    loadStep fromIsoFormat out entry = .ok
      { out with
        records := out.records ++ (accepted fromIsoFormat entry).toList
        invalid := out.invalid ++ (rejected fromIsoFormat entry).toList } := by
  unfold loadStep
  cases hcontent : entry.content with
  | error msg => simp [accepted, rejected, fate, hcontent]
  | ok content =>
      have hload : loadRecord fromIsoFormat entry.position content entry.inherited = .ok loaded := by
        simpa [fate, hcontent] using hfate
      cases loaded <;> simp [accepted, rejected, refused, hfate, hcontent, hload, Except.map]

theorem loadStep_of_crash (out : LoadedObservations fromIsoFormat) {crash : Crash}
    (hfate : fate fromIsoFormat entry = .error crash) :
    loadStep fromIsoFormat out entry = .error crash := by
  unfold loadStep
  cases hcontent : entry.content with
  | error msg => simp [fate, hcontent] at hfate
  | ok content =>
      have hload : loadRecord fromIsoFormat entry.position content entry.inherited =
          .error crash := by
        simpa [fate, hcontent] using hfate
      simp [hload, Except.map]

/-- The loop ends when no entry crashes, with what is kept and what is rejected. -/
theorem foldlM_loadStep (entries : List Entry)
    (hfates : ∀ entry ∈ entries, ∃ loaded, fate fromIsoFormat entry = .ok loaded)
    (out : LoadedObservations fromIsoFormat) :
    entries.foldlM (loadStep fromIsoFormat) out = .ok
      { out with
        records := out.records ++ entries.filterMap (accepted fromIsoFormat)
        invalid := out.invalid ++ entries.filterMap (rejected fromIsoFormat) } := by
  induction entries generalizing out with
  | nil => simp [pure, Except.pure]
  | cons entry rest ih =>
      obtain ⟨loaded, hfate⟩ := hfates entry (List.mem_cons_self ..)
      rw [List.foldlM_cons, loadStep_of_fate out hfate]
      refine (ih (fun other hother => hfates other (List.mem_cons_of_mem _ hother)) _).trans ?_
      cases haccepted : accepted fromIsoFormat entry <;>
        cases hrejected : rejected fromIsoFormat entry <;>
          simp [haccepted, hrejected]

/-- An entry that crashes ends the loop. -/
theorem foldlM_loadStep_error (entries : List Entry)
    (hcrash : ∃ entry ∈ entries, ∃ crash, fate fromIsoFormat entry = .error crash)
    (out : LoadedObservations fromIsoFormat) :
    ∃ crash, entries.foldlM (loadStep fromIsoFormat) out = .error crash := by
  induction entries generalizing out with
  | nil => simp at hcrash
  | cons entry rest ih =>
      rw [List.foldlM_cons]
      cases hfate : fate fromIsoFormat entry with
      | error crash => exact ⟨crash, by rw [loadStep_of_crash out hfate]; rfl⟩
      | ok loaded =>
          rw [loadStep_of_fate out hfate]
          refine ih ?_ _
          obtain ⟨other, hother, crash, hother'⟩ := hcrash
          rcases List.mem_cons.mp hother with rfl | hmem
          · rw [hfate] at hother'
            exact absurd hother' (by simp)
          · exact ⟨other, hmem, crash, hother'⟩

/-- An entry with a fate is kept or reported, never both. -/
theorem accepted_or_refused {loaded : Invalid ⊕ Observation fromIsoFormat}
    (hfate : fate fromIsoFormat entry = .ok loaded) :
    (accepted fromIsoFormat entry).toList.length + (refused fromIsoFormat entry).toList.length =
      1 := by
  cases loaded <;> simp [accepted, refused, hfate]

/-- The lines that are not JSON and the records that are rejected make up what is
reported. -/
theorem perm_refused (fromIsoFormat : String → Option DateTime) (entries : List Entry) :
    (entries.filterMap unreadable ++ entries.filterMap (rejected fromIsoFormat)).Perm
      (entries.filterMap (refused fromIsoFormat)) := by
  induction entries with
  | nil => exact List.Perm.refl _
  | cons entry rest ih =>
      cases hcontent : entry.content with
      | error msg =>
          have hrefused : refused fromIsoFormat entry =
              some ⟨entry.position, "line is not JSON: " ++ msg⟩ := by
            simp [refused, fate, hcontent]
          have hunreadable : unreadable entry =
              some ⟨entry.position, "line is not JSON: " ++ msg⟩ := by
            simp [unreadable, hcontent]
          have hrejected : rejected fromIsoFormat entry = none := by simp [rejected, hcontent]
          simp only [List.filterMap_cons, hrefused, hunreadable, hrejected, List.cons_append]
          exact ih.cons _
      | ok content =>
          have hunreadable : unreadable entry = none := by simp [unreadable, hcontent]
          have hrejected : rejected fromIsoFormat entry = refused fromIsoFormat entry := by
            simp [rejected, hcontent]
          cases hrefused : refused fromIsoFormat entry with
          | none =>
              simp only [List.filterMap_cons, hunreadable, hrejected, hrefused]
              exact ih
          | some invalid =>
              simp only [List.filterMap_cons, hunreadable, hrejected, hrefused]
              exact List.perm_middle.trans (ih.cons _)

theorem loadRecord_inl {position : ℕ} {content : Json} {inherited : Option String}
    {invalid : Invalid}
    (hload : loadRecord fromIsoFormat position content inherited = .ok (.inl invalid)) :
    invalid.record = position := by
  unfold loadRecord at hload
  split at hload
  case h_1 members =>
    split at hload
    case h_1 => exact absurd hload (by simp)
    case h_2 => exact absurd hload (by simp)
    case h_3 =>
      obtain rfl := Sum.inl.inj (Except.ok.inj hload)
      rfl
  case h_2 =>
    cases hproblems : validateRecord fromIsoFormat content inherited with
    | error crash => simp [hproblems, Except.map] at hload
    | ok problems =>
        simp only [hproblems, Except.map, Except.ok.injEq, Sum.inl.injEq] at hload
        rw [← hload]

theorem loadRecord_inr {position : ℕ} {content : Json} {inherited : Option String}
    {rec : Observation fromIsoFormat}
    (hload : loadRecord fromIsoFormat position content inherited = .ok (.inr rec)) :
    content = .obj rec.members ∧
      rec.position = (find "_position" rec.members).getD (.int position) ∧
      validateRecord fromIsoFormat (.obj rec.members) inherited = .ok [] := by
  unfold loadRecord at hload
  split at hload
  case h_1 members =>
    split at hload
    case h_1 => exact absurd hload (by simp)
    case h_2 hvalid =>
      obtain rfl := Sum.inr.inj (Except.ok.inj hload)
      exact ⟨rfl, rfl, hvalid⟩
    case h_3 => exact absurd hload (by simp)
  case h_2 =>
    cases hproblems : validateRecord fromIsoFormat content inherited <;>
      simp [hproblems, Except.map] at hload

theorem refused_record {invalid : Invalid} (hrefused : refused fromIsoFormat entry = some invalid) :
    invalid.record = entry.position := by
  unfold refused at hrefused
  split at hrefused
  case h_1 other hfate =>
    obtain rfl := Option.some.inj hrefused
    unfold fate at hfate
    split at hfate
    case h_1 =>
      obtain rfl := Sum.inl.inj (Except.ok.inj hfate)
      rfl
    case h_2 => exact loadRecord_inl hfate
  case h_2 => exact absurd hrefused (by simp)

theorem accepted_spec {rec : Observation fromIsoFormat}
    (haccepted : accepted fromIsoFormat entry = some rec) :
    entry.content = .ok (.obj rec.members) ∧
      rec.position = (find "_position" rec.members).getD (.int entry.position) ∧
      validateRecord fromIsoFormat (.obj rec.members) entry.inherited = .ok [] := by
  unfold accepted at haccepted
  split at haccepted
  case h_1 other hfate =>
    obtain rfl := Option.some.inj haccepted
    unfold fate at hfate
    split at hfate
    case h_1 => exact absurd hfate (by simp)
    case h_2 content hcontent =>
      obtain ⟨rfl, hposition, hvalid⟩ := loadRecord_inr hfate
      exact ⟨hcontent, hposition, hvalid⟩
  case h_2 => exact absurd haccepted (by simp)

theorem accepted_of_valid {members : List (String × Json)}
    (hcontent : entry.content = .ok (.obj members))
    (hvalid : validateRecord fromIsoFormat (.obj members) entry.inherited = .ok []) :
    ∃ rec, accepted fromIsoFormat entry = some rec ∧ rec.members = members := by
  have hfate : ∃ rec, fate fromIsoFormat entry = .ok (.inr rec) ∧ rec.members = members := by
    unfold fate
    rw [hcontent]
    dsimp only
    unfold loadRecord
    split
    case h_1 inner hinner =>
      cases hinner
      split
      case h_1 hcrash => exact absurd (hvalid.symm.trans hcrash) (by simp)
      case h_2 => exact ⟨_, rfl, rfl⟩
      case h_3 hproblems => exact absurd (hvalid.symm.trans hproblems) (by simp)
    case h_2 hno => exact absurd rfl (hno members)
  obtain ⟨rec, hfate, hmembers⟩ := hfate
  exact ⟨rec, by simp [accepted, hfate], hmembers⟩

/-- An entry has a fate unless it is an object on which the validator crashes. -/
theorem exists_fate_iff :
    (∃ loaded, fate fromIsoFormat entry = .ok loaded) ↔
      ∀ members, entry.content = .ok (.obj members) →
        ¬ OverlongVersion (recordVersion members entry.inherited) ∧
          ¬ Unhashable (Json.get members "protocol") := by
  simp only [← not_or, ← validateRecord_error_iff fromIsoFormat]
  unfold fate
  cases hcontent : entry.content with
  | error msg => simp
  | ok content =>
      simp only [Except.ok.injEq]
      unfold loadRecord
      split
      case h_1 members =>
        simp only [Json.obj.injEq, forall_eq']
        split
        case h_1 crash hcrash => simp [hcrash]
        case h_2 hvalid => simp [hvalid]
        case h_3 hproblems => simp [hproblems]
      case h_2 hno =>
        have hok : ∃ problems, validateRecord fromIsoFormat content entry.inherited =
            .ok problems := by
          cases content with
          | obj members => exact absurd rfl (hno members)
          | _ => exact ⟨_, rfl⟩
        obtain ⟨problems, hproblems⟩ := hok
        refine iff_of_true ⟨_, by rw [hproblems]; rfl⟩ ?_
        intro members hmembers
        exact absurd hmembers (hno members)

end Fate

/-! ## Positions -/

theorem eqNat_unique {value : Json} {n m : ℕ} (hn : value.eqNat n) (hm : value.eqNat m) :
    n = m := by
  cases value with
  | bool flag =>
      simp only [Json.eqNat, beq_iff_eq] at hn hm
      exact hn.symm.trans hm
  | int number =>
      simp only [Json.eqNat, beq_iff_eq] at hn hm
      exact_mod_cast hn.symm.trans hm
  | float number =>
      simp only [Json.eqNat, beq_iff_eq] at hn hm
      exact_mod_cast hn.symm.trans hm
  | _ => simp [Json.eqNat] at hn

/-- What entries of different positions leave under the position of one of them is
what that one leaves. -/
theorem filter_filterMap_of_position {β : Type} {entries : List Entry}
    (hnodup : (entries.map Entry.position).Nodup) {leave : Entry → Option β} {under : β → Bool}
    {entry : Entry} (hentry : entry ∈ entries)
    (hunder : ∀ other ∈ entries, ∀ left, leave other = some left →
      (under left ↔ other.position = entry.position)) :
    (entries.filterMap leave).filter under = (leave entry).toList := by
  induction entries with
  | nil => simp at hentry
  | cons head rest ih =>
      rw [List.map_cons, List.nodup_cons] at hnodup
      have hrest : ∀ other ∈ rest, ∀ left, leave other = some left →
          (under left ↔ other.position = entry.position) :=
        fun other hother => hunder other (List.mem_cons_of_mem _ hother)
      rcases List.mem_cons.mp hentry with rfl | hmem
      · have hnone : (rest.filterMap leave).filter under = [] := by
          rw [List.filter_eq_nil_iff]
          intro left hleft
          obtain ⟨other, hother, hleave⟩ := List.mem_filterMap.mp hleft
          rw [hrest other hother left hleave]
          intro hposition
          exact hnodup.1 (List.mem_map.mpr ⟨other, hother, hposition⟩)
        cases hleave : leave entry with
        | none => simp [hleave, hnone]
        | some left =>
            have hself := (hunder entry (List.mem_cons_self ..) left hleave).mpr rfl
            simp [hleave, hnone, hself]
      · have hne : head.position ≠ entry.position := by
          intro hposition
          exact hnodup.1 (hposition ▸ List.mem_map.mpr ⟨entry, hmem, rfl⟩)
        cases hleave : leave head with
        | none => simpa [List.filterMap_cons, hleave] using ih hnodup.2 hmem hrest
        | some left =>
            have hskip : ¬ under left :=
              mt (hunder head (List.mem_cons_self ..) left hleave).mp hne
            simpa [List.filterMap_cons, hleave, hskip] using ih hnodup.2 hmem hrest

theorem nodup_positions {loads : String → Except String Json} {text : String} {format : FileFormat}
    {entries : List Entry} (hopen : openFile loads text = .ok (format, entries)) :
    (entries.map Entry.position).Nodup := by
  have henvelope : ∀ version records,
      ((envelopeEntries version records).map Entry.position).Nodup := by
    intro version records
    have hpositions : (envelopeEntries version records).map Entry.position =
        (records.zipIdx 1).map Prod.snd := by
      rw [envelopeEntries, List.map_map]
      rfl
    rw [hpositions, List.zipIdx_map_snd]
    exact List.nodup_range' ..
  have hlines : ((lineEntries loads text).map Entry.position).Nodup := by
    have hsublist : ((lineEntries loads text).map Entry.position).Sublist
        (((split '\n' text).zipIdx 1).map Prod.snd) := by
      unfold lineEntries
      generalize (split '\n' text).zipIdx 1 = lines
      induction lines with
      | nil => exact List.Sublist.refl _
      | cons line rest ih =>
          rw [List.filterMap_cons, List.map_cons]
          dsimp only
          split
          case h_1 => exact ih.cons _
          case h_2 entry hentry =>
            split at hentry
            case isTrue => exact absurd hentry (by simp)
            case isFalse =>
              obtain rfl := Option.some.inj hentry
              exact ih.cons_cons _
    refine hsublist.nodup ?_
    rw [List.zipIdx_map_snd]
    exact List.nodup_range' ..
  unfold openFile at hopen
  split at hopen
  case h_1 =>
    dsimp only at hopen
    split at hopen
    case h_1 => exact absurd hopen (by simp)
    case h_2 =>
      split at hopen
      case h_1 =>
        obtain ⟨-, rfl⟩ := Prod.mk.inj (Except.ok.inj hopen)
        exact henvelope _ _
      case h_2 => exact absurd hopen (by simp)
    case h_3 => exact absurd hopen (by simp)
  case h_2 =>
    obtain ⟨-, rfl⟩ := Prod.mk.inj (Except.ok.inj hopen)
    exact hlines

/-! ## Every record is loaded or reported once -/

section Labelled

variable {fromIsoFormat : String → Option DateTime}

/-- Every entry is kept under its position or reported under it, once, and nothing
else is; what is reported is sorted by position. -/
structure Labelled (entries : List Entry) (out : LoadedObservations fromIsoFormat) : Prop where
  once : ∀ entry ∈ entries,
    (∃ content, entry.content = .ok content ∧
        (out.records.filter fun rec => rec.position.eqNat entry.position).map
          (fun rec => Json.obj rec.members) = [content] ∧
        (out.invalid.filter fun invalid => invalid.record = entry.position) = []) ∨
      (out.records.filter fun rec => rec.position.eqNat entry.position) = [] ∧
        (out.invalid.filter fun invalid => invalid.record = entry.position).length = 1
  nothingElse : out.records.length + out.invalid.length = entries.length
  sorted : out.invalid.Pairwise fun first second => first.record ≤ second.record

/-- What a load makes of the entries when none of them crashes. -/
def loadEntries (fromIsoFormat : String → Option DateTime) (format : FileFormat)
    (entries : List Entry) : LoadedObservations fromIsoFormat where
  records := entries.filterMap (accepted fromIsoFormat)
  invalid := sortedBy Invalid.record
    (entries.filterMap unreadable ++ entries.filterMap (rejected fromIsoFormat))
  fileFormat := format

theorem loadObservations_eq {loads : String → Except String Json} {text : String}
    {format : FileFormat} {entries : List Entry}
    (hopen : openFile loads text = .ok (format, entries))
    (hfates : ∀ entry ∈ entries, ∃ loaded, fate fromIsoFormat entry = .ok loaded) :
    loadObservations fromIsoFormat loads text = .ok (loadEntries fromIsoFormat format entries) := by
  simp only [loadObservations, hopen, foldlM_loadStep entries hfates, List.nil_append]
  rfl

theorem length_accepted_add_refused (entries : List Entry)
    (hfates : ∀ entry ∈ entries, ∃ loaded, fate fromIsoFormat entry = .ok loaded) :
    (entries.filterMap (accepted fromIsoFormat)).length +
      (entries.filterMap (refused fromIsoFormat)).length = entries.length := by
  induction entries with
  | nil => rfl
  | cons entry rest ih =>
      obtain ⟨loaded, hfate⟩ := hfates entry (List.mem_cons_self ..)
      have hone := accepted_or_refused hfate
      have hrest := ih fun other hother => hfates other (List.mem_cons_of_mem _ hother)
      cases haccepted : accepted fromIsoFormat entry <;>
        cases hrefused : refused fromIsoFormat entry <;>
          simp [haccepted, hrefused] at hone ⊢ <;> omega

/-- What is reported under a position is what the entry there has reported. -/
theorem perm_invalid_at (fromIsoFormat : String → Option DateTime) (format : FileFormat)
    {entries : List Entry}
    (hnodup : (entries.map Entry.position).Nodup) {entry : Entry} (hentry : entry ∈ entries) :
    ((loadEntries fromIsoFormat format entries).invalid.filter
      fun invalid => invalid.record = entry.position).Perm
        (refused fromIsoFormat entry).toList := by
  have hperm := ((sortedBy_perm Invalid.record _).trans
    (perm_refused fromIsoFormat entries)).filter
      fun invalid => invalid.record = entry.position
  refine hperm.trans (List.Perm.of_eq ?_)
  apply filter_filterMap_of_position hnodup hentry
  intro other _ invalid hinvalid
  rw [decide_eq_true_eq, refused_record hinvalid]

/-- Harmless entries with different positions are labelled. -/
theorem labelled_of_harmless {format : FileFormat} {entries : List Entry}
    (hnodup : (entries.map Entry.position).Nodup)
    (hharmless : ∀ entry ∈ entries, Harmless fromIsoFormat entry) :
    Labelled entries (loadEntries fromIsoFormat format entries) := by
  have hfates : ∀ entry ∈ entries, ∃ loaded, fate fromIsoFormat entry = .ok loaded := by
    intro entry hentry
    rw [exists_fate_iff]
    intro members hcontent
    have h := hharmless entry hentry members hcontent
    exact ⟨h.1, h.2.1⟩
  have hposition : ∀ entry ∈ entries, ∀ rec, accepted fromIsoFormat entry = some rec →
      rec.position.eqNat entry.position := by
    intro entry hentry rec haccepted
    obtain ⟨hcontent, hposition, hvalid⟩ := accepted_spec haccepted
    have hown := (hharmless entry hentry rec.members hcontent).2.2 hvalid
    rw [hposition]
    cases hfind : find "_position" rec.members with
    | none => simp [Json.eqNat]
    | some own => exact hown own hfind
  refine ⟨?_, ?_, pairwise_sortedBy _ _⟩
  · intro entry hentry
    have hrecords : ((loadEntries fromIsoFormat format entries).records.filter
        fun rec => rec.position.eqNat entry.position) = (accepted fromIsoFormat entry).toList := by
      apply filter_filterMap_of_position hnodup hentry
      intro other hother rec haccepted
      have hother := hposition other hother rec haccepted
      exact ⟨fun h => eqNat_unique hother h, fun h => h ▸ hother⟩
    have hinvalid := perm_invalid_at fromIsoFormat format hnodup hentry
    obtain ⟨loaded, hfate⟩ := hfates entry hentry
    have hone := accepted_or_refused hfate
    rw [hrecords, hinvalid.length_eq]
    cases haccepted : accepted fromIsoFormat entry with
    | none =>
        simp only [haccepted, Option.toList_none, List.length_nil, Nat.zero_add] at hone ⊢
        exact Or.inr ⟨trivial, hone⟩
    | some rec =>
        simp only [haccepted, Option.toList_some, List.length_singleton] at hone
        have hrefused : (refused fromIsoFormat entry).toList = [] :=
          List.length_eq_zero_iff.mp (by omega)
        rw [hrefused] at hinvalid
        exact Or.inl ⟨_, (accepted_spec haccepted).1, rfl, hinvalid.eq_nil⟩
  · rw [← length_accepted_add_refused entries hfates]
    congr 1
    exact ((sortedBy_perm _ _).trans (perm_refused fromIsoFormat entries)).length_eq

/-- Labelled entries that were loaded are harmless. -/
theorem harmless_of_labelled {format : FileFormat} {entries : List Entry}
    (hnodup : (entries.map Entry.position).Nodup)
    (hfates : ∀ entry ∈ entries, ∃ loaded, fate fromIsoFormat entry = .ok loaded)
    (hlabelled : Labelled entries (loadEntries fromIsoFormat format entries)) :
    ∀ entry ∈ entries, Harmless fromIsoFormat entry := by
  intro entry hentry members hcontent
  have hfate := exists_fate_iff.mp (hfates entry hentry) members hcontent
  refine ⟨hfate.1, hfate.2, ?_⟩
  intro hvalid own hown
  obtain ⟨rec, haccepted, hmembers⟩ := accepted_of_valid hcontent hvalid
  rcases hlabelled.once entry hentry with ⟨content, hsame, hrecords, -⟩ | ⟨-, hinvalid⟩
  · -- A record under this position has these members, and so this `_position`.
    obtain rfl := Except.ok.inj (hcontent.symm.trans hsame)
    have hmem : Json.obj members ∈ ((loadEntries fromIsoFormat format entries).records.filter
        fun rec => rec.position.eqNat entry.position).map fun rec => Json.obj rec.members := by
      rw [hrecords]
      exact List.mem_singleton_self _
    obtain ⟨other, hother, hobj⟩ := List.mem_map.mp hmem
    obtain ⟨hkept, heq⟩ := List.mem_filter.mp hother
    obtain ⟨source, -, hsource⟩ := List.mem_filterMap.mp hkept
    have hposition := (accepted_spec hsource).2.1
    rw [Json.obj.inj hobj, hown] at hposition
    rw [hposition] at heq
    exact heq
  · -- The entry is kept, so nothing is reported for it.
    obtain ⟨loaded, hfate⟩ := hfates entry hentry
    have hone := accepted_or_refused hfate
    rw [(perm_invalid_at fromIsoFormat _ hnodup hentry).length_eq] at hinvalid
    simp only [haccepted, Option.toList_some, List.length_singleton] at hone
    omega

end Labelled

/-! ## The exact condition -/

section Condition

variable (fromIsoFormat : String → Option DateTime) (loads : String → Except String Json)
  (text : String)

/-- The load refuses the file as a whole, or keeps or reports every entry once under
its position, and the join then shows these positions. -/
def LoadsEveryRecord : Prop :=
  (∃ error, loadObservations fromIsoFormat loads text = .error (.file error)) ∨
    ∃ out format entries, loadObservations fromIsoFormat loads text = .ok out ∧
      openFile loads text = .ok (format, entries) ∧ Labelled entries out ∧
      ∀ (chars : CharData) (tooOld : ℕ → Bool) (index : HostIndex chars),
        (joinObservations tooOld out index).matchEntries.map Match.record =
          out.records.map Observation.position

/-- The envelope's version is not overlong, and the entries of a file that is not
refused are harmless. -/
def HarmlessFile : Prop :=
  (∀ members, envelope? loads text = some members →
    ¬ OverlongVersion (Json.get members "observation_schema_version")) ∧
    ∀ format entries, openFile loads text = .ok (format, entries) →
      ∀ entry ∈ entries, Harmless fromIsoFormat entry

theorem openFile_crash_iff :
    (∃ crash, openFile loads text = .error (.crash crash)) ↔
      ∃ members, envelope? loads text = some members ∧
        OverlongVersion (Json.get members "observation_schema_version") := by
  simp only [← versionTuple_error_iff]
  unfold openFile
  cases henvelope : envelope? loads text with
  | none => simp
  | some members =>
      simp only [Option.some.injEq, exists_eq_left']
      cases hversion : versionTuple (Json.get members "observation_schema_version") with
      | error crash => simp
      | ok vt =>
          refine iff_of_false ?_ (by simp)
          rintro ⟨crash, hopen⟩
          split at hopen
          case h_1 heq => exact absurd heq (by simp)
          case h_2 => split at hopen <;> simp at hopen
          case h_3 => simp at hopen

/-- **An observations file loads with every record once, under its position, if and
only if** it is harmless. -/
theorem loadsEveryRecord_iff :
    LoadsEveryRecord fromIsoFormat loads text ↔ HarmlessFile fromIsoFormat loads text := by
  have hcrash := openFile_crash_iff loads text
  cases hopen : openFile loads text with
  | error failure =>
      have hload : loadObservations fromIsoFormat loads text = .error failure := by
        simp [loadObservations, hopen]
      cases failure with
      | file error =>
          refine iff_of_true (Or.inl ⟨error, hload⟩) ⟨?_, ?_⟩
          · intro members henvelope hversion
            obtain ⟨crash, hcrashed⟩ := hcrash.mpr ⟨members, henvelope, hversion⟩
            exact absurd (hopen.symm.trans hcrashed) (by simp)
          · intro format entries hentries
            exact absurd (hopen.symm.trans hentries) (by simp)
      | crash crash =>
          obtain ⟨members, henvelope, hversion⟩ := hcrash.mp ⟨crash, hopen⟩
          refine iff_of_false ?_ fun hharmless => hharmless.1 members henvelope hversion
          rintro (⟨error, hfile⟩ | ⟨out, format, entries, hout, -⟩)
          · exact absurd (hload.symm.trans hfile) (by simp)
          · exact absurd (hload.symm.trans hout) (by simp)
  | ok opened =>
      obtain ⟨format, entries⟩ := opened
      have hnodup := nodup_positions hopen
      constructor
      · rintro (⟨error, hfile⟩ | ⟨out, format', entries', hout, hentries, hlabelled, -⟩)
        · simp only [loadObservations, hopen] at hfile
          split at hfile <;> simp at hfile
        · obtain ⟨rfl, rfl⟩ := Prod.mk.inj (Except.ok.inj (hopen.symm.trans hentries))
          have hfates : ∀ entry ∈ entries, ∃ loaded, fate fromIsoFormat entry = .ok loaded := by
            intro entry hentry
            cases hfate : fate fromIsoFormat entry with
            | ok loaded => exact ⟨loaded, rfl⟩
            | error crash =>
                obtain ⟨crash', hloop⟩ := foldlM_loadStep_error entries ⟨entry, hentry, crash, hfate⟩
                  { invalid := entries.filterMap unreadable, fileFormat := format }
                simp [loadObservations, hopen, hloop] at hout
          rw [loadObservations_eq hopen hfates] at hout
          obtain rfl := Except.ok.inj hout
          refine ⟨?_, ?_⟩
          · intro members henvelope hversion
            obtain ⟨crash, hcrashed⟩ := hcrash.mpr ⟨members, henvelope, hversion⟩
            exact absurd (hopen.symm.trans hcrashed) (by simp)
          · intro other others hothers
            obtain ⟨-, rfl⟩ := Prod.mk.inj (Except.ok.inj (hopen.symm.trans hothers))
            exact harmless_of_labelled hnodup hfates hlabelled
      · intro hharmless
        have hentries := hharmless.2 format entries hopen
        have hfates : ∀ entry ∈ entries, ∃ loaded, fate fromIsoFormat entry = .ok loaded := by
          intro entry hentry
          rw [exists_fate_iff]
          intro members hcontent
          have h := hentries entry hentry members hcontent
          exact ⟨h.1, h.2.1⟩
        refine Or.inr ⟨_, format, entries, loadObservations_eq hopen hfates, hopen,
          labelled_of_harmless hnodup hentries, ?_⟩
        intro chars tooOld index
        rw [matchEntries_joinObservations, List.map_map]
        exact List.map_congr_left fun rec _ => record_matchRecord tooOld index rec

end Condition

/-- The line of a record whose `protocol` is an empty list. -/
def listProtocolLine : String := "\x7b\"protocol\":[]\x7d"

/-- What `json.loads` makes of that line. -/
def listProtocolLoads (text : String) : Except String Json :=
  if text = listProtocolLine then .ok (.obj [("protocol", .arr [])])
  else .error "Expecting value"

/-- Was the load ended by an exception that nobody raised on purpose? -/
def crashed {α : Type} : Except LoadFailure α → Bool
  | .error (.crash _) => true
  | _ => false

/-- One record with a list for a protocol ends the load. -/
theorem listProtocol_crashes :
    crashed (loadObservations sampleClock listProtocolLoads listProtocolLine) = true ∧
      ¬ LoadsEveryRecord sampleClock listProtocolLoads listProtocolLine := by
  have hcrashed : crashed (loadObservations sampleClock listProtocolLoads listProtocolLine) =
      true := by
    decide +kernel
  refine ⟨hcrashed, ?_⟩
  rintro (⟨error, hfile⟩ | ⟨out, format, entries, hout, -⟩)
  · rw [hfile] at hcrashed
    exact absurd hcrashed (by simp [crashed])
  · rw [hout] at hcrashed
    exact absurd hcrashed (by simp [crashed])

end PqcReadiness.Observations
