import PqcReadiness.Lib.Asn1
import PqcReadiness.Lib.Dict
import PqcReadiness.Lib.Utf8
import PqcReadiness.Packages.Rpmdb

/-!
# Header blobs

`parse_rpm_header` reads the package tags out of a header blob: a preamble with the two sizes, an
index of entries that each have a tag, a type, an offset and a count, and the data that the
entries point into.  The blob is the input, and every range of it that is read for a value is
logged.

The type of a value is that of the entry and not that of the tag, so a name can be a number.
`parseRpmHeader_iff` says when that does not happen.
-/

namespace PqcReadiness.Packages

open PqcReadiness.Lib PqcReadiness.Lib.Bytes

/-! ## The reader -/

/-- `_RPMTAG_NAMES`. -/
def rpmtagNames : List (ℕ × String) :=
  [(1000, "name"), (1001, "version"), (1002, "release"), (1003, "epoch"), (1022, "arch"),
    (1044, "sourcerpm")]

/-- `_RPM_TYPE_INT32`. -/
def rpmTypeInt32 : ℕ := 4

/-- `_RPM_TYPE_STRING`. -/
def rpmTypeString : ℕ := 6

/-- `_RPM_TYPE_I18NSTRING`. -/
def rpmTypeI18nstring : ℕ := 9

/-- `_RPM_HEADER_MAX_TAGS`. -/
def rpmHeaderMaxTags : ℕ := 0x0000FFFF

/-- `_RPM_HEADER_MAX_DATA`. -/
def rpmHeaderMaxData : ℕ := 0x0FFFFFFF

/-- An entry of the index. -/
structure IndexEntry where
  tag : ℕ
  typ : ℕ
  off : ℕ
  count : ℕ
  deriving DecidableEq

/-- A value of the record. -/
inductive HeaderValue where
  | text (value : String)
  | number (value : ℕ)
  deriving DecidableEq

/-- The record, by the names of the tags. -/
abbrev Header := Dict String HeaderValue

/-- A range of bytes that is read. -/
structure Span where
  start : ℕ
  stop : ℕ

/-- A reader that logs what it reads. -/
abbrev HeaderReader := Gen Fault Span

/-- The records of 16 bytes that a buffer starts with. -/
def entriesOf : ℕ → Bytes → List IndexEntry
  | 0, _ => []
  | count + 1, data =>
      ⟨field .big 4 data 0, field .big 4 data 4, field .big 4 data 8, field .big 4 data 12⟩ ::
        entriesOf count (data.drop 16)

/-- `struct.iter_unpack(">IIII", data)`. -/
def iterUnpack (data : Bytes) : Except Fault (List IndexEntry) := do
  raiseIf (data.length % 16 ≠ 0) .structError
  return entriesOf (data.length / 16) data

/-- `data.find(byte, start, stop)`; none is -1. -/
def findByte (byte : UInt8) (data : Bytes) (start stop : ℕ) : Option ℕ :=
  ((slice data start stop).findIdx? fun other => other = byte).map (start + ·)

/-- `_RPMTAG_NAMES.get(tag)`. -/
def IndexEntry.key (entry : IndexEntry) : Option String :=
  (rpmtagNames.find? fun name => name.1 = entry.tag).map Prod.snd

/-- Is it one of the two string types? -/
def IndexEntry.isText (entry : IndexEntry) : Bool :=
  entry.typ = rpmTypeString || entry.typ = rpmTypeI18nstring

/-- The value of an entry, if its type is one that is read. -/
def readValue (blob : Bytes) (base dl : ℕ) (entry : IndexEntry) :
    HeaderReader (Option HeaderValue) :=
  let tag := entry.tag
  let start := base + entry.off
  if entry.isText then
    match findByte 0 blob start (base + dl) with
    | none => do
        Gen.yield ⟨start, base + dl⟩
        throw (.rpmdb s!"tag {tag} string not terminated")
    | some stop => do
        Gen.yield ⟨start, stop + 1⟩
        Gen.yield ⟨start, stop⟩
        return some (.text (String.ofList (replaceUtf8From .start (slice blob start stop))))
  else if entry.typ = rpmTypeInt32 then do
    raiseIf (entry.off + 4 > dl) (Fault.rpmdb s!"tag {tag} int32 overruns data")
    Gen.yield ⟨start, start + 4⟩
    let value ← unpackNat .big 4 blob start
    return some (.number value)
  else return none

/-- One turn of the loop over the index. -/
def readEntry (blob : Bytes) (base dl : ℕ) (out : Header) (entry : IndexEntry) :
    HeaderReader Header :=
  match entry.key with
  | none => return out
  | some key => do
      let tag := entry.tag
      let off := entry.off
      raiseIf (off ≥ dl) (Fault.rpmdb s!"tag {tag} offset {off} outside data ({dl})")
      let value ← readValue blob base dl entry
      return match value with
        | none => out
        | some value => out.update key fun _ => value

/-- `parse_rpm_header`. -/
def parseRpmHeader (blob : Bytes) : HeaderReader Header := do
  raiseIf (blob.length < 8) (Fault.rpmdb "header blob shorter than its preamble")
  let preamble ← unpackFrom 8 blob 0
  let il := field .big 4 preamble 0
  let dl := field .big 4 preamble 4
  raiseIf (¬ (0 < il ∧ il ≤ rpmHeaderMaxTags) ∨ dl > rpmHeaderMaxData)
    (Fault.rpmdb s!"implausible header sizes il={il} dl={dl}")
  let base := 8 + 16 * il
  raiseIf (base + dl > blob.length) (Fault.rpmdb "header blob truncated")
  let entries ← iterUnpack (slice blob 8 base)
  let out ← entries.foldlM (readEntry blob base dl) .empty
  raiseIf ((out.get? "name").isNone ∨ (out.get? "version").isNone)
    (Fault.rpmdb "header has no NAME/VERSION")
  return out

/-! ## What is read for one entry -/

/-- The value can be read. -/
structure Readable (blob : Bytes) (base dl : ℕ) (entry : IndexEntry) : Prop where
  inside : entry.off < dl
  terminated : entry.isText = true → (findByte 0 blob (base + entry.off) (base + dl)).isSome
  fits : entry.isText = false → entry.typ = rpmTypeInt32 → entry.off + 4 ≤ dl

/-- The type is one that is read. -/
def IndexEntry.hasValue (entry : IndexEntry) : Bool :=
  entry.isText || entry.typ = rpmTypeInt32

/-- The value of an entry that can be read. -/
def valueAt (blob : Bytes) (base dl : ℕ) (entry : IndexEntry) : HeaderValue :=
  let start := base + entry.off
  if entry.isText then
    .text (String.ofList (replaceUtf8From .start
      (slice blob start ((findByte 0 blob start (base + dl)).getD 0))))
  else .number (field .big 4 blob start)

/-- What an entry that can be read makes of the record. -/
def addEntry (blob : Bytes) (base dl : ℕ) (out : Header) (entry : IndexEntry) : Header :=
  match entry.key with
  | none => out
  | some key => if entry.hasValue then out.update key fun _ => valueAt blob base dl entry else out

section Entry

variable {blob : Bytes} {base dl : ℕ} {entry : IndexEntry} {out : Header}

theorem findByte_some {byte : UInt8} {start stop found : ℕ}
    (hfound : findByte byte blob start stop = some found) :
    start ≤ found ∧ found < stop ∧ found < blob.length := by
  obtain ⟨index, hindex, rfl⟩ := Option.map_eq_some_iff.mp hfound
  obtain ⟨hlt, -⟩ := List.findIdx?_eq_some_iff_getElem.mp hindex
  rw [length_slice] at hlt
  omega

theorem isText_of_int32 (htyp : entry.typ = rpmTypeInt32) : entry.isText = false := by
  simp [IndexEntry.isText, htyp, rpmTypeInt32, rpmTypeString, rpmTypeI18nstring]

/-- The value of an entry, if nothing is wrong with it. -/
theorem readValue_of_readable (hblob : base + dl ≤ blob.length)
    (hreadable : Readable blob base dl entry) :
    (readValue blob base dl entry).ended =
      .ok (if entry.hasValue then some (valueAt blob base dl entry) else none) := by
  unfold readValue valueAt IndexEntry.hasValue
  dsimp only
  by_cases htext : entry.isText = true
  · obtain ⟨stop, hstop⟩ := Option.isSome_iff_exists.mp (hreadable.terminated htext)
    rw [if_pos htext, hstop, htext]
    rfl
  · rw [Bool.not_eq_true] at htext
    rw [htext]
    by_cases hint : entry.typ = rpmTypeInt32
    · have hfits := hreadable.fits htext hint
      rw [if_neg Bool.false_ne_true, if_pos hint, Gen.lift_bind_ok (raiseIf_of_not (by omega)),
        Gen.bind_of_ok rfl, Gen.lift_bind_ok (unpackNat_of_le (by omega))]
      simp [hint]
    · simp [hint]

/-- The other entries are refused. -/
theorem readEntry_of_not_readable (hkey : entry.key.isSome)
    (hreadable : ¬ Readable blob base dl entry) :
    ∃ message, (readEntry blob base dl out entry).ended = .error (.rpmdb message) := by
  obtain ⟨key, hkey⟩ := Option.isSome_iff_exists.mp hkey
  unfold readEntry
  rw [hkey]
  dsimp only
  by_cases hinside : entry.off < dl
  · rw [Gen.lift_bind_ok (raiseIf_of_not (by omega))]
    have hvalue : ∃ message, (readValue blob base dl entry).ended = .error (.rpmdb message) := by
      unfold readValue
      dsimp only
      by_cases htext : entry.isText = true
      · rw [if_pos htext]
        cases hfind : findByte 0 blob (base + entry.off) (base + dl) with
        | none => exact ⟨_, rfl⟩
        | some stop =>
            refine absurd ⟨hinside, fun _ => ?_, fun hnot => ?_⟩ hreadable
            · rw [hfind]
              rfl
            · rw [htext] at hnot
              cases hnot
      · have hint : entry.typ = rpmTypeInt32 ∧ dl < entry.off + 4 := by
          by_contra hnot
          refine hreadable ⟨hinside, fun htrue => absurd htrue htext, fun _ htyp => ?_⟩
          rw [not_and, not_lt] at hnot
          exact hnot htyp
        rw [if_neg htext, if_pos hint.1, Gen.lift_bind_error (raiseIf_of hint.2)]
        exact ⟨_, rfl⟩
    obtain ⟨message, hvalue⟩ := hvalue
    rw [Gen.bind_of_error hvalue]
    exact ⟨message, rfl⟩
  · rw [Gen.lift_bind_error (raiseIf_of (by omega))]
    exact ⟨_, rfl⟩

theorem readEntry_of_readable (hblob : base + dl ≤ blob.length)
    (hreadable : entry.key.isSome → Readable blob base dl entry) :
    (readEntry blob base dl out entry).ended = .ok (addEntry blob base dl out entry) := by
  unfold readEntry addEntry
  cases hkey : entry.key with
  | none => rfl
  | some key =>
      have hreadable := hreadable (by rw [hkey]; rfl)
      have hinside := hreadable.inside
      dsimp only
      rw [Gen.lift_bind_ok (raiseIf_of_not (by omega)),
        Gen.bind_of_ok (readValue_of_readable hblob hreadable), Gen.pure_ended]
      by_cases hvalue : entry.hasValue = true
      · rw [if_pos hvalue, if_pos hvalue]
      · rw [if_neg hvalue, if_neg hvalue]

/-- Whatever is read for an entry lies in the data. -/
theorem readEntry_log (hblob : base + dl ≤ blob.length) :
    ∀ span ∈ (readEntry blob base dl out entry).log, base ≤ span.start ∧ span.stop ≤ base + dl := by
  intro span hspan
  unfold readEntry at hspan
  cases hkey : entry.key with
  | none =>
      rw [hkey] at hspan
      cases hspan
  | some key =>
      rw [hkey] at hspan
      dsimp only at hspan
      by_cases hinside : entry.off < dl
      · rw [Gen.lift_bind_ok (raiseIf_of_not (by omega))] at hspan
        rcases Gen.mem_bind_log.mp hspan with hspan | ⟨_, _, hspan⟩
        · unfold readValue at hspan
          dsimp only at hspan
          by_cases htext : entry.isText = true
          · rw [if_pos htext] at hspan
            cases hfind : findByte 0 blob (base + entry.off) (base + dl) with
            | none =>
                rw [hfind] at hspan
                obtain rfl := List.mem_singleton.mp hspan
                exact ⟨Nat.le_add_right _ _, le_refl _⟩
            | some stop =>
                obtain ⟨-, hlt, -⟩ := findByte_some hfind
                rw [hfind] at hspan
                have hpair : span ∈ [Span.mk (base + entry.off) (stop + 1),
                    Span.mk (base + entry.off) stop] := hspan
                rcases List.mem_pair.mp hpair with rfl | rfl
                · exact ⟨Nat.le_add_right _ _, hlt⟩
                · exact ⟨Nat.le_add_right _ _, hlt.le⟩
          · rw [if_neg htext] at hspan
            by_cases hint : entry.typ = rpmTypeInt32
            · rw [if_pos hint] at hspan
              by_cases hfits : entry.off + 4 ≤ dl
              · rw [Gen.lift_bind_ok (raiseIf_of_not (by omega)), Gen.bind_of_ok rfl,
                  Gen.lift_bind_ok (unpackNat_of_le (by omega))] at hspan
                have hone : span ∈ [Span.mk (base + entry.off) (base + entry.off + 4)] := hspan
                obtain rfl := List.mem_singleton.mp hone
                exact ⟨Nat.le_add_right _ _, by dsimp only; omega⟩
              · rw [Gen.lift_bind_error (raiseIf_of (by omega))] at hspan
                cases hspan
            · rw [if_neg hint] at hspan
              cases hspan
        · cases hspan
      · rw [Gen.lift_bind_error (raiseIf_of (by omega))] at hspan
        cases hspan

end Entry

/-! ## The loop over the index -/

/-- The entries that a tag takes its value from. -/
def entriesFor (key : String) (entries : List IndexEntry) : List IndexEntry :=
  entries.filter fun entry => entry.key = some key && entry.hasValue

section Entries

variable {blob : Bytes} {base dl : ℕ} {out : Header} {entries : List IndexEntry}

theorem foldlM_readEntry (hblob : base + dl ≤ blob.length)
    (hreadable : ∀ entry ∈ entries, entry.key.isSome → Readable blob base dl entry) :
    (entries.foldlM (readEntry blob base dl) out).ended =
      .ok (entries.foldl (addEntry blob base dl) out) := by
  induction entries generalizing out with
  | nil => rfl
  | cons entry rest ih =>
      have hentry := @readEntry_of_readable _ _ _ _ out hblob
        (hreadable entry List.mem_cons_self)
      rw [List.foldlM_cons, List.foldl_cons, Gen.bind_of_ok hentry]
      exact ih fun other hother => hreadable other (List.mem_cons_of_mem entry hother)

theorem foldlM_readEntry_of_not (hblob : base + dl ≤ blob.length)
    (hreadable : ¬ ∀ entry ∈ entries, entry.key.isSome → Readable blob base dl entry) :
    ∃ message, (entries.foldlM (readEntry blob base dl) out).ended = .error (.rpmdb message) := by
  induction entries generalizing out with
  | nil =>
      refine absurd ?_ hreadable
      intro entry hentry
      cases hentry
  | cons entry rest ih =>
      rw [List.foldlM_cons]
      by_cases hentry : entry.key.isSome → Readable blob base dl entry
      · rw [Gen.bind_of_ok (readEntry_of_readable hblob hentry)]
        exact ih fun hrest => hreadable (List.forall_mem_cons.mpr ⟨hentry, hrest⟩)
      · rw [Classical.not_imp] at hentry
        obtain ⟨message, hmessage⟩ := @readEntry_of_not_readable _ _ _ _ out hentry.1 hentry.2
        rw [Gen.bind_of_error hmessage]
        exact ⟨message, rfl⟩

theorem foldlM_readEntry_log (hblob : base + dl ≤ blob.length) :
    ∀ span ∈ (entries.foldlM (readEntry blob base dl) out).log,
      base ≤ span.start ∧ span.stop ≤ base + dl := by
  intro span hspan
  induction entries generalizing out with
  | nil => cases hspan
  | cons entry rest ih =>
      rw [List.foldlM_cons] at hspan
      rcases Gen.mem_bind_log.mp hspan with hentry | ⟨next, _, hrest⟩
      · exact readEntry_log hblob span hentry
      · exact ih hrest

/-- A tag has the value of its last entry. -/
theorem get?_foldl_addEntry (key : String) :
    (entries.foldl (addEntry blob base dl) out).get? key =
      ((entriesFor key entries).getLast?.map (valueAt blob base dl)).or (out.get? key) := by
  induction entries generalizing out with
  | nil => rfl
  | cons entry rest ih =>
      rw [List.foldl_cons, ih]
      have hrest : ∀ other : Option HeaderValue, (addEntry blob base dl out entry).get? key = other →
          ((entriesFor key rest).getLast?.map (valueAt blob base dl)).or
            ((addEntry blob base dl out entry).get? key) =
          ((entriesFor key rest).getLast?.map (valueAt blob base dl)).or other := by
        rintro other rfl
        rfl
      by_cases hentry : entry.key = some key ∧ entry.hasValue = true
      · have hadd : (addEntry blob base dl out entry).get? key =
            some (valueAt blob base dl entry) := by
          unfold addEntry
          rw [hentry.1]
          dsimp only
          rw [if_pos hentry.2, Dict.get?_update, if_pos rfl]
        have hfilter : entriesFor key (entry :: rest) = entry :: entriesFor key rest :=
          List.filter_cons_of_pos (by simp [hentry])
        rw [hrest _ hadd, hfilter, List.getLast?_cons]
        cases (entriesFor key rest).getLast? <;> rfl
      · have hadd : (addEntry blob base dl out entry).get? key = out.get? key := by
          unfold addEntry
          cases hkey : entry.key with
          | none => rfl
          | some other =>
              dsimp only
              split
              · next hvalue =>
                  have hne : key ≠ other := by
                    rintro rfl
                    exact hentry ⟨hkey, hvalue⟩
                  rw [Dict.get?_update, if_neg hne]
              · rfl
        have hfilter : entriesFor key (entry :: rest) = entriesFor key rest :=
          List.filter_cons_of_neg (by simpa using hentry)
        rw [hrest _ hadd, hfilter]

end Entries

/-! ## The whole run -/

/-- `il`. -/
def entryCount (blob : Bytes) : ℕ := field .big 4 blob 0

/-- `dl`. -/
def dataLength (blob : Bytes) : ℕ := field .big 4 blob 4

/-- `base`. -/
def dataStart (blob : Bytes) : ℕ := 8 + 16 * entryCount blob

/-- The index. -/
def indexEntries (blob : Bytes) : List IndexEntry :=
  entriesOf (entryCount blob) (slice blob 8 (dataStart blob))

/-- The sizes are plausible and the blob is as long as they say. -/
structure SizesFit (blob : Bytes) : Prop where
  preamble : 8 ≤ blob.length
  count : 0 < entryCount blob ∧ entryCount blob ≤ rpmHeaderMaxTags
  data : dataLength blob ≤ rpmHeaderMaxData
  complete : dataStart blob + dataLength blob ≤ blob.length

/-- The blob is one that is not refused. -/
structure Accepted (blob : Bytes) : Prop extends SizesFit blob where
  readable : ∀ entry ∈ indexEntries blob, entry.key.isSome →
    Readable blob (dataStart blob) (dataLength blob) entry
  name : entriesFor "name" (indexEntries blob) ≠ []
  version : entriesFor "version" (indexEntries blob) ≠ []

/-- The record. -/
def headerOf (blob : Bytes) : Header :=
  (indexEntries blob).foldl (addEntry blob (dataStart blob) (dataLength blob)) .empty

section Run

variable {blob : Bytes}

theorem get?_headerOf (key : String) : (headerOf blob).get? key =
    (entriesFor key (indexEntries blob)).getLast?.map
      (valueAt blob (dataStart blob) (dataLength blob)) := by
  rw [headerOf, get?_foldl_addEntry, Dict.get?_empty, Option.or_none]

theorem isNone_get?_headerOf (key : String) :
    ((headerOf blob).get? key).isNone ↔ entriesFor key (indexEntries blob) = [] := by
  rw [get?_headerOf, Option.isNone_map, Option.isNone_iff_eq_none, List.getLast?_eq_none_iff]

/-- The run behind the checks of the sizes. -/
theorem parseRpmHeader_of_sizesFit (hsizes : SizesFit blob) : parseRpmHeader blob = (do
    let out ← (indexEntries blob).foldlM
      (readEntry blob (dataStart blob) (dataLength blob)) .empty
    raiseIf ((out.get? "name").isNone ∨ (out.get? "version").isNone)
      (Fault.rpmdb "header has no NAME/VERSION")
    return out) := by
  obtain ⟨hpreamble, hcount, hdata, hcomplete⟩ := hsizes
  have hil : field .big 4 (slice blob 0 (0 + 8)) 0 = entryCount blob := field_slice (by omega)
  have hdl : field .big 4 (slice blob 0 (0 + 8)) 4 = dataLength blob := field_slice (by omega)
  have hstart : 8 + 16 * entryCount blob = dataStart blob := rfl
  have hlength : (slice blob 8 (dataStart blob)).length = 16 * entryCount blob := by
    rw [length_slice_of_le (by omega)]
    omega
  have hunpack : iterUnpack (slice blob 8 (dataStart blob)) = .ok (indexEntries blob) := by
    rw [iterUnpack, raiseIf_of_not (by omega), ok_bind, hlength,
      Nat.mul_div_cancel_left _ (by decide)]
    rfl
  unfold parseRpmHeader
  rw [Gen.lift_bind_ok (raiseIf_of_not (by omega)),
    Gen.lift_bind_ok (unpackFrom_of_le (by omega))]
  dsimp only
  rw [hil, hdl, Gen.lift_bind_ok (raiseIf_of_not (by omega)), hstart,
    Gen.lift_bind_ok (raiseIf_of_not (by omega)), Gen.lift_bind_ok hunpack]

theorem parseRpmHeader_of_not_sizesFit (hsizes : ¬ SizesFit blob) :
    ∃ message, parseRpmHeader blob = ⟨[], .error (.rpmdb message)⟩ := by
  unfold parseRpmHeader
  by_cases hpreamble : 8 ≤ blob.length
  · have hil : field .big 4 (slice blob 0 (0 + 8)) 0 = entryCount blob := field_slice (by omega)
    have hdl : field .big 4 (slice blob 0 (0 + 8)) 4 = dataLength blob := field_slice (by omega)
    have hstart : 8 + 16 * entryCount blob = dataStart blob := rfl
    rw [Gen.lift_bind_ok (raiseIf_of_not (by omega)),
      Gen.lift_bind_ok (unpackFrom_of_le (by omega))]
    dsimp only
    rw [hil, hdl, hstart]
    by_cases hplausible : (0 < entryCount blob ∧ entryCount blob ≤ rpmHeaderMaxTags) ∧
        dataLength blob ≤ rpmHeaderMaxData
    · have hshort : dataStart blob + dataLength blob > blob.length := by
        by_contra hnot
        exact hsizes ⟨hpreamble, hplausible.1, hplausible.2, by omega⟩
      rw [Gen.lift_bind_ok (raiseIf_of_not (by omega)), Gen.lift_bind_error (raiseIf_of hshort)]
      exact ⟨_, rfl⟩
    · rw [Gen.lift_bind_error (raiseIf_of (by omega))]
      exact ⟨_, rfl⟩
  · rw [Gen.lift_bind_error (raiseIf_of (by omega))]
    exact ⟨_, rfl⟩

theorem parseRpmHeader_of_accepted (haccepted : Accepted blob) :
    (parseRpmHeader blob).ended = .ok (headerOf blob) := by
  have hname := mt (isNone_get?_headerOf "name").mp haccepted.name
  have hversion := mt (isNone_get?_headerOf "version").mp haccepted.version
  rw [parseRpmHeader_of_sizesFit haccepted.toSizesFit,
    Gen.bind_of_ok (foldlM_readEntry haccepted.complete haccepted.readable)]
  rw [← headerOf, Gen.lift_bind_ok (raiseIf_of_not (not_or.mpr ⟨hname, hversion⟩))]
  rfl

theorem parseRpmHeader_of_not_accepted (haccepted : ¬ Accepted blob) :
    ∃ message, (parseRpmHeader blob).ended = .error (.rpmdb message) := by
  by_cases hsizes : SizesFit blob
  · rw [parseRpmHeader_of_sizesFit hsizes]
    by_cases hreadable : ∀ entry ∈ indexEntries blob, entry.key.isSome →
        Readable blob (dataStart blob) (dataLength blob) entry
    · have hmissing : ((headerOf blob).get? "name").isNone ∨
          ((headerOf blob).get? "version").isNone := by
        by_contra hnot
        rw [not_or, isNone_get?_headerOf, isNone_get?_headerOf] at hnot
        exact haccepted ⟨hsizes, hreadable, hnot.1, hnot.2⟩
      rw [Gen.bind_of_ok (foldlM_readEntry hsizes.complete hreadable), ← headerOf,
        Gen.lift_bind_error (raiseIf_of hmissing)]
      exact ⟨_, rfl⟩
    · obtain ⟨message, hmessage⟩ := foldlM_readEntry_of_not hsizes.complete hreadable
      rw [Gen.bind_of_error hmessage]
      exact ⟨message, rfl⟩
  · obtain ⟨message, hmessage⟩ := parseRpmHeader_of_not_sizesFit hsizes
    rw [hmessage]
    exact ⟨message, rfl⟩

/-- Whatever is read for a value lies in the data. -/
theorem parseRpmHeader_log : ∀ span ∈ (parseRpmHeader blob).log,
    dataStart blob ≤ span.start ∧ span.stop ≤ dataStart blob + dataLength blob := by
  intro span hspan
  by_cases hsizes : SizesFit blob
  · rw [parseRpmHeader_of_sizesFit hsizes] at hspan
    rcases Gen.mem_bind_log.mp hspan with hloop | ⟨out, _, hcheck⟩
    · exact foldlM_readEntry_log hsizes.complete span hloop
    · rcases Gen.mem_bind_log.mp hcheck with hcheck | ⟨_, _, hreturn⟩
      · cases hcheck
      · cases hreturn
  · obtain ⟨message, hmessage⟩ := parseRpmHeader_of_not_sizesFit hsizes
    rw [hmessage] at hspan
    cases hspan

end Run

/-! ## What the consumers assume -/

/-- Is it a string? -/
def HeaderValue.IsText (value : HeaderValue) : Prop := ∃ text, value = .text text

/-- Name and version are strings, and so are release and arch if they are present. -/
structure TypedRecord (record : Header) : Prop where
  name : ∃ value, record.get? "name" = some value ∧ value.IsText
  version : ∃ value, record.get? "version" = some value ∧ value.IsText
  release : ∀ value, record.get? "release" = some value → value.IsText
  arch : ∀ value, record.get? "arch" = some value → value.IsText

/-- A refusal, or a record with these types. -/
def TypedOutcome : Except Fault Header → Prop
  | .error fault => fault.IsRpmdbError
  | .ok record => TypedRecord record

/-- The last entry of each of these tags that has a value is a string. -/
def LastEntriesAreText (blob : Bytes) : Prop :=
  ∀ key ∈ ["name", "version", "release", "arch"],
    ∀ entry, (entriesFor key (indexEntries blob)).getLast? = some entry → entry.isText = true

section Typed

variable {blob : Bytes}

theorem valueAt_isText_iff {base dl : ℕ} {entry : IndexEntry} :
    (valueAt blob base dl entry).IsText ↔ entry.isText = true := by
  unfold valueAt
  by_cases htext : entry.isText = true
  · simp [htext, HeaderValue.IsText]
  · simp [htext, HeaderValue.IsText]

/-- The values of a tag are strings. -/
theorem isText_headerOf_iff (key : String) :
    (∀ value, (headerOf blob).get? key = some value → value.IsText) ↔
      ∀ entry, (entriesFor key (indexEntries blob)).getLast? = some entry →
        entry.isText = true := by
  rw [get?_headerOf]
  cases hlast : (entriesFor key (indexEntries blob)).getLast? with
  | none => simp
  | some last => simp [valueAt_isText_iff]

theorem present_headerOf {key : String} (hpresent : entriesFor key (indexEntries blob) ≠ []) :
    (∃ value, (headerOf blob).get? key = some value ∧ value.IsText) ↔
      ∀ value, (headerOf blob).get? key = some value → value.IsText := by
  have hsome : ((headerOf blob).get? key).isSome := by
    by_contra hnone
    exact hpresent ((isNone_get?_headerOf key).mp (by simpa using hnone))
  obtain ⟨value, hvalue⟩ := Option.isSome_iff_exists.mp hsome
  simp [hvalue]

theorem typedRecord_headerOf_iff (haccepted : Accepted blob) :
    TypedRecord (headerOf blob) ↔ LastEntriesAreText blob := by
  have hname := present_headerOf haccepted.name
  have hversion := present_headerOf haccepted.version
  have hlast : LastEntriesAreText blob ↔ ∀ key ∈ ["name", "version", "release", "arch"],
      ∀ value, (headerOf blob).get? key = some value → value.IsText :=
    forall₂_congr fun key _ => (isText_headerOf_iff key).symm
  rw [hlast]
  constructor
  · rintro ⟨hn, hv, hrelease, harch⟩ key hkey
    simp only [List.mem_cons, List.not_mem_nil, or_false] at hkey
    rcases hkey with rfl | rfl | rfl | rfl
    · exact hname.mp hn
    · exact hversion.mp hv
    · exact hrelease
    · exact harch
  · intro hall
    exact ⟨hname.mpr (hall "name" (by simp)), hversion.mpr (hall "version" (by simp)),
      hall "release" (by simp), hall "arch" (by simp)⟩

/-- The types are right, exactly if a header that is accepted has strings where they matter. -/
theorem typedOutcome_iff :
    TypedOutcome (parseRpmHeader blob).ended ↔ (Accepted blob → LastEntriesAreText blob) := by
  by_cases haccepted : Accepted blob
  · have hended : TypedOutcome (parseRpmHeader blob).ended ↔ TypedRecord (headerOf blob) := by
      rw [parseRpmHeader_of_accepted haccepted]
      rfl
    rw [hended, typedRecord_headerOf_iff haccepted]
    exact ⟨fun hlast _ => hlast, fun himplies => himplies haccepted⟩
  · obtain ⟨message, hmessage⟩ := parseRpmHeader_of_not_accepted haccepted
    rw [hmessage]
    exact iff_of_true trivial fun hnot => absurd hnot haccepted

end Typed

/-! ## Encoded headers -/

/-- A text without NUL. -/
structure HeaderText where
  chars : List Char
  noNul : '\x00' ∉ chars

/-- A value of a tag. -/
inductive TagValue where
  | text (value : HeaderText)
  | number (value : UInt32)

/-- The value as the reader returns it. -/
def TagValue.header : TagValue → HeaderValue
  | .text value => .text (String.ofList value.chars)
  | .number value => .number value.toNat

/-- The values of the tags that are read. -/
structure PackageTags where
  name : HeaderText
  version : HeaderText
  release : Option HeaderText
  epoch : Option UInt32
  arch : Option HeaderText
  sourcerpm : Option HeaderText

/-- The value of a tag. -/
def PackageTags.get (tags : PackageTags) (key : String) : Option TagValue :=
  if key = "name" then some (.text tags.name)
  else if key = "version" then some (.text tags.version)
  else if key = "release" then tags.release.map .text
  else if key = "epoch" then tags.epoch.map .number
  else if key = "arch" then tags.arch.map .text
  else if key = "sourcerpm" then tags.sourcerpm.map .text
  else none

/-- The entry has the type of the value, and the value stands where it points. -/
def IndexEntry.Holds (entry : IndexEntry) (data : Bytes) : TagValue → Prop
  | .text value => entry.isText = true ∧ StandsAt data entry.off (encodeUtf8 value.chars ++ [0])
  | .number value =>
      entry.typ = rpmTypeInt32 ∧ StandsAt data entry.off (ofNat .big 4 value.toNat)

/-- The bytes of an entry. -/
def IndexEntry.encode (entry : IndexEntry) : Bytes :=
  ofNat .big 4 entry.tag ++ ofNat .big 4 entry.typ ++ ofNat .big 4 entry.off ++
    ofNat .big 4 entry.count

/-- An index and data in which these values stand, and anything else. -/
structure Layout (tags : PackageTags) where
  index : List IndexEntry
  data : Bytes
  words : ∀ entry ∈ index, entry.tag < 2 ^ 32 ∧ entry.typ < 2 ^ 32 ∧ entry.off < 2 ^ 32 ∧
    entry.count < 2 ^ 32
  count : index.length ≤ rpmHeaderMaxTags
  size : data.length ≤ rpmHeaderMaxData
  present : ∀ key value, tags.get key = some value → ∃ entry ∈ index, entry.key = some key
  holds : ∀ entry ∈ index, ∀ key, entry.key = some key →
    ∃ value, tags.get key = some value ∧ entry.Holds data value

/-- The bytes of a header. -/
def Layout.encode {tags : PackageTags} (layout : Layout tags) : Bytes :=
  ofNat .big 4 layout.index.length ++ ofNat .big 4 layout.data.length ++
    layout.index.flatMap IndexEntry.encode ++ layout.data

section Encoded

theorem length_encode (entry : IndexEntry) : entry.encode.length = 16 := by
  simp [IndexEntry.encode]

theorem length_flatMap_encode (index : List IndexEntry) :
    (index.flatMap IndexEntry.encode).length = 16 * index.length := by
  induction index with
  | nil => rfl
  | cons entry rest ih =>
      rw [List.flatMap_cons, List.length_append, ih, length_encode, List.length_cons]
      omega

theorem field_standsAt {blob : Bytes} {pos width n : ℕ}
    (hstands : StandsAt blob pos (ofNat .big width n)) (hn : n < 256 ^ width) :
    field .big width blob pos = n := by
  have hslice := hstands.slice
  rw [length_ofNat] at hslice
  rw [field, hslice, toNat_ofNat hn]

/-- The index is read back. -/
theorem entriesOf_flatMap {index : List IndexEntry} (hwords : ∀ entry ∈ index,
    entry.tag < 2 ^ 32 ∧ entry.typ < 2 ^ 32 ∧ entry.off < 2 ^ 32 ∧ entry.count < 2 ^ 32) :
    entriesOf index.length (index.flatMap IndexEntry.encode) = index := by
  induction index with
  | nil => rfl
  | cons entry rest ih =>
      obtain ⟨htag, htyp, hoff, hcount⟩ := hwords entry List.mem_cons_self
      have hstands : StandsAt ((entry :: rest).flatMap IndexEntry.encode) 0
          (ofNat .big 4 entry.tag ++ ofNat .big 4 entry.typ ++ ofNat .big 4 entry.off ++
            ofNat .big 4 entry.count) :=
        (standsAt_self ((entry :: rest).flatMap IndexEntry.encode)).left
      have hrest : ((entry :: rest).flatMap IndexEntry.encode).drop 16 =
          rest.flatMap IndexEntry.encode := by
        rw [List.flatMap_cons, List.drop_left' (length_encode entry)]
      have htag := field_standsAt hstands.left.left.left htag
      have htyp := field_standsAt hstands.left.left.right htyp
      have hoff := field_standsAt hstands.left.right hoff
      have hcount := field_standsAt hstands.right hcount
      simp only [List.length_append, length_ofNat, Nat.zero_add, Nat.reduceAdd] at htyp hoff hcount
      rw [List.length_cons, entriesOf, hrest,
        ih fun other hother => hwords other (List.mem_cons_of_mem entry hother),
        htag, htyp, hoff, hcount]

theorem standsAt_trans {blob data part : Bytes} {base off : ℕ} (hdata : StandsAt blob base data)
    (hpart : StandsAt data off part) : StandsAt blob (base + off) part := by
  obtain ⟨before, after, rfl, rfl⟩ := hdata
  obtain ⟨first, last, rfl, rfl⟩ := hpart
  exact ⟨before ++ first, last ++ after, by simp, by simp⟩

/-- The byte behind a text without it is found. -/
theorem findByte_standsAt {blob text : Bytes} {byte : UInt8} {pos stop : ℕ}
    (hstands : StandsAt blob pos (text ++ [byte])) (htext : byte ∉ text)
    (hstop : pos + text.length < stop) : findByte byte blob pos stop = some (pos + text.length) := by
  obtain ⟨before, after, rfl, rfl⟩ := hstands
  have hslice : slice (before ++ (text ++ [byte]) ++ after) before.length stop =
      text ++ byte :: (after.take (stop - before.length - text.length - 1)) := by
    rw [slice, List.append_assoc, List.drop_left, List.append_assoc, List.take_append,
      List.take_of_length_le (by omega)]
    obtain ⟨more, hmore⟩ : ∃ more, stop - before.length - text.length = more + 1 :=
      ⟨stop - before.length - text.length - 1, by omega⟩
    rw [hmore]
    simp
  have hfind : (text ++ byte :: after.take (stop - before.length - text.length - 1)).findIdx?
      (fun other => other = byte) = some text.length := by
    rw [List.findIdx?_append, List.findIdx?_eq_none_iff.mpr]
    · simp [List.findIdx?_cons]
    · intro other hother
      simp only [decide_eq_false_iff_not]
      rintro rfl
      exact htext hother
  rw [findByte, hslice, hfind]
  rfl

variable {tags : PackageTags} {blob data : Bytes} {base : ℕ} {entry : IndexEntry}

theorem isText_or_of_holds {value : TagValue} (hholds : entry.Holds data value) :
    entry.hasValue = true := by
  unfold IndexEntry.hasValue
  cases value with
  | text text => simp [hholds.1]
  | number number => simp [hholds.1]

/-- An entry whose value stands in the data can be read. -/
theorem readable_of_holds {value : TagValue} (hdata : StandsAt blob base data)
    (hholds : entry.Holds data value) : Readable blob base data.length entry := by
  cases value with
  | text text =>
      obtain ⟨htext, hstands⟩ := hholds
      have hle := hstands.le
      rw [List.length_append, List.length_singleton] at hle
      refine ⟨by omega, fun _ => ?_, fun hnot => ?_⟩
      · rw [findByte_standsAt (standsAt_trans hdata hstands) (zero_notMem_encodeUtf8 text.noNul)
          (by omega)]
        rfl
      · rw [htext] at hnot
        cases hnot
  | number number =>
      obtain ⟨htyp, hstands⟩ := hholds
      have hle := hstands.le
      rw [length_ofNat] at hle
      refine ⟨by omega, fun htext => ?_, fun _ _ => hle⟩
      rw [isText_of_int32 htyp] at htext
      cases htext

theorem valueAt_of_holds {value : TagValue} (hdata : StandsAt blob base data)
    (hholds : entry.Holds data value) : valueAt blob base data.length entry = value.header := by
  unfold valueAt
  dsimp only
  cases value with
  | text text =>
      obtain ⟨htext, hstands⟩ := hholds
      have hle := hstands.le
      rw [List.length_append, List.length_singleton] at hle
      have hblob := standsAt_trans hdata hstands
      rw [if_pos htext, findByte_standsAt hblob (zero_notMem_encodeUtf8 text.noNul) (by omega),
        Option.getD_some, hblob.left.slice, replaceUtf8_encode]
      rfl
  | number number =>
      obtain ⟨htyp, hstands⟩ := hholds
      rw [isText_of_int32 htyp, if_neg Bool.false_ne_true,
        field_standsAt (standsAt_trans hdata hstands) number.toNat_lt]
      rfl

theorem length_layout_encode (layout : Layout tags) :
    layout.encode.length = 8 + 16 * layout.index.length + layout.data.length := by
  simp only [Layout.encode, List.length_append, length_ofNat, length_flatMap_encode]

/-- What stands where in an encoded header. -/
theorem layout_parts (layout : Layout tags) :
    entryCount layout.encode = layout.index.length ∧
      dataLength layout.encode = layout.data.length ∧
      indexEntries layout.encode = layout.index ∧
      StandsAt layout.encode (dataStart layout.encode) layout.data := by
  have hcount := layout.count
  have hsize := layout.size
  unfold rpmHeaderMaxTags at hcount
  unfold rpmHeaderMaxData at hsize
  have hwhole : StandsAt layout.encode 0 (ofNat .big 4 layout.index.length ++
      ofNat .big 4 layout.data.length ++ layout.index.flatMap IndexEntry.encode ++ layout.data) :=
    standsAt_self layout.encode
  have hil : entryCount layout.encode = layout.index.length :=
    field_standsAt hwhole.left.left.left (by omega)
  have hdl : dataLength layout.encode = layout.data.length := by
    have hstands := hwhole.left.left.right
    rw [length_ofNat] at hstands
    exact field_standsAt hstands (by omega)
  have hstart : dataStart layout.encode = 8 + 16 * layout.index.length := by
    rw [dataStart, hil]
  refine ⟨hil, hdl, ?_, ?_⟩
  · have hindex := hwhole.left.right.slice
    simp only [List.length_append, length_ofNat, length_flatMap_encode, Nat.zero_add,
      Nat.reduceAdd] at hindex
    rw [indexEntries, hil, hstart, hindex, entriesOf_flatMap layout.words]
  · have hdata := hwhole.right
    simp only [List.length_append, length_ofNat, length_flatMap_encode, Nat.zero_add,
      Nat.reduceAdd] at hdata
    rw [hstart]
    exact hdata

theorem mem_entriesFor {key : String} {entries : List IndexEntry} :
    entry ∈ entriesFor key entries ↔
      entry ∈ entries ∧ entry.key = some key ∧ entry.hasValue = true := by
  rw [entriesFor, List.mem_filter, Bool.and_eq_true, decide_eq_true_iff]

theorem entriesFor_layout (layout : Layout tags) {key : String} {value : TagValue}
    (hvalue : tags.get key = some value) : entriesFor key layout.index ≠ [] := by
  obtain ⟨entry, hentry, hkey⟩ := layout.present key value hvalue
  obtain ⟨_, _, hholds⟩ := layout.holds entry hentry key hkey
  exact List.ne_nil_of_mem (mem_entriesFor.mpr ⟨hentry, hkey, isText_or_of_holds hholds⟩)

theorem layout_accepted (layout : Layout tags) : Accepted layout.encode := by
  obtain ⟨hil, hdl, hindex, hdata⟩ := layout_parts layout
  have hlength := length_layout_encode layout
  have hname := @entriesFor_layout _ layout "name" _ rfl
  have hversion := @entriesFor_layout _ layout "version" _ rfl
  have hpos : 0 < layout.index.length := by
    refine List.length_pos_of_ne_nil fun hnil => hname ?_
    rw [hnil]
    rfl
  refine ⟨⟨by omega, ?_, ?_, ?_⟩, ?_, ?_, ?_⟩
  · rw [hil]
    exact ⟨hpos, layout.count⟩
  · rw [hdl]
    exact layout.size
  · rw [dataStart, hil, hdl, hlength]
  · rw [hindex, hdl]
    intro entry hentry hkey
    obtain ⟨key, hkey⟩ := Option.isSome_iff_exists.mp hkey
    obtain ⟨_, _, hholds⟩ := layout.holds entry hentry key hkey
    exact readable_of_holds hdata hholds
  · rw [hindex]
    exact hname
  · rw [hindex]
    exact hversion

/-- An encoded header is read back. -/
theorem parse_layout (layout : Layout tags) :
    ∃ record, (parseRpmHeader layout.encode).ended = .ok record ∧
      ∀ key, record.get? key = (tags.get key).map TagValue.header := by
  obtain ⟨hil, hdl, hindex, hdata⟩ := layout_parts layout
  refine ⟨headerOf layout.encode, parseRpmHeader_of_accepted (layout_accepted layout),
    fun key => ?_⟩
  rw [get?_headerOf, hindex, hdl]
  cases hlast : (entriesFor key layout.index).getLast? with
  | none =>
      have hnil := List.getLast?_eq_none_iff.mp hlast
      cases hvalue : tags.get key with
      | none => rfl
      | some value => exact absurd hnil (entriesFor_layout layout hvalue)
  | some last =>
      obtain ⟨hentry, hkey, _⟩ := mem_entriesFor.mp (List.mem_of_getLast? hlast)
      obtain ⟨value, hvalue, hholds⟩ := layout.holds last hentry key hkey
      rw [hvalue, Option.map_some, Option.map_some, valueAt_of_holds hdata hholds]

end Encoded

/-- **A blob is refused or gives a record with strings where they are assumed, exactly if the last
entries with a value of the tags in question are strings where the blob is accepted.  What is read
lies in the data, and every encoding of a header is read back.** -/
theorem parseRpmHeader_iff (blob : Bytes) (tags : PackageTags) (layout : Layout tags) :
    (TypedOutcome (parseRpmHeader blob).ended ↔ (Accepted blob → LastEntriesAreText blob)) ∧
    (∀ span ∈ (parseRpmHeader blob).log,
      dataStart blob ≤ span.start ∧ span.stop ≤ dataStart blob + dataLength blob) ∧
    ∃ record, (parseRpmHeader layout.encode).ended = .ok record ∧
      ∀ key, record.get? key = (tags.get key).map TagValue.header :=
  ⟨typedOutcome_iff, parseRpmHeader_log, parse_layout layout⟩

/-- A header with a number for a name. -/
def numberedHeader : Bytes :=
  ofNat .big 4 2 ++ ofNat .big 4 6 ++ IndexEntry.encode ⟨1000, 4, 0, 1⟩ ++
    IndexEntry.encode ⟨1001, 6, 4, 1⟩ ++ [0, 0, 0, 7, 0x31, 0]

theorem not_typed_numberedHeader : ∃ record,
    (parseRpmHeader numberedHeader).ended = .ok record ∧ record.get? "name" = some (.number 7) ∧
      ¬ TypedOutcome (parseRpmHeader numberedHeader).ended := by
  have hended : (parseRpmHeader numberedHeader).ended = .ok (headerOf numberedHeader) := by
    rfl
  have hname : (headerOf numberedHeader).get? "name" = some (.number 7) := by decide +kernel
  refine ⟨_, hended, hname, fun htyped => ?_⟩
  rw [hended] at htyped
  obtain ⟨value, hvalue, text, htext⟩ := htyped.name
  rw [hname, htext] at hvalue
  cases hvalue

/-- The name `a` and the version `1` of epoch 5. -/
def smallTags : PackageTags := ⟨⟨['a'], by decide⟩, ⟨['1'], by decide⟩, none, some 5, none, none⟩

/-- A layout of them, with an entry of another tag that points out of the data. -/
def smallLayout : Layout smallTags where
  index := [⟨1003, 4, 4, 1⟩, ⟨62, 7, 0xFFFF, 16⟩, ⟨1001, 6, 2, 1⟩, ⟨1000, 9, 0, 1⟩]
  data := [0x61, 0, 0x31, 0, 0, 0, 0, 5]
  words := by decide
  count := by decide
  size := by decide
  present := by
    intro key value hvalue
    unfold PackageTags.get at hvalue
    split_ifs at hvalue with hname hversion hrelease hepoch harch hsource
    · exact ⟨⟨1000, 9, 0, 1⟩, by decide, by rw [hname]; decide⟩
    · exact ⟨⟨1001, 6, 2, 1⟩, by decide, by rw [hversion]; decide⟩
    · cases hvalue
    · exact ⟨⟨1003, 4, 4, 1⟩, by decide, by rw [hepoch]; decide⟩
    · cases hvalue
    · cases hvalue
  holds := by
    intro entry hentry key hkey
    simp only [List.mem_cons, List.not_mem_nil, or_false] at hentry
    rcases hentry with rfl | rfl | rfl | rfl
    · obtain rfl : "epoch" = key := Option.some.inj hkey
      exact ⟨.number 5, rfl, rfl, [0x61, 0, 0x31, 0], [], by decide, rfl⟩
    · cases hkey
    · obtain rfl : "version" = key := Option.some.inj hkey
      exact ⟨.text ⟨['1'], by decide⟩, rfl, rfl, [0x61, 0], [0, 0, 0, 5], by decide, rfl⟩
    · obtain rfl : "name" = key := Option.some.inj hkey
      exact ⟨.text ⟨['a'], by decide⟩, rfl, rfl, [], [0x31, 0, 0, 0, 0, 5], by decide, rfl⟩

theorem smallLayout_parsed : ∃ record, (parseRpmHeader smallLayout.encode).ended = .ok record ∧
    record.get? "name" = some (.text "a") ∧ record.get? "epoch" = some (.number 5) ∧
      record.get? "release" = none := by
  obtain ⟨record, hrecord, hvalues⟩ := (parseRpmHeader_iff [] smallTags smallLayout).2.2
  exact ⟨record, hrecord, hvalues "name", hvalues "epoch", hvalues "release"⟩

end PqcReadiness.Packages
