import PqcReadiness.Packages.Rpmdb

/-!
# The ndb reader

Which slots of an ndb file the reader takes, skips and refuses, stated on the bytes of
the file: `FreeSlot`, `PackageSlot`, and everything else.

## Strategy

`slotBlob` is one `do` block, and each of its four outcomes has its own condition on the
slot.  The condition for `struct.error` is `EmptySlot`: a used slot of no blocks passes
the check of its bounds, its region is empty, and the blob head is unpacked from it
before the head's block count could be compared.

The loop over the slots stops at the first slot that is neither free nor intact, so
`struct.error` leaves the generator exactly if an `EmptySlot` comes before every other
slot that is refused (`EmptySlotReached`).
-/

namespace PqcReadiness.Packages

open PqcReadiness.Lib PqcReadiness.Lib.Bytes

/-! ## Records -/

section Records

variable {data : Bytes} {off : ℕ}

theorem ndbRecord_slice {start stop first : ℕ} (hinside : first + 16 ≤ stop - start) :
    ndbRecord (slice data start stop) first = ndbRecord data (start + first) := by
  rw [ndbRecord, ndbRecord, slice_slice (by omega), field_slice (by omega),
    field_slice (by omega), field_slice (by omega)]
  simp only [Nat.add_assoc]

theorem unpackRecord_of_le (hinside : off + 16 ≤ data.length) :
    unpackRecord data off = .ok (ndbRecord data off) := by
  rw [unpackRecord, unpackFrom_of_le hinside]
  show Except.ok (ndbRecord (slice data off (off + 16)) 0) = _
  rw [ndbRecord_slice (by omega), Nat.add_zero]

theorem unpackRecord_of_lt (hshort : data.length < off + 16) :
    unpackRecord data off = .error .structError := by
  rw [unpackRecord, unpackFrom_of_lt hshort]
  rfl

end Records

/-! ## The region of a slot -/

/-- A region with a head, a blob and a tail that belong together. -/
structure IntactRegion (zlib : Bool) (pkgidx blkcnt : ℕ) (region blob : Bytes) : Prop where
  start : slice region 0 4 = blobStartMagic
  index : field .little 4 region 4 = pkgidx
  length : field .little 4 region 12 = blob.length
  blocks : blkcnt = blobBlocks blob.length
  data : slice region ndbBlobhead (ndbBlobhead + blob.length) = blob
  finish : slice region (region.length - 4) region.length = blobEndMagic
  tailLength : field .little 4 region (region.length - 8) = blob.length
  checksum : zlib = true →
    adler32 (region.take (region.length - ndbBlobtail)) =
      field .little 4 region (region.length - ndbBlobtail)

section Region

variable {zlib : Bool} {pkgidx blkcnt : ℕ} {region blob : Bytes}

/-- A region that holds a blob of its claimed length has room for it. -/
theorem blobBlocks_room (blen : ℕ) :
    ndbBlobhead + blen + ndbBlobtail ≤ blobBlocks blen * ndbBlk := by
  unfold blobBlocks ndbBlobhead ndbBlobtail ndbBlk
  omega

/-- The checks of a region, on the region itself. -/
theorem regionBlob_eq (hlength : region.length = blkcnt * ndbBlk) (hblocks : 0 < blkcnt) :
    regionBlob zlib pkgidx blkcnt region =
      if slice region 0 4 ≠ blobStartMagic ∨ field .little 4 region 4 ≠ pkgidx ∨
          blkcnt ≠ blobBlocks (field .little 4 region 12) then
        .error (.rpmdb s!"bad ndb blob for package index {pkgidx}")
      else if slice region (region.length - 4) region.length ≠ blobEndMagic ∨
          field .little 4 region (region.length - 8) ≠ field .little 4 region 12 then
        .error (.rpmdb s!"bad ndb blob trailer for package index {pkgidx}")
      else if zlib ∧ adler32 (region.take (region.length - ndbBlobtail)) ≠
          field .little 4 region (region.length - ndbBlobtail) then
        .error (.rpmdb s!"ndb blob checksum mismatch for package index {pkgidx}")
      else .ok (slice region ndbBlobhead (ndbBlobhead + field .little 4 region 12)) := by
  have hhead : 0 + 16 ≤ region.length := by
    rw [hlength]
    unfold ndbBlk
    omega
  rw [regionBlob, unpackRecord_of_le hhead, ok_bind, raiseIf_bind]
  refine ite_congr rfl (fun _ => rfl) fun hgood => ?_
  -- The head passed, so that the region has room for a tail.
  have hroom := blobBlocks_room (field .little 4 region 12)
  rw [not_or, not_or, not_not, not_not, not_not] at hgood
  rw [← hgood.2.2, ← hlength] at hroom
  unfold ndbBlobhead ndbBlobtail at hroom
  have htail : region.length - ndbBlobtail + 12 = region.length := by
    unfold ndbBlobtail
    omega
  rw [unpackFrom_of_le (le_of_eq htail), ok_bind, raiseIf_bind, raiseIf_bind, htail,
    slice_slice (by unfold ndbBlobtail; omega), field_slice (by unfold ndbBlobtail; omega),
    field_slice (by unfold ndbBlobtail; omega)]
  have hfinish : region.length - ndbBlobtail + 8 = region.length - 4 := by
    unfold ndbBlobtail
    omega
  have htailLength : region.length - ndbBlobtail + 4 = region.length - 8 := by
    unfold ndbBlobtail
    omega
  rw [hfinish, htailLength, htail]
  rfl

/-- A region with a block is refused unless it is intact. -/
theorem regionBlob_spec (zlib : Bool) (pkgidx : ℕ) (hlength : region.length = blkcnt * ndbBlk) (hblocks : 0 < blkcnt) :
    FailsOnly Fault.IsRpmdbError (regionBlob zlib pkgidx blkcnt region) ∧
      ∀ blob, regionBlob zlib pkgidx blkcnt region = .ok blob ↔
        IntactRegion zlib pkgidx blkcnt region blob := by
  rw [regionBlob_eq hlength hblocks]
  constructor
  · split_ifs
    · exact FailsOnly.error.mpr trivial
    · exact FailsOnly.error.mpr trivial
    · exact FailsOnly.error.mpr trivial
    · exact FailsOnly.ok _
  · intro blob
    constructor
    · intro hblob
      split_ifs at hblob with hhead htail hsum
      obtain rfl := Except.ok.inj hblob
      simp only [not_or, not_and, not_not] at hhead htail hsum
      have hroom := blobBlocks_room (field .little 4 region 12)
      rw [← hhead.2.2, ← hlength] at hroom
      have hblen : (slice region ndbBlobhead
          (ndbBlobhead + field .little 4 region 12)).length = field .little 4 region 12 := by
        rw [length_slice_of_le (by omega)]
        omega
      refine ⟨hhead.1, hhead.2.1, hblen.symm, ?_, ?_, htail.1, ?_, hsum⟩
      · rw [hblen]
        exact hhead.2.2
      · rw [hblen]
      · rw [hblen]
        exact htail.2
    · intro hintact
      rw [hintact.length, if_neg, if_neg, if_neg, hintact.data]
      · rintro ⟨hzlib, hsum⟩
        exact hsum (hintact.checksum hzlib)
      · rintro (hfinish | htail)
        · exact hfinish hintact.finish
        · exact htail hintact.tailLength
      · rintro (hstart | hindex | hneed)
        · exact hstart hintact.start
        · exact hindex hintact.index
        · exact hneed hintact.blocks

/-- Without a block there is no head to unpack. -/
theorem regionBlob_nil : regionBlob zlib pkgidx blkcnt [] = .error .structError := by
  rw [regionBlob, unpackRecord_of_lt (by simp)]
  rfl

end Region

/-! ## Slots -/

/-- The offsets of the slots. -/
def slotOffsets (slotnpages : ℕ) : List ℕ := rangeStep ndbHeader (slotnpages * ndbPage) ndbSlot

/-- The file starts with a header that the reader accepts. -/
structure NdbHeader (file : Bytes) (slotnpages : ℕ) : Prop where
  room : ndbHeader ≤ file.length
  magic : slice file 0 4 = ndbMagic
  version : field .little 4 file 4 = 0
  pages : field .little 4 file 12 = slotnpages
  aligned : file.length % ndbBlk = 0
  positive : 0 < slotnpages
  bounded : slotnpages ≤ ndbMaxSlotnpages
  fits : slotnpages * ndbPage ≤ file.length

/-- A slot that is not in use. -/
structure FreeSlot (file : Bytes) (off : ℕ) : Prop where
  magic : slice file off (off + 4) = slotMagic
  free : field .little 4 file (off + 8) = 0

/-- A slot in use whose blocks lie past the slot pages and inside the file. -/
structure UsedSlot (file : Bytes) (slotnpages off pkgidx blkoff blkcnt : ℕ) : Prop where
  magic : slice file off (off + 4) = slotMagic
  index : field .little 4 file (off + 4) = pkgidx
  offset : field .little 4 file (off + 8) = blkoff
  count : field .little 4 file (off + 12) = blkcnt
  numbered : pkgidx ≠ 0
  past : slotnpages * (ndbPage / ndbBlk) ≤ blkoff
  inside : blkoff + blkcnt ≤ file.length / ndbBlk

/-- The blocks of a slot. -/
def blocks (file : Bytes) (blkoff blkcnt : ℕ) : Bytes :=
  slice file (blkoff * ndbBlk) (blkoff * ndbBlk + blkcnt * ndbBlk)

/-- A slot in use with an intact blob. -/
def PackageSlot (zlib : Bool) (file : Bytes) (slotnpages off : ℕ) (blob : Bytes) : Prop :=
  ∃ pkgidx blkoff blkcnt, UsedSlot file slotnpages off pkgidx blkoff blkcnt ∧
    IntactRegion zlib pkgidx blkcnt (blocks file blkoff blkcnt) blob

/-- A slot in use that claims no block. -/
def EmptySlot (file : Bytes) (slotnpages off : ℕ) : Prop :=
  ∃ pkgidx blkoff, UsedSlot file slotnpages off pkgidx blkoff 0

section Slots

variable {zlib : Bool} {file : Bytes} {slotnpages off pkgidx blkoff blkcnt : ℕ}

theorem slot_inside (hoff : off ∈ slotOffsets slotnpages) : off + 16 ≤ slotnpages * ndbPage := by
  obtain ⟨index, hindex, rfl⟩ := List.mem_map.mp hoff
  rw [List.mem_range] at hindex
  unfold ndbHeader ndbPage ndbSlot at *
  omega

theorem UsedSlot.blkoff_pos (hpositive : 0 < slotnpages)
    (hused : UsedSlot file slotnpages off pkgidx blkoff blkcnt) : blkoff ≠ 0 := by
  have hpast := hused.past
  have hblocks : slotnpages * (ndbPage / ndbBlk) = slotnpages * 256 := rfl
  omega

/-- The blocks of a slot in use can be read. -/
theorem UsedSlot.blocks_inside (hused : UsedSlot file slotnpages off pkgidx blkoff blkcnt) :
    blkoff * ndbBlk + blkcnt * ndbBlk ≤ file.length := by
  have hinside := hused.inside
  unfold ndbBlk at *
  omega

theorem UsedSlot.length_blocks (hused : UsedSlot file slotnpages off pkgidx blkoff blkcnt) :
    (blocks file blkoff blkcnt).length = blkcnt * ndbBlk := by
  rw [blocks, length_slice_of_le hused.blocks_inside]
  omega

/-- The checks of a slot, on the file itself. -/
theorem slotBlob_eq (hheader : NdbHeader file slotnpages) (hoff : off ∈ slotOffsets slotnpages) :
    slotBlob zlib file (file.length / ndbBlk) (slotnpages * (ndbPage / ndbBlk))
        (slice file 0 (slotnpages * ndbPage)) off =
      let pkgidx := field .little 4 file (off + 4)
      let blkoff := field .little 4 file (off + 8)
      let blkcnt := field .little 4 file (off + 12)
      if slice file off (off + 4) ≠ slotMagic then
        .error (.rpmdb s!"bad ndb slot magic at offset {off}")
      else if blkoff = 0 then .ok none
      else if pkgidx = 0 ∨ blkoff < slotnpages * (ndbPage / ndbBlk) ∨
          file.length / ndbBlk < blkoff + blkcnt then
        .error (.rpmdb s!"bad ndb slot at offset {off}")
      else (regionBlob zlib pkgidx blkcnt (blocks file blkoff blkcnt)).map some := by
  have hinside := slot_inside hoff
  have hlength : (slice file 0 (slotnpages * ndbPage)).length = slotnpages * ndbPage := by
    rw [length_slice_of_le hheader.fits, Nat.sub_zero]
  rw [slotBlob, unpackRecord_of_le (by rw [hlength]; exact hinside), ok_bind,
    ndbRecord_slice (by omega), Nat.zero_add]
  simp only [raiseIf_bind]
  refine ite_congr rfl (fun _ => rfl) fun _ => ?_
  refine ite_congr rfl (fun _ => rfl) fun _ => ?_
  refine ite_congr rfl (fun _ => rfl) fun hbounds => ?_
  have hblocks : field .little 4 file (off + 8) * ndbBlk +
      field .little 4 file (off + 12) * ndbBlk ≤ file.length := by
    simp only [not_or, not_lt] at hbounds
    unfold ndbBlk at *
    omega
  rw [preadExact_of_le (show (ndbRecord file off).second * ndbBlk +
    (ndbRecord file off).third * ndbBlk ≤ file.length from hblocks), ok_bind]
  exact bind_pure_map _ some

/-- `slotBlob` as the loop calls it. -/
def fileSlot (zlib : Bool) (file : Bytes) (slotnpages off : ℕ) : Except Fault (Option Bytes) :=
  slotBlob zlib file (file.length / ndbBlk) (slotnpages * (ndbPage / ndbBlk))
    (slice file 0 (slotnpages * ndbPage)) off

theorem fileSlot_of_free (zlib : Bool) (hheader : NdbHeader file slotnpages)
    (hoff : off ∈ slotOffsets slotnpages) (hfree : FreeSlot file off) :
    fileSlot zlib file slotnpages off = .ok none := by
  rw [fileSlot, slotBlob_eq hheader hoff]
  dsimp only
  rw [if_neg (not_not.mpr hfree.magic), if_pos hfree.free]

/-- A slot in use is decided by its blocks. -/
theorem fileSlot_of_used (hheader : NdbHeader file slotnpages)
    (hoff : off ∈ slotOffsets slotnpages)
    (hused : UsedSlot file slotnpages off pkgidx blkoff blkcnt) :
    fileSlot zlib file slotnpages off =
      (regionBlob zlib pkgidx blkcnt (blocks file blkoff blkcnt)).map some := by
  rw [fileSlot, slotBlob_eq hheader hoff]
  dsimp only
  rw [hused.index, hused.offset, hused.count, if_neg (not_not.mpr hused.magic),
    if_neg (hused.blkoff_pos hheader.positive), if_neg]
  simp only [not_or, not_lt]
  exact ⟨hused.numbered, hused.past, hused.inside⟩

theorem fileSlot_of_package {blob : Bytes} (hheader : NdbHeader file slotnpages)
    (hoff : off ∈ slotOffsets slotnpages) (hpackage : PackageSlot zlib file slotnpages off blob) :
    fileSlot zlib file slotnpages off = .ok (some blob) := by
  obtain ⟨pkgidx, blkoff, blkcnt, hused, hintact⟩ := hpackage
  have hblocks : 0 < blkcnt := by
    rw [hintact.blocks]
    unfold blobBlocks ndbBlobhead ndbBlobtail ndbBlk
    omega
  rw [fileSlot_of_used hheader hoff hused,
    ((regionBlob_spec zlib pkgidx hused.length_blocks hblocks).2 blob).mpr hintact]
  rfl

theorem fileSlot_of_empty (zlib : Bool) (hheader : NdbHeader file slotnpages)
    (hoff : off ∈ slotOffsets slotnpages) (hempty : EmptySlot file slotnpages off) :
    fileSlot zlib file slotnpages off = .error .structError := by
  obtain ⟨pkgidx, blkoff, hused⟩ := hempty
  have hregion : blocks file blkoff 0 = [] := by
    rw [← List.length_eq_zero_iff, hused.length_blocks, Nat.zero_mul]
  rw [fileSlot_of_used hheader hoff hused, hregion, regionBlob_nil]
  rfl

/-- **What the reader makes of a slot.** -/
theorem fileSlot_cases (zlib : Bool) (hheader : NdbHeader file slotnpages)
    (hoff : off ∈ slotOffsets slotnpages) :
    (FreeSlot file off ∧ fileSlot zlib file slotnpages off = .ok none) ∨
      (∃ blob, PackageSlot zlib file slotnpages off blob ∧
        fileSlot zlib file slotnpages off = .ok (some blob)) ∨
      (EmptySlot file slotnpages off ∧
        fileSlot zlib file slotnpages off = .error .structError) ∨
      ∃ message, fileSlot zlib file slotnpages off = .error (.rpmdb message) := by
  by_cases hmagic : slice file off (off + 4) = slotMagic
  · by_cases hfree : field .little 4 file (off + 8) = 0
    · have hslot : FreeSlot file off := ⟨hmagic, hfree⟩
      exact Or.inl ⟨hslot, fileSlot_of_free zlib hheader hoff hslot⟩
    · by_cases hbounds : field .little 4 file (off + 4) = 0 ∨
          field .little 4 file (off + 8) < slotnpages * (ndbPage / ndbBlk) ∨
          file.length / ndbBlk < field .little 4 file (off + 8) + field .little 4 file (off + 12)
      · refine Or.inr (Or.inr (Or.inr ⟨s!"bad ndb slot at offset {off}", ?_⟩))
        rw [fileSlot, slotBlob_eq hheader hoff]
        dsimp only
        rw [if_neg (not_not.mpr hmagic), if_neg hfree, if_pos hbounds]
      · simp only [not_or, not_lt] at hbounds
        have hused : UsedSlot file slotnpages off _ _ _ :=
          ⟨hmagic, rfl, rfl, rfl, hbounds.1, hbounds.2.1, hbounds.2.2⟩
        rcases Nat.eq_zero_or_pos (field .little 4 file (off + 12)) with hzero | hblocks
        · rw [hzero] at hused
          have hempty : EmptySlot file slotnpages off := ⟨_, _, hused⟩
          exact Or.inr (Or.inr (Or.inl ⟨hempty, fileSlot_of_empty zlib hheader hoff hempty⟩))
        · obtain ⟨hfails, hintact⟩ := regionBlob_spec zlib (field .little 4 file (off + 4))
            hused.length_blocks hblocks
          rw [fileSlot_of_used hheader hoff hused]
          cases hregion : regionBlob zlib (field .little 4 file (off + 4))
              (field .little 4 file (off + 12)) (blocks file (field .little 4 file (off + 8))
                (field .little 4 file (off + 12))) with
          | ok blob =>
              exact Or.inr (Or.inl ⟨blob, ⟨_, _, _, hused, (hintact blob).mp hregion⟩, rfl⟩)
          | error fault =>
              obtain ⟨message, rfl⟩ := Fault.isRpmdbError_iff.mp (hfails fault hregion)
              exact Or.inr (Or.inr (Or.inr ⟨message, rfl⟩))
  · refine Or.inr (Or.inr (Or.inr ⟨s!"bad ndb slot magic at offset {off}", ?_⟩))
    rw [fileSlot, slotBlob_eq hheader hoff]
    dsimp only
    rw [if_pos hmagic]

/-- The checks of the file header. -/
theorem ndbSlotnpages_spec (file : Bytes) :
    FailsOnly Fault.IsRpmdbError (ndbSlotnpages file file.length) ∧
      ∀ slotnpages, ndbSlotnpages file file.length = .ok slotnpages ↔ NdbHeader file slotnpages := by
  rw [ndbSlotnpages]
  by_cases hroom : ndbHeader ≤ file.length
  · have hlength : (slice file 0 ndbHeader).length = ndbHeader := by
      rw [length_slice_of_le hroom, Nat.sub_zero]
    rw [preadExact_of_le (by omega), ok_bind, Nat.zero_add,
      unpackRecord_of_le (by rw [hlength]; decide), ok_bind, ndbRecord_slice (by decide)]
    simp only [raiseIf_bind]
    constructor
    · split_ifs
      · exact FailsOnly.error.mpr trivial
      · exact FailsOnly.error.mpr trivial
      · exact FailsOnly.error.mpr trivial
      · exact FailsOnly.error.mpr trivial
      · exact FailsOnly.ok _
    · intro slotnpages
      constructor
      · intro hok
        split_ifs at hok with hmagic hversion hplausible hfits
        obtain rfl := Except.ok.inj hok
        simp only [not_or, not_not, not_lt] at hmagic hversion hplausible hfits
        exact ⟨hroom, hmagic, hversion, rfl, hplausible.1, hplausible.2.1, hplausible.2.2, hfits⟩
      · intro hheader
        have hpages : (ndbRecord file (0 + 0)).third = slotnpages := hheader.pages
        have hmagic : (ndbRecord file (0 + 0)).magic = ndbMagic := hheader.magic
        have hversion : (ndbRecord file (0 + 0)).first = 0 := hheader.version
        rw [hpages, if_neg (not_not.mpr hmagic), if_neg (not_not.mpr hversion), if_neg, if_neg (not_lt.mpr hheader.fits)]
        · rfl
        · simp only [not_or, not_not]
          exact ⟨hheader.aligned, hheader.positive, hheader.bounded⟩
  · have hshort : ∃ message, preadExact file ndbHeader 0 = .error (.rpmdb message) := by
      cases hread : preadExact file ndbHeader 0 with
      | ok read =>
          obtain ⟨rfl, hlength⟩ := preadExact_ok hread
          rw [length_slice] at hlength
          omega
      | error fault =>
          obtain ⟨message, rfl⟩ := Fault.isRpmdbError_iff.mp (failsOnly_preadExact fault hread)
          exact ⟨message, rfl⟩
    obtain ⟨message, hread⟩ := hshort
    rw [hread, error_bind]
    refine ⟨FailsOnly.error.mpr trivial, ?_⟩
    intro slotnpages
    constructor
    · intro h
      cases h
    · intro hheader
      exact absurd hheader.room hroom

end Slots

/-! ## The loop over the slots -/

/-- A slot that the reader gets past. -/
def SoundSlot (zlib : Bool) (file : Bytes) (slotnpages off : ℕ) : Prop :=
  FreeSlot file off ∨ ∃ blob, PackageSlot zlib file slotnpages off blob

/-- An empty slot comes before every slot that is refused. -/
def EmptySlotFirst (zlib : Bool) (file : Bytes) (slotnpages : ℕ) (offs : List ℕ) : Prop :=
  ∃ before off after, offs = before ++ off :: after ∧
    (∀ sound ∈ before, SoundSlot zlib file slotnpages sound) ∧ EmptySlot file slotnpages off

section SlotLoop

variable {zlib : Bool} {file : Bytes} {slotnpages : ℕ}

/-- One turn of the slot loop, as the loop of the file makes it. -/
def fileTurn (zlib : Bool) (file : Bytes) (slotnpages : ℕ) : ℕ → Gen Fault Bytes Unit :=
  ndbTurn zlib file (file.length / ndbBlk) (slotnpages * (ndbPage / ndbBlk))
    (slice file 0 (slotnpages * ndbPage))

theorem fileTurn_of_none {off : ℕ} (hslot : fileSlot zlib file slotnpages off = .ok none) :
    fileTurn zlib file slotnpages off = ⟨[], .ok ()⟩ := by
  rw [fileTurn, ndbTurn]
  exact Gen.lift_bind_ok hslot

theorem fileTurn_of_some {off : ℕ} {blob : Bytes}
    (hslot : fileSlot zlib file slotnpages off = .ok (some blob)) :
    fileTurn zlib file slotnpages off = ⟨[blob], .ok ()⟩ := by
  rw [fileTurn, ndbTurn]
  exact Gen.lift_bind_ok hslot

theorem fileTurn_of_error {off : ℕ} {fault : Fault}
    (hslot : fileSlot zlib file slotnpages off = .error fault) :
    fileTurn zlib file slotnpages off = ⟨[], .error fault⟩ := by
  rw [fileTurn, ndbTurn]
  exact Gen.lift_bind_error hslot

/-- The reader on a file with a good header is the slot loop. -/
theorem iterNdbBlobs_eq (hheader : NdbHeader file slotnpages) :
    iterNdbBlobs zlib file file.length =
      (slotOffsets slotnpages).forM (fileTurn zlib file slotnpages) := by
  have hpages := ((ndbSlotnpages_spec file).2 slotnpages).mpr hheader
  have hread : preadExact file (slotnpages * ndbPage) 0 =
      .ok (slice file 0 (slotnpages * ndbPage)) := by
    rw [preadExact_of_le (by rw [Nat.zero_add]; exact hheader.fits), Nat.zero_add]
  rw [iterNdbBlobs, Gen.lift_bind_ok hpages]
  dsimp only
  rw [Gen.lift_bind_ok hread, length_slice_of_le hheader.fits, Nat.sub_zero]
  rfl

/-- Every blob of the loop comes from an intact slot. -/
theorem slotLoop_log (hheader : NdbHeader file slotnpages) {offs : List ℕ}
    (hoffs : ∀ off ∈ offs, off ∈ slotOffsets slotnpages) :
    ∀ blob ∈ (offs.forM (fileTurn zlib file slotnpages)).log,
      ∃ off ∈ offs, PackageSlot zlib file slotnpages off blob := by
  induction offs with
  | nil =>
      intro blob hblob
      cases hblob
  | cons off rest ih =>
      have hrest := ih fun other hother => hoffs other (List.mem_cons_of_mem off hother)
      intro blob hblob
      rcases fileSlot_cases zlib hheader (hoffs off List.mem_cons_self) with
        ⟨_, hslot⟩ | ⟨found, hpackage, hslot⟩ | ⟨_, hslot⟩ | ⟨message, hslot⟩
      · rw [Gen.forM_cons_of_ok (fileTurn_of_none hslot)] at hblob
        obtain ⟨other, hother, hpackage⟩ := hrest blob hblob
        exact ⟨other, List.mem_cons_of_mem off hother, hpackage⟩
      · rw [Gen.forM_cons_of_ok (fileTurn_of_some hslot)] at hblob
        rcases List.mem_cons.mp hblob with rfl | hblob
        · exact ⟨off, List.mem_cons_self, hpackage⟩
        · obtain ⟨other, hother, hpackage⟩ := hrest blob hblob
          exact ⟨other, List.mem_cons_of_mem off hother, hpackage⟩
      · rw [Gen.forM_cons_of_error (fileTurn_of_error hslot)] at hblob
        cases hblob
      · rw [Gen.forM_cons_of_error (fileTurn_of_error hslot)] at hblob
        cases hblob

/-- Past a sound slot, the next slots decide. -/
theorem emptySlotFirst_cons_of_sound {off : ℕ} {rest : List ℕ}
    (hsound : SoundSlot zlib file slotnpages off) (hnot : ¬ EmptySlot file slotnpages off) :
    EmptySlotFirst zlib file slotnpages (off :: rest) ↔
      EmptySlotFirst zlib file slotnpages rest := by
  constructor
  · rintro ⟨before, first, after, hsplit, hbefore, hempty⟩
    cases before with
    | nil =>
        obtain ⟨rfl, rfl⟩ := List.cons.inj hsplit
        exact absurd hempty hnot
    | cons head before =>
        obtain ⟨rfl, rfl⟩ := List.cons.inj hsplit
        exact ⟨before, first, after, rfl,
          fun other hother => hbefore other (List.mem_cons_of_mem _ hother), hempty⟩
  · rintro ⟨before, first, after, rfl, hbefore, hempty⟩
    refine ⟨off :: before, first, after, rfl, ?_, hempty⟩
    intro other hother
    rcases List.mem_cons.mp hother with rfl | hother
    · exact hsound
    · exact hbefore other hother

/-- The loop raises something else than `RpmdbError` exactly at an empty slot. -/
theorem slotLoop_failsOnly_iff (zlib : Bool) (hheader : NdbHeader file slotnpages) {offs : List ℕ}
    (hoffs : ∀ off ∈ offs, off ∈ slotOffsets slotnpages) :
    FailsOnly Fault.IsRpmdbError (offs.forM (fileTurn zlib file slotnpages)).ended ↔
      ¬ EmptySlotFirst zlib file slotnpages offs := by
  induction offs with
  | nil =>
      refine iff_of_true (FailsOnly.ok _) ?_
      rintro ⟨before, off, after, hsplit, _⟩
      cases before <;> cases hsplit
  | cons off rest ih =>
      have hoff := hoffs off List.mem_cons_self
      have hrest := ih fun other hother => hoffs other (List.mem_cons_of_mem off hother)
      -- An empty slot has an outcome of its own.
      have hnot : ∀ {slot}, fileSlot zlib file slotnpages off = .ok slot →
          ¬ EmptySlot file slotnpages off := by
        intro slot hslot hempty
        rw [fileSlot_of_empty zlib hheader hoff hempty] at hslot
        cases hslot
      rcases fileSlot_cases zlib hheader hoff with
        ⟨hfree, hslot⟩ | ⟨found, hpackage, hslot⟩ | ⟨hempty, hslot⟩ | ⟨message, hslot⟩
      · rw [Gen.forM_cons_of_ok (fileTurn_of_none hslot),
          emptySlotFirst_cons_of_sound (Or.inl hfree) (hnot hslot)]
        exact hrest
      · rw [Gen.forM_cons_of_ok (fileTurn_of_some hslot),
          emptySlotFirst_cons_of_sound (Or.inr ⟨found, hpackage⟩) (hnot hslot)]
        exact hrest
      · rw [Gen.forM_cons_of_error (fileTurn_of_error hslot)]
        refine iff_of_false ?_ (not_not.mpr ⟨[], off, rest, rfl, by simp, hempty⟩)
        intro hfails
        exact FailsOnly.error.mp hfails
      · rw [Gen.forM_cons_of_error (fileTurn_of_error hslot)]
        refine iff_of_true (FailsOnly.error.mpr trivial) ?_
        rintro ⟨before, first, after, hsplit, hbefore, hempty⟩
        -- The refused slot is neither the empty slot nor one of those before it.
        cases before with
        | nil =>
            obtain ⟨rfl, rfl⟩ := List.cons.inj hsplit
            rw [fileSlot_of_empty zlib hheader hoff hempty] at hslot
            cases hslot
        | cons head before =>
            obtain ⟨rfl, rfl⟩ := List.cons.inj hsplit
            rcases hbefore off List.mem_cons_self with hfree | ⟨blob, hpackage⟩
            · rw [fileSlot_of_free zlib hheader hoff hfree] at hslot
              cases hslot
            · rw [fileSlot_of_package hheader hoff hpackage] at hslot
              cases hslot

end SlotLoop

/-! ## Databases as rpm writes them -/

/-- Where rpm put a package: its index, the generation it was written in, its first block
and its header blob. -/
structure Placement where
  pkgidx : ℕ
  generation : ℕ
  blkoff : ℕ
  blob : Bytes

namespace Placement

/-- The number of blocks of the package. -/
def blkcnt (package : Placement) : ℕ := blobBlocks package.blob.length

/-- The head of the package. -/
def head (package : Placement) : Bytes :=
  blobStartMagic ++ ofNat .little 4 package.pkgidx ++ ofNat .little 4 package.generation ++
    ofNat .little 4 package.blob.length

/-- What fills up the blocks. -/
def padding (package : Placement) : Bytes :=
  List.replicate (package.blkcnt * ndbBlk - (ndbBlobhead + package.blob.length + ndbBlobtail)) 0

/-- Head, blob and padding. -/
def body (package : Placement) : Bytes := package.head ++ package.blob ++ package.padding

/-- All blocks of the package. -/
def bytes (package : Placement) : Bytes :=
  package.body ++ ofNat .little 4 (adler32 package.body) ++
    ofNat .little 4 package.blob.length ++ blobEndMagic

end Placement

/-- A slot as rpm writes it. -/
def slotBytes (pkgidx blkoff blkcnt : ℕ) : Bytes :=
  slotMagic ++ ofNat .little 4 pkgidx ++ ofNat .little 4 blkoff ++ ofNat .little 4 blkcnt

/-- The slot of a package, and its blocks somewhere past the slot pages. -/
structure WrittenSlot (file : Bytes) (slotnpages off : ℕ) (package : Placement) : Prop where
  slot : slice file off (off + 16) = slotBytes package.pkgidx package.blkoff package.blkcnt
  region : blocks file package.blkoff package.blkcnt = package.bytes
  numbered : 0 < package.pkgidx ∧ package.pkgidx < 2 ^ 32
  sized : package.blob.length < 2 ^ 32
  placed : package.blkoff < 2 ^ 32
  past : slotnpages * (ndbPage / ndbBlk) ≤ package.blkoff
  inside : package.blkoff + package.blkcnt ≤ file.length / ndbBlk

/-- A slot that is written: free, or with a package. -/
def Written (file : Bytes) (slotnpages off : ℕ) : Option Placement → Prop
  | none => slice file off (off + 16) = slotBytes 0 0 0
  | some package => WrittenSlot file slotnpages off package

/-- A file that rpm wrote, with what is in its slots. -/
structure NdbLayout (file : Bytes) (slots : List (Option Placement)) : Prop where
  exists_pages : ∃ slotnpages generation, 0 < slotnpages ∧ slotnpages ≤ ndbMaxSlotnpages ∧
    slotnpages * ndbPage ≤ file.length ∧
    slice file 0 16 =
      ndbMagic ++ ofNat .little 4 0 ++ ofNat .little 4 generation ++ ofNat .little 4 slotnpages ∧
    List.Forall₂ (Written file slotnpages) (slotOffsets slotnpages) slots
  aligned : file.length % ndbBlk = 0

section Layout

variable {file : Bytes} {slotnpages off : ℕ} {package : Placement}

theorem adler32_lt (data : Bytes) : adler32 data < 2 ^ 32 := by
  have hsums : ∀ (rest : Bytes) (sums : ℕ × ℕ), sums.1 < 65521 ∧ sums.2 < 65521 →
      (rest.foldl adlerStep sums).1 < 65521 ∧ (rest.foldl adlerStep sums).2 < 65521 := by
    intro rest
    induction rest with
    | nil => exact fun _ hsums => hsums
    | cons byte rest ih =>
        exact fun _ _ => ih _ ⟨Nat.mod_lt _ (by decide), Nat.mod_lt _ (by decide)⟩
  have hlt := hsums data (1, 0) (by decide)
  have hsum : adler32 data =
      (data.foldl adlerStep (1, 0)).2 * 65536 + (data.foldl adlerStep (1, 0)).1 := rfl
  omega

theorem slotMagic_of_written {pkgidx blkoff blkcnt : ℕ}
    (hslot : slice file off (off + 16) = slotBytes pkgidx blkoff blkcnt) :
    slice file off (off + 4) = slotMagic := by
  refine slice_of_append [] slotMagic (ofNat .little 4 pkgidx ++ ofNat .little 4 blkoff ++
    ofNat .little 4 blkcnt) (hslot.trans ?_) rfl rfl
  simp [slotBytes]

theorem freeSlot_of_written (hslot : slice file off (off + 16) = slotBytes 0 0 0) :
    FreeSlot file off :=
  ⟨slotMagic_of_written hslot, field_of_append _ _ hslot rfl (by decide)⟩

theorem usedSlot_of_written (hwritten : WrittenSlot file slotnpages off package) :
    UsedSlot file slotnpages off package.pkgidx package.blkoff package.blkcnt := by
  have hcount : package.blkcnt < 256 ^ 4 := by
    have hsized := hwritten.sized
    unfold Placement.blkcnt blobBlocks ndbBlobhead ndbBlobtail ndbBlk
    omega
  refine ⟨slotMagic_of_written hwritten.slot, ?_, ?_, ?_, hwritten.numbered.1.ne', hwritten.past,
    hwritten.inside⟩
  · refine field_of_append slotMagic (ofNat .little 4 package.blkoff ++
      ofNat .little 4 package.blkcnt) (hwritten.slot.trans ?_) rfl hwritten.numbered.2
    simp [slotBytes]
  · exact field_of_append _ _ hwritten.slot rfl hwritten.placed
  · refine field_of_append (slotMagic ++ ofNat .little 4 package.pkgidx ++
      ofNat .little 4 package.blkoff) [] (hwritten.slot.trans ?_) rfl hcount
    simp [slotBytes]

/-- The blocks of a package read back intact. -/
theorem intactRegion_bytes (zlib : Bool) (hnumbered : package.pkgidx < 2 ^ 32)
    (hsized : package.blob.length < 2 ^ 32) :
    IntactRegion zlib package.pkgidx package.blkcnt package.bytes package.blob := by
  have hlength : package.bytes.length = package.body.length + 12 := by
    simp [Placement.bytes, blobEndMagic]
  have hwhole := slice_all package.bytes
  have hparts : package.bytes = package.head ++ package.blob ++ (package.padding ++
      (ofNat .little 4 (adler32 package.body) ++
        (ofNat .little 4 package.blob.length ++ blobEndMagic))) := by
    rw [Placement.bytes, List.append_assoc, List.append_assoc, Placement.body, List.append_assoc]
  have hhead : slice package.bytes 0 16 = package.head :=
    slice_of_append [] package.head _ (hwhole.trans (hparts.trans (List.append_assoc _ _ _)))
      rfl rfl
  refine ⟨?_, ?_, ?_, rfl, ?_, ?_, ?_, fun _ => ?_⟩
  · refine slice_of_append [] blobStartMagic (ofNat .little 4 package.pkgidx ++
      ofNat .little 4 package.generation ++ ofNat .little 4 package.blob.length)
      (hhead.trans ?_) rfl rfl
    simp [Placement.head]
  · refine field_of_append blobStartMagic (ofNat .little 4 package.generation ++
      ofNat .little 4 package.blob.length) (hhead.trans ?_) rfl hnumbered
    simp [Placement.head]
  · exact field_of_append (blobStartMagic ++ ofNat .little 4 package.pkgidx ++
      ofNat .little 4 package.generation) [] (hhead.trans (List.append_nil _).symm) rfl hsized
  · exact slice_of_append package.head package.blob _ (hwhole.trans hparts) rfl rfl
  · refine slice_of_append (package.body ++ ofNat .little 4 (adler32 package.body) ++
      ofNat .little 4 package.blob.length) blobEndMagic [] (hwhole.trans ?_) ?_ ?_
    · rw [List.append_nil, Placement.bytes]
    · simp [hlength]
    · simp [hlength, blobEndMagic]
  · refine field_of_append (package.body ++ ofNat .little 4 (adler32 package.body)) blobEndMagic
      hwhole ?_ hsized
    simp [hlength]
  · have htail : package.bytes.length - ndbBlobtail = package.body.length := by
      rw [hlength]
      rfl
    have hbody : package.bytes.take package.body.length = package.body := by
      rw [Placement.bytes, List.append_assoc, List.append_assoc, List.take_left]
    rw [htail, hbody]
    refine (field_of_append package.body (ofNat .little 4 package.blob.length ++ blobEndMagic)
      (hwhole.trans ?_) (Nat.zero_add _).symm (adler32_lt _)).symm
    rw [Placement.bytes, List.append_assoc]

theorem packageSlot_of_written (zlib : Bool) (hwritten : WrittenSlot file slotnpages off package) :
    PackageSlot zlib file slotnpages off package.blob := by
  refine ⟨_, _, _, usedSlot_of_written hwritten, ?_⟩
  rw [hwritten.region]
  exact intactRegion_bytes zlib hwritten.numbered.2 hwritten.sized

/-- The loop yields the blobs that were written, in the order of their slots. -/
theorem slotLoop_of_written (zlib : Bool) (hheader : NdbHeader file slotnpages) {offs : List ℕ}
    {slots : List (Option Placement)} (hoffs : ∀ off ∈ offs, off ∈ slotOffsets slotnpages)
    (hwritten : List.Forall₂ (Written file slotnpages) offs slots) :
    offs.forM (fileTurn zlib file slotnpages) =
      ⟨(slots.filterMap id).map Placement.blob, .ok ()⟩ := by
  induction hwritten with
  | nil => rfl
  | @cons off slot rest slots hslot _ ih =>
      have hoff := hoffs off List.mem_cons_self
      have hrest := ih fun other hother => hoffs other (List.mem_cons_of_mem off hother)
      cases slot with
      | none =>
          have hturn := fileTurn_of_none (fileSlot_of_free zlib hheader hoff
            (freeSlot_of_written hslot))
          rw [Gen.forM_cons_of_ok hturn, hrest]
          rfl
      | some package =>
          have hturn := fileTurn_of_some (fileSlot_of_package hheader hoff
            (packageSlot_of_written zlib hslot))
          rw [Gen.forM_cons_of_ok hturn, hrest]
          rfl

theorem ndbHeader_of_written {generation : ℕ} (haligned : file.length % ndbBlk = 0)
    (hpositive : 0 < slotnpages) (hbounded : slotnpages ≤ ndbMaxSlotnpages)
    (hfits : slotnpages * ndbPage ≤ file.length)
    (hhead : slice file 0 16 = ndbMagic ++ ofNat .little 4 0 ++ ofNat .little 4 generation ++
      ofNat .little 4 slotnpages) : NdbHeader file slotnpages := by
  have hlt : slotnpages < 256 ^ 4 := lt_of_le_of_lt hbounded (by decide)
  have hassoc : slice file 0 16 = ndbMagic ++ ofNat .little 4 0 ++
      (ofNat .little 4 generation ++ ofNat .little 4 slotnpages) := by
    rw [hhead, List.append_assoc _ (ofNat .little 4 generation)]
  refine ⟨?_, ?_, ?_, ?_, haligned, hpositive, hbounded, hfits⟩
  · unfold ndbHeader
    unfold ndbPage at hfits
    omega
  · exact slice_of_append [] ndbMagic _ (hassoc.trans (List.append_assoc _ _ _)) rfl rfl
  · exact field_of_append ndbMagic _ hassoc rfl (by decide)
  · exact field_of_append _ [] (hhead.trans (List.append_nil _).symm) rfl hlt

end Layout

/-! ## The reader -/

/-- What is promised of the reader on a file: it fails with `RpmdbError` only, what it
yields was checked and lies between the slot pages and the end of the file, and a file that
rpm wrote is read completely. -/
structure NdbContract (zlib : Bool) (file : Bytes) : Prop where
  failures : FailsOnly Fault.IsRpmdbError (iterNdbBlobs zlib file file.length).ended
  checked : ∀ blob ∈ (iterNdbBlobs zlib file file.length).log,
    ∃ slotnpages start, NdbHeader file slotnpages ∧
      (∃ off ∈ slotOffsets slotnpages, PackageSlot zlib file slotnpages off blob) ∧
      slotnpages * ndbPage ≤ start ∧ start + blob.length ≤ file.length ∧
      slice file start (start + blob.length) = blob
  complete : ∀ slots, NdbLayout file slots → iterNdbBlobs zlib file file.length =
    ⟨(slots.filterMap id).map Placement.blob, .ok ()⟩

/-- Behind a good header, an empty slot comes before every slot that is refused. -/
def EmptySlotReached (zlib : Bool) (file : Bytes) : Prop :=
  ∃ slotnpages, NdbHeader file slotnpages ∧
    EmptySlotFirst zlib file slotnpages (slotOffsets slotnpages)

section Reader

variable {zlib : Bool} {file : Bytes} {slotnpages off : ℕ} {blob : Bytes}

/-- The blob of a slot lies past the slot pages and inside the file. -/
theorem PackageSlot.blob_inside (hpackage : PackageSlot zlib file slotnpages off blob) :
    ∃ start, slotnpages * ndbPage ≤ start ∧ start + blob.length ≤ file.length ∧
      slice file start (start + blob.length) = blob := by
  obtain ⟨pkgidx, blkoff, blkcnt, hused, hintact⟩ := hpackage
  have hroom := blobBlocks_room blob.length
  rw [← hintact.blocks] at hroom
  have hinside := hused.blocks_inside
  have hpast : slotnpages * 256 ≤ blkoff := hused.past
  refine ⟨blkoff * ndbBlk + ndbBlobhead, ?_, ?_, ?_⟩
  · calc slotnpages * ndbPage = slotnpages * 256 * ndbBlk := (Nat.mul_assoc _ 256 16).symm
      _ ≤ blkoff * ndbBlk := Nat.mul_le_mul_right _ hpast
      _ ≤ blkoff * ndbBlk + ndbBlobhead := Nat.le_add_right _ _
  · omega
  · have hdata := hintact.data
    rw [blocks, slice_slice (by omega)] at hdata
    rw [Nat.add_assoc]
    exact hdata

theorem iterNdbBlobs_of_no_header (zlib : Bool)
    (hnot : ∀ slotnpages, ¬ NdbHeader file slotnpages) :
    ∃ fault, fault.IsRpmdbError ∧ iterNdbBlobs zlib file file.length = ⟨[], .error fault⟩ := by
  obtain ⟨hfails, hok⟩ := ndbSlotnpages_spec file
  cases hpages : ndbSlotnpages file file.length with
  | ok slotnpages => exact absurd ((hok slotnpages).mp hpages) (hnot slotnpages)
  | error fault => exact ⟨fault, hfails fault hpages, Gen.lift_bind_error hpages⟩

theorem NdbHeader.unique {other : ℕ} (hheader : NdbHeader file slotnpages)
    (hother : NdbHeader file other) : slotnpages = other :=
  hheader.pages.symm.trans hother.pages

end Reader

/-- **The reader keeps its promise exactly on the files where it does not reach an empty
slot.** -/
theorem iterNdbBlobs_contract_iff (zlib : Bool) (file : Bytes) :
    NdbContract zlib file ↔ ¬ EmptySlotReached zlib file := by
  by_cases hheader : ∃ slotnpages, NdbHeader file slotnpages
  · obtain ⟨slotnpages, hheader⟩ := hheader
    have hfails := slotLoop_failsOnly_iff zlib hheader fun off hoff => hoff
    rw [← iterNdbBlobs_eq hheader] at hfails
    have hreached : EmptySlotReached zlib file ↔
        EmptySlotFirst zlib file slotnpages (slotOffsets slotnpages) := by
      constructor
      · intro ⟨other, hother, hfirst⟩
        rwa [← hheader.unique hother] at hfirst
      · intro hfirst
        exact ⟨slotnpages, hheader, hfirst⟩
    rw [hreached, ← hfails]
    refine ⟨NdbContract.failures, fun honly => ⟨honly, ?_, ?_⟩⟩
    · intro blob hblob
      rw [iterNdbBlobs_eq hheader] at hblob
      obtain ⟨off, hoff, hpackage⟩ := slotLoop_log hheader (fun off hoff => hoff) blob hblob
      obtain ⟨start, hpast, hinside, hdata⟩ := hpackage.blob_inside
      exact ⟨slotnpages, start, hheader, ⟨off, hoff, hpackage⟩, hpast, hinside, hdata⟩
    · intro slots hlayout
      obtain ⟨other, generation, hpositive, hbounded, hfits, hhead, hwritten⟩ :=
        hlayout.exists_pages
      have hother := ndbHeader_of_written hlayout.aligned hpositive hbounded hfits hhead
      rw [iterNdbBlobs_eq hother]
      exact slotLoop_of_written zlib hother (fun off hoff => hoff) hwritten
  · have hnot : ∀ slotnpages, ¬ NdbHeader file slotnpages := fun slotnpages h => hheader ⟨_, h⟩
    obtain ⟨fault, hfault, hrun⟩ := iterNdbBlobs_of_no_header zlib hnot
    refine iff_of_true ⟨?_, ?_, ?_⟩ ?_
    · rw [hrun]
      exact FailsOnly.error.mpr hfault
    · intro blob hblob
      rw [hrun] at hblob
      cases hblob
    · intro slots hlayout
      obtain ⟨other, generation, hpositive, hbounded, hfits, hhead, _⟩ := hlayout.exists_pages
      exact absurd (ndbHeader_of_written hlayout.aligned hpositive hbounded hfits hhead)
        (hnot other)
    · intro ⟨slotnpages, hgood, _⟩
      exact hnot slotnpages hgood

/-- A file of one slot page whose first slot has a package index and no blocks. -/
def emptySlotFile : Bytes :=
  ndbMagic ++ ofNat .little 4 0 ++ ofNat .little 4 1 ++ ofNat .little 4 1 ++
    List.replicate 16 0 ++ slotBytes 1 256 0 ++ List.replicate 4048 0

theorem length_emptySlotFile : emptySlotFile.length = 4096 := by
  simp only [emptySlotFile, slotBytes, List.length_append, List.length_replicate, length_ofNat]
  rfl

theorem emptySlotFile_header : NdbHeader emptySlotFile 1 := by
  refine ⟨?_, rfl, rfl, rfl, ?_, by decide, by decide, ?_⟩
  · rw [length_emptySlotFile]
    decide
  · rw [length_emptySlotFile]
    decide
  · rw [length_emptySlotFile]
    decide

theorem emptySlotFile_empty : EmptySlot emptySlotFile 1 32 := by
  refine ⟨1, 256, rfl, rfl, rfl, rfl, by decide, by decide, ?_⟩
  rw [length_emptySlotFile]
  decide

/-- The blob head is unpacked from no bytes. -/
theorem emptySlotFile_structError :
    (iterNdbBlobs true emptySlotFile emptySlotFile.length).ended = .error .structError ∧
      ¬ NdbContract true emptySlotFile := by
  have hended : (iterNdbBlobs true emptySlotFile emptySlotFile.length).ended =
      .error .structError := by
    obtain ⟨rest, hoffsets⟩ : ∃ rest, slotOffsets 1 = 32 :: rest :=
      ⟨_, congrArg (List.map _) List.range_succ_eq_map⟩
    have hslot := fileTurn_of_error (fileSlot_of_empty true emptySlotFile_header
      (by rw [hoffsets]; exact List.mem_cons_self) emptySlotFile_empty)
    rw [iterNdbBlobs_eq emptySlotFile_header, hoffsets, Gen.forM_cons_of_error hslot]
  refine ⟨hended, ?_⟩
  intro hcontract
  exact hcontract.failures _ hended

end PqcReadiness.Packages
