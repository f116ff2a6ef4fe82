import PqcReadiness.Lib.Bytes
import PqcReadiness.Lib.Generator
import PqcReadiness.Lib.Loop
import Mathlib.Data.Nat.Size

/-!
# The rpm database readers

`_iter_ndb_blobs` and `_iter_bdb_hash_values` read the package headers out of an ndb
and a Berkeley DB file.  The file is a byte string, read by position
(`preadExact`); a reader is a generator that may end with its own error, with
`struct.error` or with `IndexError`.

`zlib` says whether the `zlib` module can be imported.
-/

namespace PqcReadiness.Packages

open PqcReadiness.Lib PqcReadiness.Lib.Bytes

/-- What a reader can raise. -/
inductive Fault where
  | rpmdb (message : String)
  | structError
  | indexError
  deriving DecidableEq

/-- `RpmdbError`. -/
def Fault.IsRpmdbError : Fault → Prop
  | .rpmdb _ => True
  | .structError => False
  | .indexError => False

theorem Fault.isRpmdbError_iff {fault : Fault} :
    fault.IsRpmdbError ↔ ∃ message, fault = .rpmdb message := by
  cases fault <;> simp [IsRpmdbError]

/-- `_pread_exact`. -/
def preadExact (file : Bytes) (length offset : ℕ) : Except Fault Bytes :=
  let data := slice file offset (offset + length)
  let got := data.length
  if got ≠ length then
    .error (.rpmdb s!"short read: {got} of {length} bytes at {offset}")
  else .ok data

/-- `struct.unpack_from` of a format of `size` bytes: the bytes of the record. -/
def unpackFrom (size : ℕ) (data : Bytes) (off : ℕ) : Except Fault Bytes :=
  match unpack size data off with
  | some record => .ok record
  | none => .error .structError

/-- `struct.unpack_from` of one unsigned number. -/
def unpackNat (order : ByteOrder) (width : ℕ) (data : Bytes) (off : ℕ) : Except Fault ℕ := do
  let record ← unpackFrom width data off
  return toNat order record

/-- `struct.unpack_from` of `count` unsigned numbers. -/
def unpackNats (order : ByteOrder) (width count : ℕ) (data : Bytes) (off : ℕ) :
    Except Fault (List ℕ) := do
  let record ← unpackFrom (width * count) data off
  return (List.range count).map fun index => field order width record (width * index)

/-- `data[off]`. -/
def byteAt (data : Bytes) (off : ℕ) : Except Fault ℕ :=
  match data[off]? with
  | some byte => .ok byte.toNat
  | none => .error .indexError

section Reads

variable {file data : Bytes} {length offset size off : ℕ}

theorem preadExact_of_le (hinside : offset + length ≤ file.length) :
    preadExact file length offset = .ok (slice file offset (offset + length)) := by
  have hlength : (slice file offset (offset + length)).length = length := by
    rw [length_slice_of_le hinside]
    omega
  simp [preadExact, hlength]

theorem preadExact_ok {read : Bytes} (hread : preadExact file length offset = .ok read) :
    read = slice file offset (offset + length) ∧ read.length = length := by
  simp only [preadExact] at hread
  split at hread
  · cases hread
  · next hlength =>
      cases hread
      exact ⟨rfl, not_not.mp hlength⟩

theorem failsOnly_preadExact : FailsOnly Fault.IsRpmdbError (preadExact file length offset) := by
  simp only [preadExact]
  split
  · exact FailsOnly.error.mpr trivial
  · exact FailsOnly.ok _

theorem unpackFrom_of_le (hinside : off + size ≤ data.length) :
    unpackFrom size data off = .ok (slice data off (off + size)) := by
  rw [unpackFrom, unpack_of_le hinside]

theorem unpackFrom_of_lt (hshort : data.length < off + size) :
    unpackFrom size data off = .error .structError := by
  rw [unpackFrom, unpack_of_lt hshort]

theorem unpackNat_of_le {order : ByteOrder} (hinside : off + size ≤ data.length) :
    unpackNat order size data off = .ok (field order size data off) := by
  rw [unpackNat, unpackFrom_of_le hinside]
  rfl

theorem unpackNats_of_le {order : ByteOrder} {count : ℕ}
    (hinside : off + size * count ≤ data.length) :
    unpackNats order size count data off =
      .ok ((List.range count).map fun index => field order size data (off + size * index)) := by
  rw [unpackNats, unpackFrom_of_le hinside]
  refine congrArg Except.ok (List.map_congr_left fun index hindex => ?_)
  rw [List.mem_range] at hindex
  have hle : size * (index + 1) ≤ size * count := Nat.mul_le_mul_left size hindex
  rw [Nat.mul_add, Nat.mul_one] at hle
  exact field_slice (by omega)

theorem byteAt_of_lt (hinside : off < data.length) :
    byteAt data off = .ok (field .little 1 data off) := by
  rw [byteAt, List.getElem?_eq_getElem hinside]
  have hbyte : slice data off (off + 1) = [data[off]] := by
    rw [slice, Nat.add_sub_cancel_left, List.take_one_drop_eq_of_lt_length hinside]
    rfl
  rw [field, hbyte]
  simp [Bytes.toNat]

end Reads

/-! ## ndb -/

/-- `_NDB_MAGIC`, `b"RpmP"`. -/
def ndbMagic : Bytes := [0x52, 0x70, 0x6d, 0x50]

/-- `_NDB_PAGE`. -/
def ndbPage : ℕ := 4096

/-- `_NDB_SLOT`. -/
def ndbSlot : ℕ := 16

/-- `_NDB_BLK`. -/
def ndbBlk : ℕ := 16

/-- `_NDB_HEADER`: the first two slots hold the file header. -/
def ndbHeader : ℕ := 32

/-- `_NDB_BLOBHEAD`. -/
def ndbBlobhead : ℕ := 16

/-- `_NDB_BLOBTAIL`. -/
def ndbBlobtail : ℕ := 12

/-- `_NDB_MAX_SLOTNPAGES`. -/
def ndbMaxSlotnpages : ℕ := 0xFFFFFFFF / (ndbPage / ndbBlk)

/-- `b"Slot"`. -/
def slotMagic : Bytes := [0x53, 0x6c, 0x6f, 0x74]

/-- `b"BlbS"`. -/
def blobStartMagic : Bytes := [0x42, 0x6c, 0x62, 0x53]

/-- `b"BlbE"`. -/
def blobEndMagic : Bytes := [0x42, 0x6c, 0x62, 0x45]

/-- The two sums of Adler-32 after one more byte. -/
def adlerStep (sums : ℕ × ℕ) (byte : UInt8) : ℕ × ℕ :=
  let low := (sums.1 + byte.toNat) % 65521
  (low, (sums.2 + low) % 65521)

/-- `zlib.adler32`. -/
def adler32 (data : Bytes) : ℕ :=
  let sums := data.foldl adlerStep (1, 0)
  sums.2 * 65536 + sums.1

/-- A record of the format `<4sIII`. -/
structure NdbRecord where
  magic : Bytes
  first : ℕ
  second : ℕ
  third : ℕ

/-- The record at an offset. -/
def ndbRecord (data : Bytes) (off : ℕ) : NdbRecord where
  magic := slice data off (off + 4)
  first := field .little 4 data (off + 4)
  second := field .little 4 data (off + 8)
  third := field .little 4 data (off + 12)

/-- `struct.unpack_from("<4sIII", data, off)`. -/
def unpackRecord (data : Bytes) (off : ℕ) : Except Fault NdbRecord := do
  let record ← unpackFrom 16 data off
  return ndbRecord record 0

/-- The number of blocks of a blob with its head and tail. -/
def blobBlocks (blen : ℕ) : ℕ := (ndbBlobhead + blen + ndbBlobtail + (ndbBlk - 1)) / ndbBlk

/-- What the loop body of `_iter_ndb_blobs` makes of the region of a slot. -/
def regionBlob (zlib : Bool) (pkgidx blkcnt : ℕ) (region : Bytes) : Except Fault Bytes := do
  let head ← unpackRecord region 0
  raiseIf (head.magic ≠ blobStartMagic ∨ head.first ≠ pkgidx ∨ blkcnt ≠ blobBlocks head.third)
    (.rpmdb s!"bad ndb blob for package index {pkgidx}")
  -- The region has at least two blocks here, so the offset is not negative.
  let tail ← unpackFrom 12 region (region.length - ndbBlobtail)
  raiseIf (slice tail 8 12 ≠ blobEndMagic ∨ field .little 4 tail 4 ≠ head.third)
    (.rpmdb s!"bad ndb blob trailer for package index {pkgidx}")
  raiseIf (zlib ∧ adler32 (region.take (region.length - ndbBlobtail)) ≠ field .little 4 tail 0)
    (.rpmdb s!"ndb blob checksum mismatch for package index {pkgidx}")
  return slice region ndbBlobhead (ndbBlobhead + head.third)

/-- The loop body of `_iter_ndb_blobs`: the blob of a slot, none for a free slot. -/
def slotBlob (zlib : Bool) (file : Bytes) (fileblks minblkoff : ℕ) (slots : Bytes) (off : ℕ) :
    Except Fault (Option Bytes) := do
  let slot ← unpackRecord slots off
  let pkgidx := slot.first
  let blkoff := slot.second
  let blkcnt := slot.third
  raiseIf (slot.magic ≠ slotMagic) (.rpmdb s!"bad ndb slot magic at offset {off}")
  if blkoff = 0 then
    return none
  else
    raiseIf (pkgidx = 0 ∨ blkoff < minblkoff ∨ fileblks < blkoff + blkcnt)
      (.rpmdb s!"bad ndb slot at offset {off}")
    let region ← preadExact file (blkcnt * ndbBlk) (blkoff * ndbBlk)
    let blob ← regionBlob zlib pkgidx blkcnt region
    return some blob

/-- The checks of the file header; returns the number of slot pages. -/
def ndbSlotnpages (file : Bytes) (size : ℕ) : Except Fault ℕ := do
  let head ← preadExact file ndbHeader 0
  let record ← unpackRecord head 0
  let version := record.first
  let slotnpages := record.third
  raiseIf (record.magic ≠ ndbMagic) (.rpmdb "not an ndb database")
  raiseIf (version ≠ 0) (.rpmdb s!"unsupported ndb version {version}")
  raiseIf (size % ndbBlk ≠ 0 ∨ ¬ (0 < slotnpages ∧ slotnpages ≤ ndbMaxSlotnpages))
    (.rpmdb "implausible ndb file size or slot page count")
  raiseIf (size < slotnpages * ndbPage) (.rpmdb "ndb file shorter than its slot pages")
  return slotnpages

/-- One turn of the slot loop. -/
def ndbTurn (zlib : Bool) (file : Bytes) (fileblks minblkoff : ℕ) (slots : Bytes) (off : ℕ) :
    Gen Fault Bytes Unit := do
  let blob ← slotBlob zlib file fileblks minblkoff slots off
  match blob with
  | none => return ()
  | some blob => Gen.yield blob

/-- `_iter_ndb_blobs`. -/
def iterNdbBlobs (zlib : Bool) (file : Bytes) (size : ℕ) : Gen Fault Bytes Unit := do
  let slotnpages ← ndbSlotnpages file size
  let fileblks := size / ndbBlk
  let minblkoff := slotnpages * (ndbPage / ndbBlk)
  let slots ← preadExact file (slotnpages * ndbPage) 0
  (rangeStep ndbHeader slots.length ndbSlot).forM
    (ndbTurn zlib file fileblks minblkoff slots)

/-! ## Berkeley DB -/

/-- `_BDB_HASH_MAGIC`. -/
def bdbHashMagic : ℕ := 0x00061561

/-- `_BDB_PAGE_TYPES_HASH`. -/
def bdbPageTypesHash : List ℕ := [2, 13]

/-- `_BDB_PAGE_OVERFLOW`. -/
def bdbPageOverflow : ℕ := 7

/-- `_BDB_ITEM_KEYDATA`. -/
def bdbItemKeydata : ℕ := 1

/-- `_BDB_ITEM_OFFPAGE`. -/
def bdbItemOffpage : ℕ := 3

/-- `_BDB_PAGE_HEADER`. -/
def bdbPageHeader : ℕ := 26

/-- What the reader takes from the meta page. -/
structure BdbMeta where
  order : ByteOrder
  pagesize : ℕ
  lastpage : ℕ
  maxbucket : ℕ
  spares : List ℕ

/-- The byte order in which the magic number is right. -/
def bdbOrder (head : Bytes) : Except Fault ByteOrder := do
  let little ← unpackNat .little 4 head 12
  if little = bdbHashMagic then
    return .little
  else
    let big ← unpackNat .big 4 head 12
    if big = bdbHashMagic then
      return .big
    else
      throw (.rpmdb "not a Berkeley DB hash database")

/-- The meta page and its checks. -/
def bdbMeta (file : Bytes) (size : ℕ) : Except Fault BdbMeta := do
  let head ← preadExact file 512 0
  let order ← bdbOrder head
  let versionPagesize ← unpackFrom 8 head 16
  let version := field order 4 versionPagesize 0
  let pagesize := field order 4 versionPagesize 4
  let lastpage ← unpackNat order 4 head 32
  let maxbucket ← unpackNat order 4 head 72
  let spares ← unpackNats order 4 32 head 96
  raiseIf (¬ (8 ≤ version ∧ version ≤ 10))
    (.rpmdb s!"unsupported Berkeley DB hash version {version}")
  raiseIf (pagesize < 512 ∨ 65536 < pagesize ∨ pagesize &&& (pagesize - 1) ≠ 0)
    (.rpmdb s!"implausible Berkeley DB page size {pagesize}")
  raiseIf (size < (lastpage + 1) * pagesize)
    (.rpmdb "Berkeley DB file shorter than its last page")
  raiseIf (lastpage < maxbucket) (.rpmdb s!"implausible bucket count {maxbucket}")
  return ⟨order, pagesize, lastpage, maxbucket, spares⟩

/-- `page`. -/
def page (file : Bytes) (base : BdbMeta) (pgno : ℕ) : Except Fault Bytes := do
  raiseIf (¬ (0 < pgno ∧ pgno ≤ base.lastpage)) (.rpmdb s!"page {pgno} out of range")
  let pg ← preadExact file base.pagesize (pgno * base.pagesize)
  let number ← unpackNat base.order 4 pg 8
  raiseIf (number ≠ pgno) (.rpmdb s!"page {pgno} carries the wrong page number")
  return pg

theorem page_ok {file : Bytes} {base : BdbMeta} {pgno : ℕ} {pg : Bytes}
    (hpage : page file base pgno = .ok pg) :
    0 < pgno ∧ pgno ≤ base.lastpage ∧ pg.length = base.pagesize := by
  obtain ⟨_, hrange, hpage⟩ := except_bind_ok.mp hpage
  obtain ⟨read, hread, hpage⟩ := except_bind_ok.mp hpage
  obtain ⟨number, _, hpage⟩ := except_bind_ok.mp hpage
  obtain ⟨_, _, hpage⟩ := except_bind_ok.mp hpage
  obtain rfl := Except.ok.inj hpage
  have hrange := not_not.mp (raiseIf_ok.mp hrange)
  exact ⟨hrange.1, hrange.2, (preadExact_ok hread).2⟩

/-- The local variables of the loop of `overflow`. -/
structure OverflowState where
  pgno : ℕ
  out : Bytes
  seen : List ℕ

/-- One turn of the loop of `overflow`. -/
def overflowStep (file : Bytes) (base : BdbMeta) (total : ℕ) (state : OverflowState) :
    Except Fault OverflowState := do
  let pgno := state.pgno
  raiseIf (pgno ∈ state.seen) (.rpmdb s!"overflow chain loops at page {pgno}")
  let pg ← page file base pgno
  let type ← byteAt pg 25
  raiseIf (type ≠ bdbPageOverflow) (.rpmdb s!"page {pgno} is not an overflow page")
  let used ← unpackNat base.order 2 pg 22
  raiseIf (used = 0 ∨ base.pagesize < used + bdbPageHeader ∨ total < state.out.length + used)
    (.rpmdb s!"bad overflow length on page {pgno}")
  let next ← unpackNat base.order 4 pg 16
  return ⟨next, state.out ++ slice pg bdbPageHeader (bdbPageHeader + used), state.seen ++ [pgno]⟩

/-- What one turn of the loop of `overflow` does. -/
theorem overflowStep_ok {file : Bytes} {base : BdbMeta} {total : ℕ} {state next : OverflowState}
    (hstep : overflowStep file base total state = .ok next) :
    state.out.length < next.out.length ∧ next.out.length ≤ total := by
  obtain ⟨_, _, hstep⟩ := except_bind_ok.mp hstep
  obtain ⟨pg, hpage, hstep⟩ := except_bind_ok.mp hstep
  obtain ⟨type, _, hstep⟩ := except_bind_ok.mp hstep
  obtain ⟨_, _, hstep⟩ := except_bind_ok.mp hstep
  obtain ⟨used, _, hstep⟩ := except_bind_ok.mp hstep
  obtain ⟨_, hused, hstep⟩ := except_bind_ok.mp hstep
  obtain ⟨after, _, hstep⟩ := except_bind_ok.mp hstep
  obtain rfl := Except.ok.inj hstep
  have hused := raiseIf_ok.mp hused
  have hlength := (page_ok hpage).2.2
  simp only [List.length_append, length_slice]
  omega

/-- The loop of `overflow`; every turn takes bytes from the total. -/
def overflowLoop (file : Bytes) (base : BdbMeta) (total : ℕ) :
    Loop OverflowState (Except Fault Bytes) where
  turn state :=
    if state.out.length < total then
      match overflowStep file base total state with
      | .ok next => .inl next
      | .error fault => .inr (.error fault)
    else .inr (.ok state.out)
  below := InvImage (· < ·) fun state => total - state.out.length
  wellFounded := InvImage.wf _ Nat.lt_wfRel.wf
  decreases := by
    intro state next hturn
    split at hturn
    · next hshort =>
        cases hstep : overflowStep file base total state with
        | ok other =>
            rw [hstep] at hturn
            obtain rfl := Sum.inl.inj hturn
            have hgrows := overflowStep_ok hstep
            show total - other.out.length < total - state.out.length
            omega
        | error fault =>
            rw [hstep] at hturn
            cases hturn
    · cases hturn

/-- `overflow`. -/
def overflow (file : Bytes) (base : BdbMeta) (pgno total : ℕ) : Except Fault Bytes := do
  raiseIf (total = 0) (.rpmdb "empty overflow item")
  (overflowLoop file base total).result ⟨pgno, [], []⟩

/-- `item`. -/
def item (file : Bytes) (base : BdbMeta) (pg : Bytes) (off length : ℕ) : Except Fault Bytes := do
  raiseIf (length = 0 ∨ base.pagesize < off + length) (.rpmdb "hash item outside its page")
  let kind ← byteAt pg off
  if kind = bdbItemKeydata then
    return slice pg (off + 1) (off + length)
  else if kind = bdbItemOffpage ∧ length = 12 then
    let record ← unpackFrom 8 pg (off + 4)
    overflow file base (field base.order 4 record 0) (field base.order 4 record 4)
  else
    throw (.rpmdb s!"unsupported hash item type {kind}")

/-- `entries[index]` of a tuple. -/
def entryAt (entries : List ℕ) (index : ℕ) : Except Fault ℕ :=
  match entries[index]? with
  | some entry => .ok entry
  | none => .error .indexError

/-- Where the key of an entry ends: at the end of the page, or where the entry before starts. -/
def keyEnd (base : BdbMeta) (offs : List ℕ) (idx : ℕ) : Except Fault ℕ :=
  if idx = 0 then .ok base.pagesize else entryAt offs (idx - 1)

/-- The value of an entry of a hash page; none for a key that is no header number, and for
rpm's instance counter, record 0. -/
def entryValue (file : Bytes) (base : BdbMeta) (pgno : ℕ) (pg : Bytes) (offs : List ℕ)
    (idx : ℕ) : Except Fault (Option Bytes) := do
  let koff ← entryAt offs idx
  let voff ← entryAt offs (idx + 1)
  let kend ← keyEnd base offs idx
  raiseIf (¬ (voff < koff ∧ koff < kend ∧ kend ≤ base.pagesize))
    (.rpmdb s!"page {pgno} entry {idx} overlaps")
  let key ← item file base pg koff (kend - koff)
  if key.length ≠ 4 ∨ toNat base.order key = 0 then
    return none
  else
    let value ← item file base pg voff (koff - voff)
    return some value

/-- What happens in a run of the reader: a page of a bucket chain is visited, or a value is
yielded. -/
inductive BdbEvent where
  | visit (pgno : ℕ)
  | value (blob : Bytes)

/-- One turn of the loop over the entries of a hash page. -/
def entryTurn (file : Bytes) (base : BdbMeta) (pgno : ℕ) (pg : Bytes) (offs : List ℕ)
    (idx : ℕ) : Gen Fault BdbEvent Unit := do
  let value ← entryValue file base pgno pg offs idx
  match value with
  | none => return ()
  | some blob => Gen.yield (.value blob)

/-- The values of a hash page; returns the next page of the chain. -/
def hashPage (file : Bytes) (base : BdbMeta) (pgno : ℕ) : Gen Fault BdbEvent ℕ := do
  let pg ← page file base pgno
  let type ← byteAt pg 25
  raiseIf (type ∉ bdbPageTypesHash) (Fault.rpmdb s!"page {pgno} is not a hash page")
  let nent ← unpackNat base.order 2 pg 20
  raiseIf ((base.pagesize - bdbPageHeader) / 2 < nent)
    (Fault.rpmdb s!"page {pgno} claims {nent} entries")
  let offs ← unpackNats base.order 2 nent pg bdbPageHeader
  (rangeStep 0 (nent - 1) 2).forM (entryTurn file base pgno pg offs)
  unpackNat base.order 4 pg 16

/-- The local variables of the loop along a bucket chain. -/
structure ChainState where
  pgno : ℕ
  visited : List ℕ

/-- One turn of the loop along a bucket chain. -/
def chainTurn (file : Bytes) (base : BdbMeta) (state : ChainState) :
    Gen Fault BdbEvent (ChainState ⊕ List ℕ) := do
  let pgno := state.pgno
  if pgno = 0 then
    return .inr state.visited
  else
    raiseIf (pgno ∈ state.visited) (Fault.rpmdb s!"bucket chain loops at page {pgno}")
    Gen.yield (.visit pgno)
    let next ← hashPage file base pgno
    return .inl ⟨next, state.visited ++ [pgno]⟩

/-- A hash page was a page of the file. -/
theorem hashPage_ok {file : Bytes} {base : BdbMeta} {pgno next : ℕ}
    (hended : (hashPage file base pgno).ended = .ok next) : pgno ≤ base.lastpage := by
  obtain ⟨pg, hpage, _⟩ := Gen.bind_ended_ok.mp hended
  exact (page_ok hpage).2.1

/-- What one turn along a bucket chain does. -/
theorem chainTurn_cases (file : Bytes) (base : BdbMeta) (state : ChainState) :
    (state.pgno = 0 ∧ chainTurn file base state = ⟨[], .ok (.inr state.visited)⟩) ∨
      (state.pgno ∈ state.visited ∧ ∃ message,
        chainTurn file base state = ⟨[], .error (.rpmdb message)⟩) ∨
      (state.pgno ≠ 0 ∧ state.pgno ∉ state.visited ∧
        chainTurn file base state =
          ⟨.visit state.pgno :: (hashPage file base state.pgno).log,
            (hashPage file base state.pgno).ended.map fun next =>
              .inl ⟨next, state.visited ++ [state.pgno]⟩⟩) := by
  by_cases hzero : state.pgno = 0
  · refine Or.inl ⟨hzero, ?_⟩
    rw [chainTurn, if_pos hzero]
    rfl
  · by_cases hvisited : state.pgno ∈ state.visited
    · refine Or.inr (Or.inl ⟨hvisited, s!"bucket chain loops at page {state.pgno}", ?_⟩)
      rw [chainTurn, if_neg hzero]
      exact Gen.lift_bind_error (raiseIf_of hvisited)
    · refine Or.inr (Or.inr ⟨hzero, hvisited, ?_⟩)
      rw [chainTurn, if_neg hzero, Gen.lift_bind_ok (raiseIf_of_not hvisited)]
      cases hended : (hashPage file base state.pgno).ended with
      | ok next =>
          rw [Gen.bind_of_ok (Gen.yield_ended _), Gen.bind_of_ok hended]
          simp [Except.map]
      | error fault =>
          rw [Gen.bind_of_ok (Gen.yield_ended _), Gen.bind_of_error hended]
          simp [Except.map]

theorem chainTurn_continues {file : Bytes} {base : BdbMeta} {state next : ChainState}
    (hended : (chainTurn file base state).ended = .ok (.inl next)) :
    state.pgno ∉ state.visited ∧ state.pgno ≤ base.lastpage ∧
      next.visited = state.visited ++ [state.pgno] := by
  rcases chainTurn_cases file base state with
    ⟨_, hturn⟩ | ⟨_, message, hturn⟩ | ⟨_, hvisited, hturn⟩
  · rw [hturn] at hended
    cases hended
  · rw [hturn] at hended
    cases hended
  · rw [hturn] at hended
    cases hpage : (hashPage file base state.pgno).ended with
    | ok after =>
        rw [hpage] at hended
        obtain rfl := Sum.inl.inj (Except.ok.inj hended)
        exact ⟨hvisited, hashPage_ok hpage, rfl⟩
    | error fault =>
        rw [hpage] at hended
        cases hended

/-- The loop along a bucket chain; every turn visits a page that was not visited. -/
def chainLoop (file : Bytes) (base : BdbMeta) : Turns ChainState Fault BdbEvent (List ℕ) where
  turn := chainTurn file base
  measure state := unseen (base.lastpage + 1) state.visited
  decreases := by
    intro state next hended
    obtain ⟨hvisited, hlast, hnext⟩ := chainTurn_continues hended
    rw [hnext]
    exact unseen_append_lt (Nat.lt_succ_of_le hlast) hvisited

/-- The body of the loop over the buckets. -/
def bucketTurn (file : Bytes) (base : BdbMeta) (visited : List ℕ) (bucket : ℕ) :
    Gen Fault BdbEvent (List ℕ) := do
  let spare ← entryAt base.spares (Nat.size bucket)
  (chainLoop file base).run ⟨bucket + spare, visited⟩

/-- A run of `_iter_bdb_hash_values`, with the pages of the bucket chains that it visits. -/
def bdbRun (file : Bytes) (size : ℕ) : Gen Fault BdbEvent (List ℕ) := do
  let base ← bdbMeta file size
  (List.range (base.maxbucket + 1)).foldlM (bucketTurn file base) []

/-- The values of a run. -/
def BdbEvent.value? : BdbEvent → Option Bytes
  | .visit _ => none
  | .value blob => some blob

/-- The page that is visited. -/
def BdbEvent.visit? : BdbEvent → Option ℕ
  | .visit pgno => some pgno
  | .value _ => none

/-- `_iter_bdb_hash_values`. -/
def iterBdbHashValues (file : Bytes) (size : ℕ) : Gen Fault Bytes Unit :=
  ⟨(bdbRun file size).log.filterMap BdbEvent.value?, (bdbRun file size).ended.map fun _ => ()⟩

end PqcReadiness.Packages
