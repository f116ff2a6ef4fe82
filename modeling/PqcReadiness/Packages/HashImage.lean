import PqcReadiness.Packages.BerkeleyDb
import Mathlib.Tactic.IntervalCases

/-!
# Well-formed Berkeley DB databases

`HashImage` says that a file is a hash database that holds given records, in the terms of
Berkeley DB: overflow chains, items, pairs of items on a page, bucket chains, and the page
of a bucket as `bucket + spares[⌈log₂ (bucket + 1)⌉]`.

## Strategy

Each relation of an image is followed by one function of the reader, and has one lemma:
`overflow` reads the data of an `OverflowChain`, `item` that of a `StoredItem`, the loop over
the entries the pairs of `PageItems`, and the loop along a chain the entries of a
`BucketChain`.  The pages of the image are distinct, so that the checks for loops do not
stop the reader.
-/

namespace PqcReadiness.Packages

open PqcReadiness.Lib PqcReadiness.Lib.Bytes

/-! ## Images -/

/-- The bytes of a page. -/
def pageAt (file : Bytes) (base : BdbMeta) (pgno : ℕ) : Bytes :=
  slice file (pgno * base.pagesize) (pgno * base.pagesize + base.pagesize)

/-- A page of the file with its number and type. -/
structure TypedPage (file : Bytes) (base : BdbMeta) (pgno type : ℕ) : Prop where
  positive : 0 < pgno
  inRange : pgno ≤ base.lastpage
  number : field base.order 4 (pageAt file base pgno) 8 = pgno
  type : field .little 1 (pageAt file base pgno) 25 = type

/-- The overflow pages from `pgno` on, and the data on them. -/
inductive OverflowChain (file : Bytes) (base : BdbMeta) : ℕ → List ℕ → Bytes → Prop where
  | done : OverflowChain file base 0 [] []
  | page {pgno next : ℕ} {pages : List ℕ} {chunk rest : Bytes}
      (hpage : TypedPage file base pgno bdbPageOverflow)
      (hused : field base.order 2 (pageAt file base pgno) 22 = chunk.length)
      (hchunk : slice (pageAt file base pgno) bdbPageHeader (bdbPageHeader + chunk.length) = chunk)
      (hnonempty : chunk ≠ [])
      (hnext : field base.order 4 (pageAt file base pgno) 16 = next)
      (hrest : OverflowChain file base next pages rest) :
      OverflowChain file base pgno (pgno :: pages) (chunk ++ rest)

/-- An item of a page at an offset, its length on the page, and its data: on the page itself,
or on overflow pages. -/
inductive StoredItem (file : Bytes) (base : BdbMeta) (pg : Bytes) : ℕ → ℕ → Bytes → Prop where
  | keydata {off : ℕ} {data : Bytes}
      (hkind : field .little 1 pg off = bdbItemKeydata)
      (hdata : slice pg (off + 1) (off + 1 + data.length) = data) :
      StoredItem file base pg off (data.length + 1) data
  | offpage {off pgno : ℕ} {pages : List ℕ} {data : Bytes}
      (hkind : field .little 1 pg off = bdbItemOffpage)
      (hpgno : field base.order 4 pg (off + 4) = pgno)
      (htotal : field base.order 4 pg (off + 8) = data.length)
      (hnonempty : data ≠ [])
      (hchain : OverflowChain file base pgno pages data) (hdistinct : pages.Nodup) :
      StoredItem file base pg off 12 data

/-- Pairs of items that fill a page downwards from an offset. -/
inductive PageItems (file : Bytes) (base : BdbMeta) (pg : Bytes) :
    ℕ → List ℕ → List (Bytes × Bytes) → Prop where
  | nil {fin : ℕ} : PageItems file base pg fin [] []
  | pair {fin koff voff : ℕ} {offs : List ℕ} {key value : Bytes} {rest : List (Bytes × Bytes)}
      (hvalue : voff < koff) (hkey : koff < fin)
      (hkeyItem : StoredItem file base pg koff (fin - koff) key)
      (hvalueItem : StoredItem file base pg voff (koff - voff) value)
      (hrest : PageItems file base pg voff offs rest) :
      PageItems file base pg fin (koff :: voff :: offs) ((key, value) :: rest)

/-- A hash page with its entries and the next page of its bucket.  The table of offsets ends
before the items start. -/
structure HashPage (file : Bytes) (base : BdbMeta) (pgno next : ℕ)
    (entries : List (Bytes × Bytes)) (offs : List ℕ) : Prop where
  page : ∃ type ∈ bdbPageTypesHash, TypedPage file base pgno type
  count : field base.order 2 (pageAt file base pgno) 20 = offs.length
  table : offs = (List.range offs.length).map fun index =>
    field base.order 2 (pageAt file base pgno) (bdbPageHeader + 2 * index)
  room : ∀ off ∈ offs, bdbPageHeader + 2 * offs.length ≤ off
  items : PageItems file base (pageAt file base pgno) base.pagesize offs entries
  next : field base.order 4 (pageAt file base pgno) 16 = next

/-- The pages of a bucket from `pgno` on, and the entries on them. -/
inductive BucketChain (file : Bytes) (base : BdbMeta) :
    ℕ → List ℕ → List (Bytes × Bytes) → Prop where
  | done : BucketChain file base 0 [] []
  | page {pgno next : ℕ} {pages offs : List ℕ} {entries rest : List (Bytes × Bytes)}
      (hpage : HashPage file base pgno next entries offs)
      (hrest : BucketChain file base next pages rest) :
      BucketChain file base pgno (pgno :: pages) (entries ++ rest)

/-- A bucket, with its pages and entries. -/
structure Bucket where
  pages : List ℕ
  entries : List (Bytes × Bytes)

/-- Where the chain of a bucket starts. -/
structure Bucket.Stored (file : Bytes) (base : BdbMeta) (number : ℕ) (bucket : Bucket) : Prop where
  nonempty : bucket.pages ≠ []
  chain : ∃ spare, base.spares[Nat.clog 2 (number + 1)]? = some spare ∧
    BucketChain file base (number + spare) bucket.pages bucket.entries

/-- A hash database that holds the records, each under its header number. -/
structure HashImage (file : Bytes) (base : BdbMeta) (records : List (ℕ × Bytes)) : Prop where
  magic : field base.order 4 file 12 = bdbHashMagic
  version : 8 ≤ field base.order 4 file 16 ∧ field base.order 4 file 16 ≤ 10
  pagesize : field base.order 4 file 20 = base.pagesize
  powerOfTwo : ∃ exponent, 9 ≤ exponent ∧ exponent ≤ 16 ∧ base.pagesize = 2 ^ exponent
  lastpage : field base.order 4 file 32 = base.lastpage
  maxbucket : field base.order 4 file 72 = base.maxbucket
  spares : base.spares = (List.range 32).map fun index => field base.order 4 file (96 + 4 * index)
  complete : (base.lastpage + 1) * base.pagesize ≤ file.length
  numbers : ∀ record ∈ records, record.1 < 2 ^ 32
  buckets : ∃ buckets : List Bucket, buckets.length = base.maxbucket + 1 ∧
    (∀ number (bucket : Bucket), buckets[number]? = some bucket →
      bucket.Stored file base number) ∧
    (buckets.flatMap Bucket.pages).Nodup ∧
    (buckets.flatMap Bucket.entries).Perm
      (records.map fun record => (ofNat base.order 4 record.1, record.2))

/-! ## Reading an image -/

section Reading

variable {file : Bytes} {base : BdbMeta} {pgno : ℕ}

theorem length_pageAt (hfits : base.Fits file) (hrange : pgno ≤ base.lastpage) :
    (pageAt file base pgno).length = base.pagesize := by
  have hpages : (pgno + 1) * base.pagesize ≤ (base.lastpage + 1) * base.pagesize :=
    Nat.mul_le_mul_right _ (by omega)
  have hlast := hfits.lastpage
  rw [Nat.add_mul, Nat.one_mul] at hpages
  rw [pageAt, length_slice_of_le (by omega)]
  omega

theorem page_of_typed (hfits : base.Fits file) {type : ℕ}
    (htyped : TypedPage file base pgno type) :
    page file base pgno = .ok (pageAt file base pgno) := by
  have hlength := length_pageAt hfits htyped.inRange
  have hpagesize := hfits.pagesize
  have hinside : pgno * base.pagesize + base.pagesize ≤ file.length := by
    rw [pageAt, length_slice] at hlength
    omega
  rw [page, raiseIf_of_not (not_not.mpr ⟨htyped.positive, htyped.inRange⟩), ok_bind,
    preadExact_of_le hinside, ok_bind]
  show (unpackNat base.order 4 (pageAt file base pgno) 8 >>= _) = _
  rw [unpackNat_of_le (by omega), ok_bind, raiseIf_of_not (not_not.mpr htyped.number)]
  rfl

theorem overflowStep_of_page (hfits : base.Fits file) {next total : ℕ} {chunk out : Bytes}
    {seen : List ℕ} (htyped : TypedPage file base pgno bdbPageOverflow)
    (hused : field base.order 2 (pageAt file base pgno) 22 = chunk.length)
    (hchunk : slice (pageAt file base pgno) bdbPageHeader (bdbPageHeader + chunk.length) = chunk)
    (hnonempty : chunk ≠ []) (hnext : field base.order 4 (pageAt file base pgno) 16 = next)
    (hnew : pgno ∉ seen) (hroom : out.length + chunk.length ≤ total) :
    overflowStep file base total ⟨pgno, out, seen⟩ = .ok ⟨next, out ++ chunk, seen ++ [pgno]⟩ := by
  have hlength := length_pageAt hfits htyped.inRange
  have hpagesize := hfits.pagesize
  have hchunkLength : 0 < chunk.length := List.length_pos_iff.mpr hnonempty
  have hinside : chunk.length + bdbPageHeader ≤ base.pagesize := by
    have hsum := congrArg List.length hchunk
    rw [length_slice] at hsum
    omega
  have hlengths : ¬ (chunk.length = 0 ∨ base.pagesize < chunk.length + bdbPageHeader ∨
      total < out.length + chunk.length) := by
    omega
  rw [overflowStep, raiseIf_of_not hnew, ok_bind, page_of_typed hfits htyped, ok_bind,
    byteAt_of_lt (by omega), ok_bind, raiseIf_of_not (not_not.mpr htyped.type), ok_bind,
    unpackNat_of_le (by omega), ok_bind, hused, raiseIf_of_not hlengths, ok_bind,
    unpackNat_of_le (by omega), ok_bind, hnext, hchunk]
  rfl

/-- The loop of `overflow` reads the rest of a chain. -/
theorem overflowLoop_of_chain (hfits : base.Fits file) {pages : List ℕ} {data : Bytes}
    (hchain : OverflowChain file base pgno pages data) {total : ℕ} {out : Bytes} {seen : List ℕ}
    (hdistinct : (seen ++ pages).Nodup) (htotal : out.length + data.length = total) :
    (overflowLoop file base total).result ⟨pgno, out, seen⟩ = .ok (out ++ data) := by
  induction hchain generalizing out seen with
  | done =>
      have hturn : (overflowLoop file base total).turn ⟨0, out, seen⟩ = .inr (.ok out) := by
        have hfull : ¬ out.length < total := by
          simp at htotal
          omega
        simp [overflowLoop, hfull]
      rw [Loop.result_of_leaves hturn, List.append_nil]
  | @page pgno next pages chunk rest hpage hused hchunk hnonempty hnext _ ih =>
      rw [List.length_append] at htotal
      have hchunkLength : 0 < chunk.length := List.length_pos_iff.mpr hnonempty
      have hnew : pgno ∉ seen := by
        intro hseen
        exact List.disjoint_of_nodup_append hdistinct hseen List.mem_cons_self
      have hstep : overflowStep file base total ⟨pgno, out, seen⟩ =
          .ok ⟨next, out ++ chunk, seen ++ [pgno]⟩ :=
        overflowStep_of_page hfits hpage hused hchunk hnonempty hnext hnew (by omega)
      have hturn : (overflowLoop file base total).turn ⟨pgno, out, seen⟩ =
          .inl ⟨next, out ++ chunk, seen ++ [pgno]⟩ := by
        have hshort : out.length < total := by omega
        simp [overflowLoop, hshort, hstep]
      rw [Loop.result_of_continues hturn, ih, List.append_assoc]
      · rw [List.append_assoc]
        exact hdistinct
      · rw [List.length_append]
        omega

theorem item_of_stored (hfits : base.Fits file) {pg : Bytes} (hlength : pg.length = base.pagesize)
    {off length : ℕ} {data : Bytes} (hstored : StoredItem file base pg off length data)
    (hinside : off + length ≤ base.pagesize) : item file base pg off length = .ok data := by
  cases hstored with
  | keydata hkind hdata =>
      have hbounds : ¬ (data.length + 1 = 0 ∨ base.pagesize < off + (data.length + 1)) := by
        omega
      rw [item, raiseIf_of_not hbounds, ok_bind, byteAt_of_lt (by omega), ok_bind, if_pos hkind,
        Nat.add_comm data.length 1, ← Nat.add_assoc, hdata]
      rfl
  | offpage hkind hpgno htotal hnonempty hchain hdistinct =>
      have hbounds : ¬ ((12 : ℕ) = 0 ∨ base.pagesize < off + 12) := by
        omega
      have hother : field .little 1 pg off ≠ bdbItemKeydata := by
        rw [hkind]
        decide
      have hdataLength : data.length ≠ 0 := by
        rw [Ne, List.length_eq_zero_iff]
        exact hnonempty
      rw [item, raiseIf_of_not hbounds, ok_bind, byteAt_of_lt (by omega), ok_bind, if_neg hother,
        if_pos ⟨hkind, rfl⟩, unpackFrom_of_le (by omega), ok_bind, field_slice (by omega),
        field_slice (by omega), Nat.add_zero, Nat.add_assoc off 4 4, hpgno, htotal, overflow,
        raiseIf_of_not hdataLength, ok_bind]
      refine overflowLoop_of_chain hfits hchain (by simpa using hdistinct) ?_
      rw [List.length_nil, Nat.zero_add]

/-- The value of an entry that is a package. -/
def packageValue (base : BdbMeta) (entry : Bytes × Bytes) : Option Bytes :=
  if entry.1.length ≠ 4 ∨ toNat base.order entry.1 = 0 then none else some entry.2

/-- One entry of the page, between the end of its key and the start of its value. -/
theorem entryValue_of_items (hfits : base.Fits file) (pgno : ℕ) {pg : Bytes}
    (hlength : pg.length = base.pagesize) {offs : List ℕ} {idx fin koff voff : ℕ}
    {key value : Bytes} (hkoff : entryAt offs idx = .ok koff)
    (hvoff : entryAt offs (idx + 1) = .ok voff) (hfin : keyEnd base offs idx = .ok fin)
    (hfinInside : fin ≤ base.pagesize) (hvalue : voff < koff) (hkey : koff < fin)
    (hkeyItem : StoredItem file base pg koff (fin - koff) key)
    (hvalueItem : StoredItem file base pg voff (koff - voff) value) :
    entryValue file base pgno pg offs idx = .ok (packageValue base (key, value)) := by
  rw [entryValue, hkoff, ok_bind, hvoff, ok_bind, hfin, ok_bind,
    raiseIf_of_not (not_not.mpr ⟨hvalue, hkey, hfinInside⟩), ok_bind,
    item_of_stored hfits hlength hkeyItem (by omega), ok_bind,
    item_of_stored hfits hlength hvalueItem (by omega), packageValue]
  split <;> rfl

theorem entryTurn_of_value {pg : Bytes} {offs : List ℕ} {idx : ℕ} {value : Option Bytes}
    (hvalue : entryValue file base pgno pg offs idx = .ok value) :
    entryTurn file base pgno pg offs idx = ⟨value.toList.map .value, .ok ()⟩ := by
  rw [entryTurn, Gen.lift_bind_ok hvalue]
  cases value <;> rfl

theorem PageItems.length_even {pg : Bytes} {fin : ℕ} {offs : List ℕ}
    {entries : List (Bytes × Bytes)} (hitems : PageItems file base pg fin offs entries) :
    offs.length = 2 * entries.length := by
  induction hitems with
  | nil => rfl
  | pair _ _ _ _ _ ih =>
      simp only [List.length_cons, ih]
      omega

/-- The loop over the entries, from the entry on that stands behind the offsets `before`. -/
theorem entryLoop_of_items (hfits : base.Fits file) (pgno : ℕ) {pg : Bytes}
    (hlength : pg.length = base.pagesize) {fin : ℕ} {offs : List ℕ}
    {entries : List (Bytes × Bytes)} (hitems : PageItems file base pg fin offs entries)
    (before : List ℕ) (start : ℕ) (hbefore : before.length = 2 * start)
    (hfin : keyEnd base (before ++ offs) (2 * start) = .ok fin)
    (hfinInside : fin ≤ base.pagesize) :
    ((List.range' start entries.length).map (2 * ·)).forM
        (entryTurn file base pgno pg (before ++ offs)) =
      ⟨(entries.filterMap (packageValue base)).map .value, .ok ()⟩ := by
  induction hitems generalizing before start with
  | nil => rfl
  | @pair fin koff voff offs key value rest hvalue hkey hkeyItem hvalueItem _ ih =>
      have hkoff : entryAt (before ++ koff :: voff :: offs) (2 * start) = .ok koff := by
        rw [entryAt, ← hbefore, List.getElem?_append_right le_rfl, Nat.sub_self]
        rfl
      have hvoff : entryAt (before ++ koff :: voff :: offs) (2 * start + 1) = .ok voff := by
        rw [entryAt, ← hbefore, List.getElem?_append_right (Nat.le_add_right _ 1),
          Nat.add_sub_cancel_left]
        rfl
      have hturn := entryTurn_of_value (entryValue_of_items hfits pgno hlength hkoff hvoff hfin
        hfinInside hvalue hkey hkeyItem hvalueItem)
      -- The value that was just read ends where the next key ends.
      have hnext : keyEnd base ((before ++ [koff, voff]) ++ offs) (2 * (start + 1)) = .ok voff := by
        rw [keyEnd, if_neg (by omega), List.append_assoc]
        exact hvoff
      have hrest := ih (before ++ [koff, voff]) (start + 1)
        (by rw [List.length_append, hbefore]; simp; omega) hnext (by omega)
      rw [List.append_assoc] at hrest
      rw [List.length_cons, List.range'_succ, List.map_cons, Gen.forM_cons_of_ok hturn]
      rw [show before ++ koff :: voff :: offs = before ++ ([koff, voff] ++ offs) from rfl, hrest,
        List.filterMap_cons]
      cases packageValue base (key, value) <;> rfl

/-- `hashPage` yields the packages of a page. -/
theorem hashPage_of_page (hfits : base.Fits file) {next : ℕ} {entries : List (Bytes × Bytes)}
    {offs : List ℕ} (hpage : HashPage file base pgno next entries offs) :
    hashPage file base pgno =
      ⟨(entries.filterMap (packageValue base)).map .value, .ok next⟩ := by
  obtain ⟨type, htype, htyped⟩ := hpage.page
  have hlength := length_pageAt hfits htyped.inRange
  have hpagesize := hfits.pagesize
  have hcount : ¬ (base.pagesize - bdbPageHeader) / 2 < offs.length := by
    have hroom := hpage.room
    cases hpage.items with
    | nil => simp
    | pair _ hkey _ _ _ =>
        have hfirst := hroom _ List.mem_cons_self
        omega
  have hindices : rangeStep 0 (offs.length - 1) 2 =
      (List.range' 0 entries.length).map (2 * ·) := by
    have hhalf : (offs.length - 1 - 0 + 2 - 1) / 2 = entries.length := by
      rw [hpage.items.length_even]
      omega
    simp only [rangeStep, hhalf, Nat.zero_add, List.range_eq_range']
  have hroom : bdbPageHeader + 2 * offs.length ≤ (pageAt file base pgno).length := by
    unfold bdbPageHeader at *
    omega
  have hloop := entryLoop_of_items hfits pgno hlength hpage.items [] 0 rfl rfl le_rfl
  rw [hashPage, Gen.lift_bind_ok (page_of_typed hfits htyped),
    Gen.lift_bind_ok (byteAt_of_lt (by omega)), htyped.type,
    Gen.lift_bind_ok (raiseIf_of_not (not_not.mpr htype)),
    Gen.lift_bind_ok (unpackNat_of_le (by omega)), hpage.count,
    Gen.lift_bind_ok (raiseIf_of_not hcount),
    Gen.lift_bind_ok (unpackNats_of_le hroom), ← hpage.table, hindices]
  rw [List.nil_append] at hloop
  rw [Gen.bind_of_ok (congrArg Gen.ended hloop), hloop, unpackNat_of_le (by omega), hpage.next]
  simp

/-- The loop along a bucket chain yields the packages of the chain. -/
theorem chainLoop_of_chain (hfits : base.Fits file) {pages : List ℕ}
    {entries : List (Bytes × Bytes)} (hchain : BucketChain file base pgno pages entries)
    (visited : List ℕ) (hdistinct : (visited ++ pages).Nodup) :
    ((chainLoop file base).run ⟨pgno, visited⟩).log.filterMap BdbEvent.value? =
        entries.filterMap (packageValue base) ∧
      ((chainLoop file base).run ⟨pgno, visited⟩).ended = .ok (visited ++ pages) := by
  induction hchain generalizing visited with
  | done =>
      have hended : ((chainLoop file base).turn ⟨0, visited⟩).ended = .ok (.inr visited) := rfl
      rw [Turns.run_of_leaves hended, List.append_nil]
      exact ⟨rfl, rfl⟩
  | @page pgno next pages offs entries rest hpage _ ih =>
      obtain ⟨_, _, htyped⟩ := hpage.page
      have hnew : pgno ∉ visited := by
        intro hvisited
        exact List.disjoint_of_nodup_append hdistinct hvisited List.mem_cons_self
      have hturn : (chainLoop file base).turn ⟨pgno, visited⟩ =
          ⟨.visit pgno :: (entries.filterMap (packageValue base)).map .value,
            .ok (.inl ⟨next, visited ++ [pgno]⟩)⟩ := by
        rcases chainTurn_cases file base ⟨pgno, visited⟩ with
          ⟨hzero, _⟩ | ⟨hvisited, _⟩ | ⟨_, _, hturn⟩
        · exact absurd hzero htyped.positive.ne'
        · exact absurd hvisited hnew
        · rw [hashPage_of_page hfits hpage] at hturn
          exact hturn
      have hvalues : ∀ values : List Bytes,
          (values.map BdbEvent.value).filterMap BdbEvent.value? = values := by
        intro values
        rw [List.filterMap_map]
        exact List.filterMap_some
      obtain ⟨hlog, hended⟩ := ih (visited ++ [pgno])
        (by rw [List.append_assoc]; exact hdistinct)
      rw [Turns.run_of_continues (congrArg Gen.ended hturn), hturn]
      constructor
      · rw [List.filterMap_append, hlog, List.filterMap_append]
        exact congrArg (· ++ rest.filterMap (packageValue base)) (hvalues _)
      · rw [hended, List.append_assoc]
        rfl

/-- Berkeley DB's index into the spares table is the bit length. -/
theorem clog_eq_size (number : ℕ) : Nat.clog 2 (number + 1) = Nat.size number := by
  refine eq_of_forall_ge_iff fun bound => ?_
  rw [Nat.clog_le_iff_le_pow (by decide), Nat.size_le]
  rfl

/-- The loop over the buckets, from bucket `first` on. -/
theorem bucketLoop_of_buckets (hfits : base.Fits file) (buckets : List Bucket) (first : ℕ)
    (hstored : ∀ index (bucket : Bucket), buckets[index]? = some bucket →
      bucket.Stored file base (first + index))
    (visited : List ℕ) (hdistinct : (visited ++ buckets.flatMap Bucket.pages).Nodup) :
    ((List.range' first buckets.length).foldlM (bucketTurn file base) visited).log.filterMap
        BdbEvent.value? = (buckets.flatMap Bucket.entries).filterMap (packageValue base) ∧
      ((List.range' first buckets.length).foldlM (bucketTurn file base) visited).ended =
        .ok (visited ++ buckets.flatMap Bucket.pages) := by
  induction buckets generalizing first visited with
  | nil =>
      refine ⟨rfl, ?_⟩
      rw [List.flatMap_nil, List.append_nil visited]
      rfl
  | cons bucket rest ih =>
      rw [List.flatMap_cons] at hdistinct
      obtain ⟨spare, hspare, hchain⟩ := (hstored 0 bucket rfl).chain
      rw [Nat.add_zero] at hspare hchain
      have hentry : entryAt base.spares (Nat.size first) = .ok spare := by
        rw [clog_eq_size] at hspare
        rw [entryAt, hspare]
      have hturn : bucketTurn file base visited first =
          (chainLoop file base).run ⟨first + spare, visited⟩ := by
        rw [bucketTurn, Gen.lift_bind_ok hentry]
      rw [← List.append_assoc] at hdistinct
      obtain ⟨hlog, hended⟩ := chainLoop_of_chain hfits hchain visited
        (List.Nodup.of_append_left hdistinct)
      have hrest : ∀ index (other : Bucket), rest[index]? = some other →
          other.Stored file base (first + 1 + index) := by
        intro index other hother
        rw [Nat.add_assoc, Nat.add_comm 1 index]
        exact hstored (index + 1) other hother
      obtain ⟨hrestLog, hrestEnded⟩ := ih (first + 1) hrest (visited ++ bucket.pages) hdistinct
      rw [List.length_cons, List.range'_succ, List.foldlM_cons, hturn, Gen.bind_of_ok hended]
      constructor
      · rw [List.filterMap_append, List.flatMap_cons, List.filterMap_append, hrestLog]
        exact congrArg (· ++ _) hlog
      · rw [hrestEnded, List.flatMap_cons, List.append_assoc]

/-! ## The meta page of an image -/

variable {records : List (ℕ × Bytes)}

theorem BucketChain.pages_inRange {pages : List ℕ} {entries : List (Bytes × Bytes)}
    (hchain : BucketChain file base pgno pages entries) :
    ∀ visited ∈ pages, 0 < visited ∧ visited ≤ base.lastpage := by
  induction hchain with
  | done => simp
  | page hpage _ ih =>
      obtain ⟨_, _, htyped⟩ := hpage.page
      intro visited hvisited
      rcases List.mem_cons.mp hvisited with rfl | hvisited
      · exact ⟨htyped.positive, htyped.inRange⟩
      · exact ih visited hvisited

/-- Every bucket has a page of its own, so there are not more buckets than pages. -/
theorem HashImage.maxbucket_le (himage : HashImage file base records) :
    base.maxbucket ≤ base.lastpage := by
  obtain ⟨buckets, hlength, hstored, hdistinct, _⟩ := himage.buckets
  have hcount : ∀ list : List Bucket, (∀ bucket ∈ list, bucket.pages ≠ []) →
      list.length ≤ (list.flatMap Bucket.pages).length := by
    intro list
    induction list with
    | nil => simp
    | cons bucket rest ih =>
        intro hnonempty
        have hfirst : 0 < bucket.pages.length :=
          List.length_pos_iff.mpr (hnonempty bucket List.mem_cons_self)
        have hrest := ih fun other hother => hnonempty other (List.mem_cons_of_mem bucket hother)
        rw [List.flatMap_cons, List.length_append, List.length_cons]
        omega
  have hmem : ∀ bucket ∈ buckets, ∃ number, bucket.Stored file base number := by
    intro bucket hbucket
    obtain ⟨number, hnumber⟩ := List.mem_iff_getElem?.mp hbucket
    exact ⟨number, hstored number bucket hnumber⟩
  have hinRange : buckets.flatMap Bucket.pages ⊆ List.range' 1 base.lastpage := by
    intro visited hvisited
    obtain ⟨bucket, hbucket, hpage⟩ := List.mem_flatMap.mp hvisited
    obtain ⟨number, hbucketStored⟩ := hmem bucket hbucket
    obtain ⟨spare, _, hchain⟩ := hbucketStored.chain
    have hrange := hchain.pages_inRange visited hpage
    rw [List.mem_range'_1]
    omega
  have hpages := (hdistinct.subperm hinRange).length_le
  have hbuckets := hcount buckets fun bucket hbucket =>
    (hmem bucket hbucket).elim fun _ hbucketStored => hbucketStored.nonempty
  rw [List.length_range'] at hpages
  omega

theorem HashImage.fits (himage : HashImage file base records) : base.Fits file := by
  obtain ⟨exponent, hlow, _, hpower⟩ := himage.powerOfTwo
  refine ⟨?_, himage.complete, himage.maxbucket_le, ?_⟩
  · rw [hpower]
    calc 512 = 2 ^ 9 := rfl
      _ ≤ 2 ^ exponent := Nat.pow_le_pow_right (by decide) hlow
  · rw [himage.spares, List.length_map, List.length_range]

/-- The magic number is right in one byte order only. -/
theorem bdbOrder_of_magic {head : Bytes} (hlength : head.length = 512) {order : ByteOrder}
    (hmagic : field order 4 head 12 = bdbHashMagic) : bdbOrder head = .ok order := by
  rw [bdbOrder, unpackNat_of_le (by omega), ok_bind]
  cases order with
  | little =>
      rw [if_pos hmagic]
      rfl
  | big =>
      have hother : field .little 4 head 12 ≠ bdbHashMagic := by
        have hfour : (slice head 12 (12 + 4)).length = 4 := by
          rw [length_slice, hlength]
          rfl
        obtain ⟨first, second, third, fourth, hbytes⟩ := List.length_eq_four.mp hfour
        unfold field bdbHashMagic at *
        rw [hbytes] at hmagic ⊢
        simp only [Bytes.toNat, List.reverse_cons, List.reverse_nil, List.nil_append,
          List.cons_append, littleNat_cons, littleNat_nil] at hmagic ⊢
        have hfirst := first.toNat_lt
        have hfourth := fourth.toNat_lt
        omega
      rw [if_neg hother, unpackNat_of_le (by omega), ok_bind, if_pos hmagic]
      rfl

theorem bdbMeta_of_image (himage : HashImage file base records) :
    bdbMeta file file.length = .ok base := by
  have hfits := himage.fits
  have hroom : 512 ≤ file.length := by
    have hpages : 1 * base.pagesize ≤ (base.lastpage + 1) * base.pagesize :=
      Nat.mul_le_mul_right _ (by omega)
    have hpagesize := hfits.pagesize
    have hlast := hfits.lastpage
    omega
  have hlength : (slice file 0 512).length = 512 := by
    rw [length_slice_of_le hroom]
  have hfield : ∀ off, off + 4 ≤ 512 →
      field base.order 4 (slice file 0 512) off = field base.order 4 file off := by
    intro off hoff
    rw [field_slice (by omega), Nat.zero_add]
  have hspares : ((List.range 32).map fun index =>
      field base.order 4 (slice file 0 512) (96 + 4 * index)) = base.spares := by
    rw [himage.spares]
    refine List.map_congr_left fun index hindex => ?_
    rw [List.mem_range] at hindex
    exact hfield _ (by omega)
  have hversion : field base.order 4 (slice (slice file 0 512) 16 (16 + 8)) 0 =
      field base.order 4 file 16 := by
    rw [field_slice (by decide), Nat.add_zero, hfield 16 (by decide)]
  have hpagesize : field base.order 4 (slice (slice file 0 512) 16 (16 + 8)) 4 =
      base.pagesize := by
    rw [field_slice (by decide), hfield 20 (by decide), himage.pagesize]
  have hpower : ¬ (base.pagesize < 512 ∨ 65536 < base.pagesize ∨
      base.pagesize &&& (base.pagesize - 1) ≠ 0) := by
    obtain ⟨exponent, hlow, hhigh, hpower⟩ := himage.powerOfTwo
    rw [hpower]
    interval_cases exponent <;> decide
  have horder : bdbOrder (slice file 0 512) = .ok base.order :=
    bdbOrder_of_magic hlength ((hfield 12 (by decide)).trans himage.magic)
  rw [bdbMeta, preadExact_of_le (by omega), ok_bind, Nat.zero_add, horder, ok_bind,
    unpackFrom_of_le (by omega), ok_bind, unpackNat_of_le (by omega), ok_bind,
    unpackNat_of_le (by omega), ok_bind, unpackNats_of_le (by omega), ok_bind, hspares, hversion,
    hpagesize, hfield 32 (by decide), hfield 72 (by decide), himage.lastpage, himage.maxbucket,
    raiseIf_of_not (not_not.mpr himage.version), ok_bind,
    raiseIf_of_not hpower, ok_bind, raiseIf_of_not (not_lt.mpr hfits.lastpage), ok_bind,
    raiseIf_of_not (not_lt.mpr hfits.maxbucket), ok_bind]
  rfl

end Reading

/-! ## The reader -/

/-- The packages among the records, as the reader tells them by their keys. -/
theorem packageValue_records {base : BdbMeta} {records : List (ℕ × Bytes)}
    (hnumbers : ∀ record ∈ records, record.1 < 2 ^ 32) :
    (records.map fun record => (ofNat base.order 4 record.1, record.2)).filterMap
        (packageValue base) = (records.filter (·.1 ≠ 0)).map Prod.snd := by
  induction records with
  | nil => rfl
  | cons record rest ih =>
      have hrest := ih fun other hother => hnumbers other (List.mem_cons_of_mem record hother)
      have hnumber : toNat base.order (ofNat base.order 4 record.1) = record.1 :=
        toNat_ofNat (hnumbers record List.mem_cons_self)
      rw [List.map_cons, List.filterMap_cons, packageValue]
      by_cases hzero : record.1 = 0
      · rw [if_pos (Or.inr (hnumber.trans hzero)), hrest, List.filter_cons_of_neg (by simpa)]
      · rw [if_neg (by simpa [hnumber] using hzero), hrest, List.filter_cons_of_pos (by simpa),
          List.map_cons]

/-- A well-formed database is read completely. -/
theorem iterBdbHashValues_of_image {file : Bytes} {base : BdbMeta} {records : List (ℕ × Bytes)}
    (himage : HashImage file base records) :
    (iterBdbHashValues file file.length).ended = .ok () ∧
      (iterBdbHashValues file file.length).log.Perm
        ((records.filter (·.1 ≠ 0)).map Prod.snd) := by
  obtain ⟨buckets, hlength, hstored, hdistinct, hperm⟩ := himage.buckets
  obtain ⟨hlog, hended⟩ := bucketLoop_of_buckets himage.fits buckets 0
    (fun index bucket hbucket => by rw [Nat.zero_add]; exact hstored index bucket hbucket) []
    hdistinct
  rw [hlength, ← List.range_eq_range'] at hlog hended
  have hrun : bdbRun file file.length =
      (List.range (base.maxbucket + 1)).foldlM (bucketTurn file base) [] := by
    rw [bdbRun, Gen.lift_bind_ok (bdbMeta_of_image himage)]
  rw [iterBdbHashValues, hrun]
  constructor
  · rw [hended]
    rfl
  · dsimp only
    rw [hlog, ← packageValue_records himage.numbers]
    exact hperm.filterMap _

/-- **The reader yields the blobs of the packages of every well-formed database, each once;
and on any file below 1 TiB it ends, fails with `RpmdbError` only, and visits no page of a
bucket chain twice.** -/
theorem iterBdbHashValues_complete_and_robust (file : Bytes) :
    (∀ (base : BdbMeta) (records : List (ℕ × Bytes)), HashImage file base records →
      (iterBdbHashValues file file.length).ended = .ok () ∧
        (iterBdbHashValues file file.length).log.Perm
          ((records.filter (·.1 ≠ 0)).map Prod.snd)) ∧
      (file.length < 2 ^ 40 →
        FailsOnly Fault.IsRpmdbError (iterBdbHashValues file file.length).ended ∧
          (visits (bdbRun file file.length).log).Nodup) := by
  constructor
  · intro base records himage
    exact iterBdbHashValues_of_image himage
  · intro hsize
    obtain ⟨hfails, hnodup⟩ := bdbRun_robust hsize
    refine ⟨?_, hnodup⟩
    intro fault hfault
    cases hended : (bdbRun file file.length).ended with
    | ok visited =>
        rw [iterBdbHashValues, hended] at hfault
        cases hfault
    | error other =>
        rw [iterBdbHashValues, hended] at hfault
        cases hfault
        exact hfails fault hended

/-- Zero bytes. -/
def zeros (count : ℕ) : Bytes := List.replicate count 0

/-- A database of three pages with the instance counter and one package, whose header blob
is on the overflow page. -/
def smallDb : Bytes :=
  zeros 12 ++ ofNat .little 4 bdbHashMagic ++ ofNat .little 4 9 ++ ofNat .little 4 512 ++
    zeros 8 ++ ofNat .little 4 2 ++ zeros 60 ++ ofNat .little 4 1 ++ zeros 412 ++
  (zeros 8 ++ ofNat .little 4 1 ++ zeros 8 ++ ofNat .little 2 4 ++ [0, 0, 0, 13] ++
    ofNat .little 2 507 ++ ofNat .little 2 505 ++ ofNat .little 2 500 ++ ofNat .little 2 488 ++
    zeros 454 ++ ([3, 0, 0, 0] ++ ofNat .little 4 2 ++ ofNat .little 4 3) ++ [1, 1, 0, 0, 0] ++
    [1, 7] ++ [1, 0, 0, 0, 0]) ++
  (zeros 8 ++ ofNat .little 4 2 ++ zeros 10 ++ ofNat .little 2 3 ++ [0, 7] ++ [10, 11, 12] ++
    zeros 483)

/-- Its meta page. -/
def smallMeta : BdbMeta := ⟨.little, 512, 2, 0, 1 :: List.replicate 31 0⟩

theorem smallDb_image : HashImage smallDb smallMeta [(0, [7]), (1, [10, 11, 12])] := by
  have hoverflow : OverflowChain smallDb smallMeta 2 [2] ([10, 11, 12] ++ []) :=
    .page ⟨by decide, by decide, by decide +kernel, by decide +kernel⟩ (by decide +kernel)
      (by decide +kernel) (by decide) (by decide +kernel) .done
  have hkeydata := @StoredItem.keydata smallDb smallMeta (pageAt smallDb smallMeta 1)
  have hitems : PageItems smallDb smallMeta (pageAt smallDb smallMeta 1) 512 [507, 505, 500, 488]
      [([0, 0, 0, 0], [7]), ([1, 0, 0, 0], [10, 11, 12])] :=
    .pair (by decide) (by decide) (@hkeydata 507 [0, 0, 0, 0] (by decide +kernel) (by decide +kernel))
      (@hkeydata 505 [7] (by decide +kernel) (by decide +kernel))
      (.pair (by decide) (by decide)
        (@hkeydata 500 [1, 0, 0, 0] (by decide +kernel) (by decide +kernel))
        (.offpage (by decide +kernel) (by decide +kernel) (by decide +kernel) (by decide) hoverflow
          (by decide)) .nil)
  have hpage : HashPage smallDb smallMeta 1 0 [([0, 0, 0, 0], [7]), ([1, 0, 0, 0], [10, 11, 12])]
      [507, 505, 500, 488] :=
    ⟨⟨13, by decide, by decide, by decide, by decide +kernel, by decide +kernel⟩,
      by decide +kernel, by decide +kernel, by decide, hitems, by decide +kernel⟩
  refine ⟨by decide +kernel, by decide +kernel, by decide +kernel, ⟨9, by decide⟩,
    by decide +kernel, by decide +kernel, by decide +kernel, by decide +kernel, by decide, ?_⟩
  refine ⟨[⟨[1], [([0, 0, 0, 0], [7]), ([1, 0, 0, 0], [10, 11, 12])]⟩], rfl, ?_, by decide, ?_⟩
  · intro number bucket hbucket
    obtain ⟨rfl, rfl⟩ : number = 0 ∧
        bucket = ⟨[1], [([0, 0, 0, 0], [7]), ([1, 0, 0, 0], [10, 11, 12])]⟩ := by
      cases number with
      | zero => exact ⟨rfl, (Option.some.inj hbucket).symm⟩
      | succ number => cases hbucket
    exact ⟨by decide, 1, by decide +kernel, .page hpage .done⟩
  · decide +kernel

/-- The package of the small database is found, the counter is not reported. -/
theorem smallDb_read :
    (iterBdbHashValues smallDb smallDb.length).log.Perm [[10, 11, 12]] ∧
      (visits (bdbRun smallDb smallDb.length).log).Nodup :=
  ⟨((iterBdbHashValues_complete_and_robust smallDb).1 smallMeta _ smallDb_image).2,
    ((iterBdbHashValues_complete_and_robust smallDb).2 (by decide +kernel)).2⟩

end PqcReadiness.Packages
