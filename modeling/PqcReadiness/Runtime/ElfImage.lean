import PqcReadiness.Lib.Pathname
import PqcReadiness.Runtime.Elf

/-!
# Well-formed executables

A `DynamicImage` says what makes a file a dynamically linked one, and a `ProgramImage` what makes it
a program; `elf_dynamic` and `_elf_info` find in such a file what stands in it (`elfDynamic_image`,
`elfInfo_image`).  The build info of a program stands in a section of its own (`SectionTable`) or
anywhere in the part that is searched for its magic bytes, `BuildInfoAt` says where, and
`analyze_executable` reads it from there (`analyzeExecutable_go`).
-/

namespace PqcReadiness.Runtime

open PqcReadiness.Lib PqcReadiness.Lib.Bytes

/-- A property of every element and its index. -/
theorem forall_getElem?_of_zipIdx {α : Type} {xs : List α} {P : ℕ → α → Prop}
    (hall : ∀ pair ∈ xs.zipIdx, P pair.2 pair.1) (i : ℕ) (x : α) (hi : xs[i]? = some x) : P i x :=
  hall (x, i) (List.mk_mem_zipIdx_iff_getElem?.mpr hi)

/-! ## Well-formed files -/

/-- A program header. -/
structure Segment where
  kind : ℕ
  offset : ℕ
  vaddr : ℕ
  filesz : ℕ

/-- A program header stands at an offset. -/
structure SegmentAt (cls : ElfClass) (order : ByteOrder) (data : Bytes) (off : ℕ)
    (segment : Segment) : Prop where
  inside : off + cls.segmentSize ≤ data.length
  kind : field order 4 data off = segment.kind
  offset : field order cls.word data (off + cls.segmentOffset) = segment.offset
  vaddr : field order cls.word data (off + cls.segmentVaddr) = segment.vaddr
  filesz : field order cls.word data (off + cls.segmentFilesz) = segment.filesz

/-- An entry of the dynamic section, with the string that it stands for. -/
inductive DynEntry
  | needed (index : ℕ) (name : List Char)
  | path (tag : ℤ) (index : ℕ) (dirs : List (List Char))
  | strtab (vaddr : ℕ)
  | strsz (size : ℕ)
  | other (tag : ℤ) (value : ℕ)

namespace DynEntry

def tag : DynEntry → ℤ
  | needed _ _ => 1
  | path tag _ _ => tag
  | strtab _ => 5
  | strsz _ => 10
  | other tag _ => tag

def value : DynEntry → ℕ
  | needed index _ => index
  | path _ index _ => index
  | strtab vaddr => vaddr
  | strsz size => size
  | other _ value => value

/-- The string of an entry, and where it is in the string table. -/
def string? : DynEntry → Option (ℕ × List Char)
  | needed index name => some (index, name)
  | path _ index dirs => some (index, [':'].intercalate dirs)
  | _ => none

def name? : DynEntry → Option (List Char)
  | needed _ name => some name
  | _ => none

def dirs : DynEntry → List (List Char)
  | path _ _ dirs => dirs.filter (· ≠ [])
  | _ => []

def strtab? : DynEntry → Option ℕ
  | strtab vaddr => some vaddr
  | _ => none

def strsz? : DynEntry → Option ℕ
  | strsz size => some size
  | _ => none

def neededIndex? : DynEntry → Option ℕ
  | needed index _ => some index
  | _ => none

def pathIndex? : DynEntry → Option ℕ
  | path _ index _ => some index
  | _ => none

/-- The tags are what they say, and the strings can be written down. -/
def Fits (word : ℕ) : DynEntry → Prop
  | needed _ name => '\x00' ∉ name
  | path tag _ dirs => (tag = 15 ∨ tag = 29) ∧ ∀ dir ∈ dirs, ':' ∉ dir ∧ '\x00' ∉ dir
  | other tag _ => (tag ≠ 0 ∧ tag ≠ 1 ∧ tag ≠ 15 ∧ tag ≠ 29 ∧ tag ≠ 5 ∧ tag ≠ 10) ∧
      -256 ^ word ≤ 2 * tag ∧ 2 * tag < 256 ^ word
  | _ => True

end DynEntry

/-- The two word sizes. -/
def ElfClass.Known (cls : ElfClass) : Prop := cls = elf64 ∨ cls = elf32

/-- The part of the header that says how the rest is read. -/
structure ElfHeader (file : ElfFile) where
  cls : ElfClass
  order : ByteOrder
  magic : elfMagic <+: file.data
  cls_eq : ∃ byte, file.data[4]? = some byte ∧ cls = if byte = 2 then elf64 else elf32
  order_eq : ∃ byte, file.data[5]? = some byte ∧ order = if byte = 1 then .little else .big
  header : cls.headerSize ≤ file.data.length

section Header

variable {file : ElfFile} (image : ElfHeader file)

theorem ElfHeader.elfIdent_eq : elfIdent file = .ok (some (image.cls, image.order)) := by
  obtain ⟨cls, hcls, hcls'⟩ := image.cls_eq
  obtain ⟨data, hdata, hdata'⟩ := image.order_eq
  have hmagic : (file.data.take 16).take 4 = elfMagic := by
    rw [List.take_take]
    exact (List.prefix_iff_eq_take.mp image.magic).symm
  rw [elfIdent, if_neg (by rw [hmagic]; exact fun h => h rfl), List.getElem?_take_of_lt (by decide),
    List.getElem?_take_of_lt (by decide), hcls, hdata, hcls', hdata']

/-- The class has one of the two layouts. -/
theorem ElfHeader.known : image.cls.Known := by
  obtain ⟨cls, -, hcls⟩ := image.cls_eq
  rw [hcls]
  split
  · exact .inl rfl
  · exact .inr rfl

/-- A record of the header can be unpacked. -/
theorem ElfHeader.unpackFrom_header {size off : ℕ} (hsize : off + size ≤ image.cls.headerSize) :
    unpackFrom size (file.data.take image.cls.headerSize) off =
      .ok (slice (file.data.take image.cls.headerSize) off (off + size)) := by
  have hheader := image.header
  refine unpackFrom_of_le ?_
  rw [List.length_take]
  omega

/-- Its fields are those of the file. -/
theorem ElfHeader.field_header {size off first width : ℕ} (hfirst : first + width ≤ size)
    (hsize : off + size ≤ image.cls.headerSize) :
    field image.order width (slice (file.data.take image.cls.headerSize) off (off + size)) first =
      field image.order width file.data (off + first) := by
  have hheader : file.data.take image.cls.headerSize = slice file.data 0 image.cls.headerSize := rfl
  rw [field_slice (by omega), hheader, field_slice (by omega), Nat.zero_add]

end Header

/-- A dynamically linked file as the format describes it: a header, program headers, a dynamic
section that ends with a null entry, and a string table in the memory that a segment maps. -/
structure DynamicImage (file : ElfFile) extends ElfHeader file where
  phoff : ℕ
  phentsize : ℕ
  segments : List Segment
  dynamic : Segment
  entries : List DynEntry
  address : ℕ
  load : Segment
  size : ℕ
  phoff_eq : field order cls.word file.data cls.phoffAt = phoff
  phentsize_eq : field order 2 file.data cls.countsAt = phentsize
  phnum_eq : field order 2 file.data (cls.countsAt + 2) = segments.length
  bounded : segments.length ≤ 4096 ∧ cls.entsizeMin ≤ phentsize ∧ phentsize ≤ 256
  segment : ∀ i segment, segments[i]? = some segment →
    SegmentAt cls order file.data (phoff + i * phentsize) segment
  dynamic_eq : (segments.filter fun segment => segment.kind = 2).getLast? = some dynamic
  fits : ∀ entry ∈ entries, entry.Fits cls.word
  room : (entries.length + 1) * (2 * cls.word) ≤ min dynamic.filesz (1 <<< 16) ∧
    dynamic.offset + (entries.length + 1) * (2 * cls.word) ≤ file.data.length
  entry : ∀ i entry, entries[i]? = some entry →
    field order cls.word file.data (dynamic.offset + i * (2 * cls.word)) =
        unsigned cls.word entry.tag ∧
      field order cls.word file.data (dynamic.offset + i * (2 * cls.word) + cls.word) = entry.value
  null : field order cls.word file.data (dynamic.offset + entries.length * (2 * cls.word)) = 0
  address_eq : (entries.filterMap DynEntry.strtab?).getLast? = some address
  load_eq : (segments.filter fun segment => segment.kind = 1).find? (fun segment =>
    segment.vaddr ≤ address ∧ address < segment.vaddr + segment.filesz) = some load
  size_eq : size = min (stringsSize (entries.filterMap DynEntry.strsz?).getLast?) (1 <<< 20)
  strings : ∀ entry ∈ entries, ∀ index text, entry.string? = some (index, text) →
    index + (encodeUtf8 text).length < size ∧
      At file.data (load.offset + address - load.vaddr + index) (encodeUtf8 text ++ [0])
  reachable : phoff ≤ file.limit ∧ dynamic.offset ≤ file.limit ∧
    load.offset + address - load.vaddr ≤ file.limit

section Image

variable {file : ElfFile} (image : DynamicImage file)

/-- The loop over the program headers goes through the segments. -/
theorem segmentLoop_eq {cls : ElfClass} {order : ByteOrder} {table : Bytes} {entsize : ℕ}
    (segments : List Segment) (k : ℕ) (scan : SegmentScan)
    (hsegments : ∀ i segment, segments[i]? = some segment →
      SegmentAt cls order table ((k + i) * entsize) segment)
    (hfields : cls.Known) :
    segmentLoop cls order table entsize (List.range' k segments.length) scan =
      .ok (segments.foldl (fun scan segment =>
        if segment.kind = 1 then
          { scan with loads := scan.loads ++ [(segment.vaddr, segment.offset, segment.filesz)] }
        else if segment.kind = 2 then
          { scan with dyn := some (segment.offset, min segment.filesz (1 <<< 16)) }
        else scan) scan) := by
  induction segments generalizing k scan with
  | nil => rfl
  | cons segment segments ih =>
      obtain ⟨hinside, hkind, hoffset, hvaddr, hfilesz⟩ := hsegments 0 segment rfl
      rw [Nat.add_zero] at hinside hkind hoffset hvaddr hfilesz
      have hkind' : field order 4 table (k * entsize + 0) = segment.kind := hkind
      have hlayout : 4 ≤ cls.segmentSize ∧ cls.segmentOffset + cls.word ≤ cls.segmentSize ∧
          cls.segmentVaddr + cls.word ≤ cls.segmentSize ∧
          cls.segmentFilesz + cls.word ≤ cls.segmentSize := by
        rcases hfields with rfl | rfl <;> decide
      rw [List.length_cons, List.range'_succ, segmentLoop, unpackFrom_of_le hinside]
      have hfield : ∀ width first, first + width ≤ cls.segmentSize →
          field order width (slice table (k * entsize) (k * entsize + cls.segmentSize)) first =
            field order width table (k * entsize + first) :=
        fun width first hfirst => field_slice (by omega)
      simp only [Bind.bind, Except.bind]
      rw [hfield 4 0 (by omega), hfield _ _ hlayout.2.1, hfield _ _ hlayout.2.2.1,
        hfield _ _ hlayout.2.2.2, hkind', hoffset, hvaddr, hfilesz, ih (k + 1) _
          (fun i segment hi => by
            have hnext := hsegments (i + 1) segment hi
            rwa [show k + (i + 1) = k + 1 + i by omega] at hnext)]
      rfl

/-- What is kept of the segments. -/
theorem foldl_segments (segments : List Segment) (scan : SegmentScan) :
    segments.foldl (fun scan segment =>
        if segment.kind = 1 then
          { scan with loads := scan.loads ++ [(segment.vaddr, segment.offset, segment.filesz)] }
        else if segment.kind = 2 then
          { scan with dyn := some (segment.offset, min segment.filesz (1 <<< 16)) }
        else scan) scan =
      { loads := scan.loads ++ (segments.filter fun segment => segment.kind = 1).map fun segment =>
          (segment.vaddr, segment.offset, segment.filesz)
        dyn := match (segments.filter fun segment => segment.kind = 2).getLast? with
          | none => scan.dyn
          | some segment => some (segment.offset, min segment.filesz (1 <<< 16)) } := by
  induction segments generalizing scan with
  | nil => simp
  | cons segment segments ih =>
      rw [List.foldl_cons, ih]
      by_cases hload : segment.kind = 1
      · simp [hload]
      · by_cases hdyn : segment.kind = 2
        · rw [if_neg hload, if_pos hdyn, List.filter_cons_of_neg (by simpa using hload),
            List.filter_cons_of_pos (by simpa using hdyn), List.getLast?_cons]
          cases (segments.filter fun segment => segment.kind = 2).getLast? <;> rfl
        · rw [if_neg hload, if_neg hdyn, List.filter_cons_of_neg (by simpa using hload),
            List.filter_cons_of_neg (by simpa using hdyn)]

/-- An entry that is one of the known ones changes what it is about. -/
theorem DynEntry.Fits.entry {word : ℕ} {entry : DynEntry} (hfits : entry.Fits word)
    (scan : DynamicScan) :
    scan.entry entry.tag entry.value =
      match entry with
      | .needed index _ => { scan with needed := scan.needed ++ [index] }
      | .path _ index _ => { scan with runpath := scan.runpath ++ [index] }
      | .strtab vaddr => { scan with strtab := some vaddr }
      | .strsz size => { scan with strsz := some size }
      | .other _ _ => scan := by
  cases entry with
  | needed index name => rfl
  | path tag index dirs =>
      rcases hfits.1 with rfl | rfl <;> rfl
  | strtab vaddr => rfl
  | strsz size => rfl
  | other tag value =>
      obtain ⟨-, hneeded, hrpath, hrunpath, hstrtab, hstrsz⟩ := hfits.1
      rw [DynamicScan.entry, DynEntry.tag, if_neg hneeded,
        if_neg (not_or.mpr ⟨hrpath, hrunpath⟩), if_neg hstrtab, if_neg hstrsz]

/-- What is kept of the entries. -/
theorem foldl_entries {word : ℕ} (entries : List DynEntry)
    (hfits : ∀ entry ∈ entries, entry.Fits word) (scan : DynamicScan) :
    entries.foldl (fun scan entry => scan.entry entry.tag entry.value) scan =
      { needed := scan.needed ++ entries.filterMap DynEntry.neededIndex?
        runpath := scan.runpath ++ entries.filterMap DynEntry.pathIndex?
        strtab := (entries.filterMap DynEntry.strtab?).getLast?.or scan.strtab
        strsz := (entries.filterMap DynEntry.strsz?).getLast?.or scan.strsz } := by
  induction entries generalizing scan with
  | nil => simp
  | cons entry entries ih =>
      have hentry := (hfits entry List.mem_cons_self).entry scan
      have hrest := fun other hother => hfits other (List.mem_cons_of_mem entry hother)
      rw [List.foldl_cons, hentry, ih hrest]
      simp only [List.filterMap_cons]
      cases entry with
      | needed index name =>
          simp only [DynEntry.neededIndex?, DynEntry.pathIndex?, DynEntry.strtab?,
            DynEntry.strsz?, List.append_assoc, List.singleton_append]
      | path tag index dirs =>
          simp only [DynEntry.neededIndex?, DynEntry.pathIndex?, DynEntry.strtab?,
            DynEntry.strsz?, List.append_assoc, List.singleton_append]
      | strtab vaddr =>
          simp only [DynEntry.neededIndex?, DynEntry.pathIndex?, DynEntry.strtab?,
            DynEntry.strsz?, List.getLast?_cons]
          cases (entries.filterMap DynEntry.strtab?).getLast? <;> rfl
      | strsz size =>
          simp only [DynEntry.neededIndex?, DynEntry.pathIndex?, DynEntry.strtab?,
            DynEntry.strsz?, List.getLast?_cons]
          cases (entries.filterMap DynEntry.strsz?).getLast? <;> rfl
      | other tag value => rfl

/-- A tag can be written in a word, and is not the null tag. -/
theorem DynEntry.Fits.tag_range {cls : ElfClass} {entry : DynEntry} (hfits : entry.Fits cls.word)
    (hcls : cls.Known) :
    -256 ^ cls.word ≤ 2 * entry.tag ∧ 2 * entry.tag < 256 ^ cls.word ∧ entry.tag ≠ 0 := by
  have hsmall : (58 : ℤ) < 256 ^ cls.word := by
    rcases hcls with rfl | rfl <;> decide
  cases entry with
  | needed index name => refine ⟨?_, ?_, ?_⟩ <;> simp only [DynEntry.tag] <;> omega
  | path tag index dirs =>
      rcases hfits.1 with rfl | rfl <;> refine ⟨?_, ?_, ?_⟩ <;> simp only [DynEntry.tag] <;> omega
  | strtab vaddr => refine ⟨?_, ?_, ?_⟩ <;> simp only [DynEntry.tag] <;> omega
  | strsz size => refine ⟨?_, ?_, ?_⟩ <;> simp only [DynEntry.tag] <;> omega
  | other tag value => exact ⟨hfits.2.1, hfits.2.2, hfits.1.1⟩

/-- The loop over the dynamic section goes through the entries up to the null entry. -/
theorem dynamicLoop_eq {cls : ElfClass} {order : ByteOrder} {raw : Bytes} (entries : List DynEntry)
    (k more : ℕ) (scan : DynamicScan) (hfits : ∀ entry ∈ entries, entry.Fits cls.word)
    (hcls : cls.Known)
    (hentries : ∀ i entry, entries[i]? = some entry →
      field order cls.word raw ((k + i) * (2 * cls.word)) = unsigned cls.word entry.tag ∧
        field order cls.word raw ((k + i) * (2 * cls.word) + cls.word) = entry.value)
    (hnull : field order cls.word raw ((k + entries.length) * (2 * cls.word)) = 0) :
    dynamicLoop cls order raw
        ((List.range' k (entries.length + 1 + more)).map fun i => i * (2 * cls.word)) scan =
      entries.foldl (fun scan entry => scan.entry entry.tag entry.value) scan := by
  induction entries generalizing k scan with
  | nil =>
      rw [List.length_nil, Nat.add_zero] at hnull
      have hzero : signed cls.word 0 = 0 := by
        rw [signed, if_pos (by positivity)]
        rfl
      rw [List.length_nil, Nat.zero_add, Nat.add_comm, List.range'_succ, List.map_cons, dynamicLoop,
        hnull, if_pos hzero]
      rfl
  | cons entry entries ih =>
      obtain ⟨htag, hvalue⟩ := hentries 0 entry rfl
      rw [Nat.add_zero] at htag hvalue
      have hrange := (hfits entry List.mem_cons_self).tag_range hcls
      have hcount : entries.length + 1 + 1 + more = entries.length + 1 + more + 1 := by omega
      rw [List.length_cons, hcount, List.range'_succ, List.map_cons, dynamicLoop, htag,
        signed_unsigned hrange.1 hrange.2.1]
      rw [if_neg hrange.2.2, hvalue, List.foldl_cons]
      refine ih (k + 1) _ (fun other hother => hfits other (List.mem_cons_of_mem _ hother)) ?_ ?_
      · intro i other hi
        have hnext := hentries (i + 1) other hi
        rwa [show k + (i + 1) = k + 1 + i by omega] at hnext
      · have hlast : k + (entries.length + 1) = k + 1 + entries.length := by omega
        rwa [List.length_cons, hlast] at hnull

/-- Directories joined with colons are split again, but for the empty ones. -/
theorem splitChars_intercalate {dirs : List (List Char)} (hdirs : ∀ dir ∈ dirs, ':' ∉ dir) :
    (splitChars ':' ([':'].intercalate dirs)).filter (· ≠ []) = dirs.filter (· ≠ []) := by
  induction dirs with
  | nil => rfl
  | cons dir dirs ih =>
      obtain ⟨hdir, hrest⟩ := List.forall_mem_cons.mp hdirs
      cases dirs with
      | nil => rw [List.intercalate_singleton, splitChars_of_not_mem hdir]
      | cons next dirs =>
          rw [List.intercalate_cons_cons, List.append_assoc, List.singleton_append,
            splitChars_append, splitChars_of_not_mem hdir, List.singleton_append,
            List.filter_cons, List.filter_cons, ih hrest]

theorem notMem_intercalate {c : Char} {sep : List Char} {parts : List (List Char)}
    (hsep : c ∉ sep) (hparts : ∀ part ∈ parts, c ∉ part) : c ∉ sep.intercalate parts := by
  induction parts with
  | nil => exact List.not_mem_nil
  | cons part parts ih =>
      obtain ⟨hpart, hrest⟩ := List.forall_mem_cons.mp hparts
      cases parts with
      | nil => rwa [List.intercalate_singleton]
      | cons next parts =>
          rw [List.intercalate_cons_cons, List.mem_append, List.mem_append]
          rintro ((h | h) | h)
          · exact hpart h
          · exact hsep h
          · exact ih hrest h

/-- Every string of the dynamic section can be read from its table. -/
theorem names_eq {word : ℕ} {entries : List DynEntry} {strings : Bytes}
    (hfits : ∀ entry ∈ entries, entry.Fits word)
    (hstrings : ∀ entry ∈ entries, ∀ index text, entry.string? = some (index, text) →
      index < strings.length ∧ stringAt strings index = text)
    {scan : DynamicScan}
    (hneeded : scan.needed = entries.filterMap DynEntry.neededIndex?)
    (hrunpath : scan.runpath = entries.filterMap DynEntry.pathIndex?) :
    scan.names strings = ⟨(entries.filterMap DynEntry.name?).map String.ofList,
      (entries.flatMap DynEntry.dirs).map String.ofList⟩ := by
  rw [DynamicScan.names, hneeded, hrunpath]
  clear hneeded hrunpath
  congr 1
  · induction entries with
    | nil => rfl
    | cons entry entries ih =>
        have hrest := ih (fun other hother => hfits other (List.mem_cons_of_mem _ hother))
          (fun other hother => hstrings other (List.mem_cons_of_mem _ hother))
        have hentry := hstrings entry List.mem_cons_self
        rw [List.filterMap_cons, List.filterMap_cons]
        cases entry with
        | needed index name =>
            obtain ⟨hlt, htext⟩ := hentry index name rfl
            simp only [DynEntry.neededIndex?, DynEntry.name?, List.filter_cons, hlt, decide_true,
              if_true, List.map_cons, htext]
            exact congrArg _ hrest
        | path tag index dirs => exact hrest
        | strtab vaddr => exact hrest
        | strsz size => exact hrest
        | other tag value => exact hrest
  · induction entries with
    | nil => rfl
    | cons entry entries ih =>
        have hrest := ih (fun other hother => hfits other (List.mem_cons_of_mem _ hother))
          (fun other hother => hstrings other (List.mem_cons_of_mem _ hother))
        have hentry := hstrings entry List.mem_cons_self
        rw [List.flatMap_cons, List.map_append, ← hrest, List.filterMap_cons]
        cases entry with
        | needed index name => rfl
        | path tag index dirs =>
            obtain ⟨hlt, htext⟩ := hentry index _ rfl
            have hcolons : ∀ dir ∈ dirs, ':' ∉ dir := fun dir hdir =>
              ((hfits _ List.mem_cons_self).2 dir hdir).1
            have hdirs := splitChars_intercalate hcolons
            simp only [DynEntry.pathIndex?, List.filter_cons, hlt, decide_true, if_true,
              List.flatMap_cons, htext, hdirs]
            rfl
        | strtab vaddr => rfl
        | strsz size => rfl
        | other tag value => rfl

/-- Each program header stands in the table that is read. -/
theorem DynamicImage.segmentAt_table {i : ℕ} {segment : Segment}
    (hi : image.segments[i]? = some segment) :
    SegmentAt image.cls image.order
      (slice file.data image.phoff (image.phoff + image.phentsize * image.segments.length))
      (i * image.phentsize) segment := by
  obtain ⟨hin, hkind, hoffset, hvaddr, hfilesz⟩ := image.segment i segment hi
  have hlt : i < image.segments.length := (List.getElem?_eq_some_iff.mp hi).1
  obtain ⟨hentsize, hword, hoffsetFits, hvaddrFits, hfileszFits⟩ :
      image.cls.segmentSize ≤ image.cls.entsizeMin ∧ 4 ≤ image.cls.segmentSize ∧
        image.cls.segmentOffset + image.cls.word ≤ image.cls.segmentSize ∧
        image.cls.segmentVaddr + image.cls.word ≤ image.cls.segmentSize ∧
        image.cls.segmentFilesz + image.cls.word ≤ image.cls.segmentSize := by
    rcases image.known with h | h <;> rw [h] <;> decide
  have hmin := image.bounded.2.1
  have hroom : i * image.phentsize + image.cls.segmentSize ≤
      image.phentsize * image.segments.length := by
    calc i * image.phentsize + image.cls.segmentSize
        ≤ i * image.phentsize + image.phentsize := by omega
      _ = image.phentsize * (i + 1) := by rw [Nat.mul_comm, Nat.mul_succ]
      _ ≤ image.phentsize * image.segments.length := Nat.mul_le_mul_left _ hlt
  -- What is read at an offset of the entry is what the file has there.
  have hfield : ∀ width first, first + width ≤ image.cls.segmentSize →
      field image.order width
          (slice file.data image.phoff (image.phoff + image.phentsize * image.segments.length))
          (i * image.phentsize + first) =
        field image.order width file.data (image.phoff + i * image.phentsize + first) := by
    intro width first hfirst
    rw [field_slice (by omega), Nat.add_assoc]
  refine ⟨?_, (hfield 4 0 (by omega)).trans hkind, (hfield _ _ hoffsetFits).trans hoffset,
    (hfield _ _ hvaddrFits).trans hvaddr, (hfield _ _ hfileszFits).trans hfilesz⟩
  rw [length_slice]
  omega

/-- The dynamic section, as far as it is read. -/
def DynamicImage.section : Bytes :=
  slice file.data image.dynamic.offset
    (image.dynamic.offset + min image.dynamic.filesz (1 <<< 16))

/-- The string table, as far as it is read. -/
def DynamicImage.table : Bytes :=
  slice file.data (image.load.offset + image.address - image.load.vaddr)
    (image.load.offset + image.address - image.load.vaddr + image.size)

/-- The loop over the dynamic section finds what the entries say. -/
theorem DynamicImage.dynamicLoop_section :
    dynamicLoop image.cls image.order image.section
        (rangeStep 0 (image.section.length + 1 - 2 * image.cls.word) (2 * image.cls.word))
        ⟨[], [], none, none⟩ =
      ⟨image.entries.filterMap DynEntry.neededIndex?, image.entries.filterMap DynEntry.pathIndex?,
        some image.address, (image.entries.filterMap DynEntry.strsz?).getLast?⟩ := by
  have hword : 0 < 2 * image.cls.word := by
    rcases image.known with h | h <;> rw [h] <;> decide
  obtain ⟨hsize, hinside⟩ := image.room
  have hlength : (image.entries.length + 1) * (2 * image.cls.word) ≤ image.section.length := by
    rw [DynamicImage.section, length_slice]
    omega
  have hcount : image.entries.length + 1 ≤ image.section.length / (2 * image.cls.word) :=
    (Nat.le_div_iff_mul_le hword).mpr hlength
  obtain ⟨more, hmore⟩ := Nat.exists_eq_add_of_le hcount
  have hfield : ∀ i off, i ≤ image.entries.length → off + image.cls.word ≤ 2 * image.cls.word →
      field image.order image.cls.word image.section (i * (2 * image.cls.word) + off) =
        field image.order image.cls.word file.data
          (image.dynamic.offset + i * (2 * image.cls.word) + off) := by
    intro i off hi hoff
    have hbefore : (i + 1) * (2 * image.cls.word) ≤
        (image.entries.length + 1) * (2 * image.cls.word) := Nat.mul_le_mul_right _ (by omega)
    rw [Nat.succ_mul] at hbefore
    rw [DynamicImage.section, field_slice (by omega), Nat.add_assoc]
  have hoffsets : rangeStep 0 (image.section.length + 1 - 2 * image.cls.word)
      (2 * image.cls.word) =
        (List.range' 0 (image.entries.length + 1 + more)).map fun i =>
          i * (2 * image.cls.word) := by
    rw [rangeStep_fits (Nat.zero_le _) hword, Nat.sub_zero, hmore, List.range_eq_range']
    refine List.map_congr_left fun i _ => ?_
    rw [Nat.zero_add, Nat.mul_comm]
  rw [hoffsets, dynamicLoop_eq image.entries 0 more _ image.fits image.known, foldl_entries _
    image.fits, image.address_eq]
  · simp
  · intro i entry hi
    have hlt : i < image.entries.length := (List.getElem?_eq_some_iff.mp hi).1
    obtain ⟨htag, hvalue⟩ := image.entry i entry hi
    rw [Nat.zero_add]
    exact ⟨(hfield i 0 hlt.le (by omega)).trans htag,
      (hfield i image.cls.word hlt.le (by omega)).trans hvalue⟩
  · rw [Nat.zero_add]
    exact (hfield _ 0 le_rfl (by omega)).trans image.null

/-- Every string that the dynamic section names stands in the string table. -/
theorem DynamicImage.stringAt_table {entry : DynEntry} (hentry : entry ∈ image.entries) {index : ℕ}
    {text : List Char} (hstring : entry.string? = some (index, text)) :
    index < image.table.length ∧ stringAt image.table index = text := by
  obtain ⟨hsize, hat⟩ := image.strings entry hentry index text hstring
  have hwhole : At image.table index (encodeUtf8 text ++ [0]) := by
    refine at_slice hat ?_
    rw [List.length_append, List.length_singleton]
    omega
  have hclean : '\x00' ∉ text := by
    have hfits := image.fits entry hentry
    cases entry with
    | needed i name =>
        cases hstring
        exact hfits
    | path tag i dirs =>
        cases hstring
        exact notMem_intercalate (by decide) fun dir hdir => (hfits.2 dir hdir).2
    | strtab vaddr => cases hstring
    | strsz size => cases hstring
    | other tag value => cases hstring
  have hle := hwhole.le (by simp)
  rw [List.length_append, List.length_singleton] at hle
  exact ⟨by omega, stringAt_of_at hclean hwhole⟩

/-- **The names and directories of a well-formed file are read as they stand in it.** -/
theorem elfDynamic_image :
    elfDynamic file = .ok (some ⟨(image.entries.filterMap DynEntry.name?).map String.ofList,
      (image.entries.flatMap DynEntry.dirs).map String.ofList⟩) := by
  obtain ⟨hphoffAt, hcountsAt⟩ : image.cls.phoffAt + image.cls.word ≤ image.cls.headerSize ∧
      image.cls.countsAt + 4 ≤ image.cls.headerSize := by
    rcases image.known with h | h <;> rw [h] <;> decide
  obtain ⟨hmany, hmin, hmax⟩ := image.bounded
  obtain ⟨hphoff, hdynamic, hstart⟩ := image.reachable
  -- The program headers.
  have hsegments := segmentLoop_eq image.segments 0 ⟨[], none⟩
    (fun i segment hi => by
      rw [Nat.zero_add]
      exact image.segmentAt_table hi) image.known
  rw [foldl_segments, image.dynamic_eq, ← List.range_eq_range'] at hsegments
  -- The segment that maps the string table.
  have hload : ((image.segments.filter fun segment => segment.kind = 1).map fun segment =>
      (segment.vaddr, segment.offset, segment.filesz)).find? (fun load =>
        load.1 ≤ image.address ∧ image.address < load.1 + load.2.2) =
      some (image.load.vaddr, image.load.offset, image.load.filesz) := by
    rw [List.find?_map]
    exact congrArg (Option.map _) image.load_eq
  rw [elfDynamic, image.elfIdent_eq]
  simp only [Bind.bind, Except.bind]
  rw [image.unpackFrom_header hphoffAt, image.unpackFrom_header hcountsAt]
  simp only
  rw [image.field_header (by omega) hphoffAt, image.field_header (by omega) hcountsAt,
    image.field_header (by omega) hcountsAt]
  simp only [Nat.add_zero]
  rw [image.phoff_eq, image.phentsize_eq, image.phnum_eq, if_neg (by omega),
    ElfFile.readAt_of_le hphoff]
  simp only
  rw [hsegments]
  simp only [List.nil_append]
  rw [ElfFile.readAt_of_le hdynamic]
  have hsection := image.dynamicLoop_section
  rw [DynamicImage.section] at hsection
  simp only
  rw [hsection]
  simp only
  rw [hload]
  simp only
  rw [ElfFile.readAt_of_le hstart, ← image.size_eq]
  exact congrArg (fun names => Except.ok (some names))
    (names_eq image.fits (fun entry hentry _ _ => image.stringAt_table hentry) rfl rfl)

end Image

/-- Numbers of four bytes. -/
def wholes (numbers : List ℕ) : Bytes := numbers.flatMap (ofNat .little 4)

/-- Numbers of two bytes. -/
def halves (numbers : List ℕ) : Bytes := numbers.flatMap (ofNat .little 2)

/-- A 32-bit program with a library and two directories, one of them empty. -/
def clientFile : ElfFile where
  data := elfMagic ++ ([1, 1, 1] ++ List.replicate 9 0) ++ wholes [0, 0, 0, 52, 0, 0] ++
    halves [52, 32, 2, 40, 0, 0] ++ wholes [1, 0, 4096, 0, 184, 184, 5, 0] ++
    wholes [2, 116, 4212, 0, 40, 40, 6, 0] ++ wholes [1, 1, 29, 13, 5, 4252, 10, 28, 0, 0] ++
    (0 :: encodeAscii "libssl.so.3") ++ (0 :: encodeAscii "/opt/lib::$OR") ++ [0, 0, 0]
  limit := 2 ^ 40
  limit_lt := by decide

/-- The entries of its dynamic section. -/
def clientEntries : List DynEntry :=
  [.needed 1 "libssl.so.3".toList, .path 29 13 ["/opt/lib".toList, [], "$OR".toList],
    .strtab 4252, .strsz 28]

theorem segmentAt_client (i : ℕ) (segment : Segment)
    (hi : ([⟨1, 0, 4096, 184⟩, ⟨2, 116, 4212, 40⟩] : List Segment)[i]? = some segment) :
    SegmentAt elf32 .little clientFile.data (52 + i * 32) segment := by
  revert i segment
  refine forall_getElem?_of_zipIdx ?_
  rw [List.zipIdx_cons, List.zipIdx_cons, List.zipIdx_nil, List.forall_mem_cons,
    List.forall_mem_singleton]
  constructor <;> constructor <;> decide +kernel

theorem fits_client : ∀ entry ∈ clientEntries, entry.Fits 4 := by
  simp only [clientEntries, List.forall_mem_cons, DynEntry.Fits, List.not_mem_nil, false_implies,
    implies_true, and_true]
  decide +kernel

theorem strings_client : ∀ entry ∈ clientEntries, ∀ index text,
    entry.string? = some (index, text) → index + (encodeUtf8 text).length < 28 ∧
      At clientFile.data (0 + 4252 - 4096 + index) (encodeUtf8 text ++ [0]) := by
  simp only [clientEntries, List.forall_mem_cons, DynEntry.string?, List.not_mem_nil,
    false_implies, implies_true, and_true, reduceCtorEq]
  constructor
  · rintro index text ⟨⟩
    exact ⟨by decide +kernel, List.isPrefixOf_iff_prefix.mp (by decide +kernel)⟩
  · rintro index text ⟨⟩
    exact ⟨by decide +kernel, List.isPrefixOf_iff_prefix.mp (by decide +kernel)⟩

/-- The bytes are an image with these entries. -/
theorem exists_clientImage :
    ∃ image : DynamicImage clientFile, image.entries = clientEntries := by
  refine ⟨
    { cls := elf32
      order := .little
      magic := List.isPrefixOf_iff_prefix.mp (by decide +kernel)
      cls_eq := ⟨1, by decide +kernel, rfl⟩
      order_eq := ⟨1, by decide +kernel, rfl⟩
      header := by decide +kernel
      phoff := 52
      phentsize := 32
      segments := [⟨1, 0, 4096, 184⟩, ⟨2, 116, 4212, 40⟩]
      dynamic := ⟨2, 116, 4212, 40⟩
      entries := clientEntries
      address := 4252
      load := ⟨1, 0, 4096, 184⟩
      size := 28
      phoff_eq := by decide +kernel
      phentsize_eq := by decide +kernel
      phnum_eq := by decide +kernel
      bounded := by decide
      segment := segmentAt_client
      dynamic_eq := rfl
      fits := fits_client
      room := by decide +kernel
      entry := forall_getElem?_of_zipIdx (by decide +kernel)
      null := by decide +kernel
      address_eq := rfl
      load_eq := rfl
      size_eq := rfl
      strings := strings_client
      reachable := by decide +kernel }, rfl⟩

theorem elfDynamic_client :
    elfDynamic clientFile = .ok (some ⟨["libssl.so.3"], ["/opt/lib", "$OR"]⟩) := by
  obtain ⟨image, hentries⟩ := exists_clientImage
  have hread := elfDynamic_image image
  rw [hread, hentries]
  rfl

/-! ## Sections -/

/-- A section: where its name is, what it is, and where its bytes are. -/
structure ElfSection where
  nameOff : ℕ
  name : Bytes
  offset : ℕ
  size : ℕ
  deriving DecidableEq

/-- The first section that is called `.go.buildinfo`. -/
def buildinfoSection (sections : List ElfSection) : Option ElfSection :=
  sections.find? fun entry => entry.name = encodeAscii ".go.buildinfo"

/-- A program as the format describes it: a header and program headers. -/
structure ProgramImage (file : ElfFile) extends ElfHeader file where
  phoff : ℕ
  phentsize : ℕ
  kinds : List ℕ
  phoff_eq : field order cls.word file.data cls.phoffAt = phoff
  phentsize_eq : field order 2 file.data cls.countsAt = phentsize
  phnum_eq : field order 2 file.data (cls.countsAt + 2) = kinds.length
  bounded : kinds.length ≤ 4096 ∧ 4 ≤ phentsize
  kind : ∀ i kind, kinds[i]? = some kind →
    phoff + i * phentsize + 4 ≤ file.data.length ∧
      field order 4 file.data (phoff + i * phentsize) = kind
  reachable : phoff ≤ file.limit

namespace ProgramImage

variable {file : ElfFile} (image : ProgramImage file)

/-- `e_shoff`. -/
def shoff : ℕ := field image.order image.cls.word file.data (image.cls.phoffAt + image.cls.word)

/-- `e_shentsize`. -/
def shentsize : ℕ := field image.order 2 file.data (image.cls.countsAt + 4)

/-- `e_shnum`. -/
def shnum : ℕ := field image.order 2 file.data (image.cls.countsAt + 6)

/-- `e_shstrndx`. -/
def shstrndx : ℕ := field image.order 2 file.data (image.cls.countsAt + 8)

/-- The program has been stripped of its section table, or the table has no names. -/
def Stripped : Prop := image.shoff = 0 ∨ image.shnum = 0 ∨ image.shnum ≤ image.shstrndx

end ProgramImage

/-- The section table of a program. -/
structure SectionTable {file : ElfFile} (image : ProgramImage file) where
  sections : List ElfSection
  names : ElfSection
  present : image.shoff ≠ 0
  shnum_eq : image.shnum = sections.length
  entsize : image.cls.sectionSize ≤ image.shentsize
  entry : ∀ i entry, sections[i]? = some entry →
    image.shoff + i * image.shentsize + image.cls.sectionSize ≤ file.data.length ∧
      field image.order 4 file.data (image.shoff + i * image.shentsize) = entry.nameOff ∧
      field image.order image.cls.word file.data
        (image.shoff + i * image.shentsize + image.cls.sectionOffset) = entry.offset ∧
      field image.order image.cls.word file.data
        (image.shoff + i * image.shentsize + image.cls.sectionLength) = entry.size
  names_eq : sections[image.shstrndx]? = some names
  named : ∀ entry ∈ sections, 0 ∉ entry.name ∧
    entry.nameOff + entry.name.length < min names.size (1 <<< 20) ∧
      At file.data (names.offset + entry.nameOff) (entry.name ++ [0])
  reachable : image.shoff ≤ file.limit ∧ names.offset ≤ file.limit ∧
    ∀ entry ∈ sections, entry.name = encodeAscii ".go.buildinfo" → entry.offset ≤ file.limit

section Sections

variable {file : ElfFile} {cls : ElfClass} {order : ByteOrder} {table names : Bytes} {entsize : ℕ}

/-- The loop over the program headers finds out whether one of them is `PT_INTERP`. -/
theorem interpLoop_eq (order : ByteOrder) (table : Bytes) (entsize : ℕ) (kinds : List ℕ) (k : ℕ)
    (hkinds : ∀ i kind, kinds[i]? = some kind →
      (k + i) * entsize + 4 ≤ table.length ∧ field order 4 table ((k + i) * entsize) = kind) :
    interpLoop order table entsize (List.range' k kinds.length) = .ok (decide (3 ∈ kinds)) := by
  induction kinds generalizing k with
  | nil => rfl
  | cons kind kinds ih =>
      obtain ⟨hinside, hkind⟩ := hkinds 0 kind rfl
      rw [Nat.add_zero k] at hinside hkind
      have hfield : field order 4 (slice table (k * entsize) (k * entsize + 4)) 0 = kind := by
        rw [field_slice (by omega), Nat.add_zero, hkind]
      have hrest := ih (k + 1) fun i other hi => by
        have hnext := hkinds (i + 1) other hi
        rwa [show k + (i + 1) = k + 1 + i by omega] at hnext
      rw [List.length_cons, List.range'_succ, interpLoop, unpackFrom_of_le hinside]
      simp only [Bind.bind, Except.bind]
      rw [hfield, hrest]
      by_cases hthree : kind = 3
      · rw [if_pos hthree, hthree, decide_eq_true List.mem_cons_self]
      · rw [if_neg hthree]
        refine congrArg Except.ok (decide_eq_decide.mpr ?_)
        rw [List.mem_cons, or_iff_right (Ne.symm hthree)]

/-- The loop over the sections stops at the first one that is called `.go.buildinfo`. -/
theorem buildinfoLoop_eq (names : Bytes) (sections : List ElfSection) (k : ℕ)
    (hsections : ∀ i entry, sections[i]? = some entry →
      sectionAt cls order table entsize (k + i) = .ok (entry.nameOff, entry.offset, entry.size) ∧
        sectionName names entry.nameOff = entry.name)
    (hreach : ∀ entry ∈ sections, entry.name = encodeAscii ".go.buildinfo" →
      entry.offset ≤ file.limit) :
    buildinfoLoop cls order file table names entsize (List.range' k sections.length) =
      .ok ((buildinfoSection sections).map fun entry =>
        slice file.data entry.offset (entry.offset + min entry.size (1 <<< 20))) := by
  induction sections generalizing k with
  | nil => rfl
  | cons entry sections ih =>
      obtain ⟨hentry, hname⟩ := hsections 0 entry rfl
      rw [Nat.add_zero] at hentry
      rw [List.length_cons, List.range'_succ, buildinfoLoop, hentry]
      simp only [Bind.bind, Except.bind]
      rw [hname]
      rw [buildinfoSection]
      by_cases hgo : entry.name = encodeAscii ".go.buildinfo"
      · rw [if_pos hgo, List.find?_cons_of_pos (by simpa using hgo),
          ElfFile.readAt_of_le (hreach entry List.mem_cons_self hgo)]
        rfl
      · rw [if_neg hgo, List.find?_cons_of_neg (by simpa using hgo)]
        refine ih (k + 1) (fun i other hi => ?_)
          fun other hother => hreach other (List.mem_cons_of_mem _ hother)
        have hnext := hsections (i + 1) other hi
        rwa [show k + (i + 1) = k + 1 + i by omega] at hnext

/-- The bytes of a name up to its zero byte. -/
theorem sectionName_of_at {strings name : Bytes} {i : ℕ} (hname : 0 ∉ name)
    (hat : At strings i (name ++ [0])) : sectionName strings i = name := by
  rw [sectionName, findZero_of_at hname hat, Option.getD_some]
  exact slice_of_at (at_append.mp hat).1

variable (image : ProgramImage file)

/-- Each section header stands in the table that is read. -/
theorem SectionTable.sectionAt_table {image : ProgramImage file} (table : SectionTable image)
    {i : ℕ} {entry : ElfSection} (hi : table.sections[i]? = some entry) :
    sectionAt image.cls image.order
        (slice file.data image.shoff (image.shoff + image.shentsize * image.shnum))
        image.shentsize i = .ok (entry.nameOff, entry.offset, entry.size) := by
  obtain ⟨hinside, hname, hoffset, hsize⟩ := table.entry i entry hi
  have hlt : i < image.shnum := by
    rw [table.shnum_eq]
    exact (List.getElem?_eq_some_iff.mp hi).1
  obtain ⟨hword, hoffsetFits, hsizeFits⟩ : 4 ≤ image.cls.sectionSize ∧
      image.cls.sectionOffset + image.cls.word ≤ image.cls.sectionSize ∧
      image.cls.sectionLength + image.cls.word ≤ image.cls.sectionSize := by
    rcases image.known with h | h <;> rw [h] <;> decide
  have hentsize := table.entsize
  have hroom : i * image.shentsize + image.cls.sectionSize ≤ image.shentsize * image.shnum := by
    calc i * image.shentsize + image.cls.sectionSize
        ≤ i * image.shentsize + image.shentsize := by omega
      _ = image.shentsize * (i + 1) := by rw [Nat.mul_comm, Nat.mul_succ]
      _ ≤ image.shentsize * image.shnum := Nat.mul_le_mul_left _ hlt
  have hlength : i * image.shentsize + image.cls.sectionSize ≤ (slice file.data image.shoff
      (image.shoff + image.shentsize * image.shnum)).length := by
    rw [length_slice]
    omega
  have hfield : ∀ width first, first + width ≤ image.cls.sectionSize →
      field image.order width
          (slice (slice file.data image.shoff
            (image.shoff + image.shentsize * image.shnum)) (i * image.shentsize)
            (i * image.shentsize + image.cls.sectionSize)) first =
        field image.order width file.data (image.shoff + i * image.shentsize + first) := by
    intro width first hfirst
    rw [field_slice (by omega), field_slice (by omega), Nat.add_assoc]
  rw [sectionAt, unpackFrom_of_le hlength]
  simp only [Bind.bind, Except.bind]
  rw [hfield 4 0 (by omega), hfield _ _ hoffsetFits, hfield _ _ hsizeFits, Nat.add_zero, hname,
    hoffset, hsize]

/-- Whether a program is static, before the sections are looked at. -/
theorem ProgramImage.interpLoop_segments :
    interpLoop image.order
        (slice file.data image.phoff (image.phoff + image.phentsize * image.kinds.length))
        image.phentsize (List.range image.kinds.length) = .ok (decide (3 ∈ image.kinds)) := by
  rw [List.range_eq_range']
  refine interpLoop_eq _ _ _ image.kinds 0 fun i kind hi => ?_
  obtain ⟨hinside, hkind⟩ := image.kind i kind hi
  have hphentsize := image.bounded.2
  have hlt : i < image.kinds.length := (List.getElem?_eq_some_iff.mp hi).1
  have hroom : i * image.phentsize + 4 ≤ image.phentsize * image.kinds.length := by
    calc i * image.phentsize + 4 ≤ i * image.phentsize + image.phentsize := by omega
      _ = image.phentsize * (i + 1) := by rw [Nat.mul_comm, Nat.mul_succ]
      _ ≤ image.phentsize * image.kinds.length := Nat.mul_le_mul_left _ hlt
  rw [Nat.zero_add]
  refine ⟨?_, ?_⟩
  · rw [length_slice]
    omega
  · rw [field_slice (by omega), hkind]

/-- The names of the sections lead to the build info. -/
theorem SectionTable.buildinfoLoop_sections {image : ProgramImage file}
    (table : SectionTable image) :
    buildinfoLoop image.cls image.order file
        (slice file.data image.shoff (image.shoff + image.shentsize * image.shnum))
        (slice file.data table.names.offset
          (table.names.offset + min table.names.size (1 <<< 20)))
        image.shentsize (List.range image.shnum) =
      .ok ((buildinfoSection table.sections).map fun entry =>
        slice file.data entry.offset (entry.offset + min entry.size (1 <<< 20))) := by
  rw [List.range_eq_range']
  nth_rewrite 2 [table.shnum_eq]
  refine buildinfoLoop_eq _ table.sections 0 (fun i entry hi => ?_) table.reachable.2.2
  obtain ⟨hclean, hsize, hat⟩ := table.named entry (List.mem_of_getElem? hi)
  rw [Nat.zero_add]
  refine ⟨table.sectionAt_table hi, sectionName_of_at hclean (at_slice hat ?_)⟩
  rw [List.length_append, List.length_singleton]
  omega

/-- What `_elf_info` goes on with behind the program headers. -/
def ProgramImage.readSections (image : ProgramImage file) :
    Except ElfFault (Option (Bool × Option Bytes)) :=
  if image.shoff ≠ 0 ∧ image.shnum ≠ 0 ∧ image.shstrndx < image.shnum then do
    let sections ← file.readAt image.shoff (image.shentsize * image.shnum)
    let (_, namesOff, namesSize) ←
      sectionAt image.cls image.order sections image.shentsize image.shstrndx
    let names ← file.readAt namesOff (min namesSize (1 <<< 20))
    let blob ← buildinfoLoop image.cls image.order file sections names image.shentsize
      (List.range image.shnum)
    .ok (some (!decide (3 ∈ image.kinds), blob))
  else .ok (some (!decide (3 ∈ image.kinds), none))

/-- The headers of a program are read. -/
theorem ProgramImage.elfInfo_eq (image : ProgramImage file) :
    elfInfo file = image.readSections := by
  obtain ⟨hphoffAt, hcountsAt⟩ : image.cls.phoffAt + 2 * image.cls.word ≤ image.cls.headerSize ∧
      image.cls.countsAt + 10 ≤ image.cls.headerSize := by
    rcases image.known with h | h <;> rw [h] <;> decide
  have hmany := image.bounded.1
  have hfew : image.shnum < 256 ^ 2 := field_lt image.order 2 file.data (image.cls.countsAt + 6)
  have hshoff : image.shoff = field image.order image.cls.word file.data
    (image.cls.phoffAt + image.cls.word) := rfl
  have hshentsize : image.shentsize = field image.order 2 file.data (image.cls.countsAt + 4) := rfl
  have hshnum : image.shnum = field image.order 2 file.data (image.cls.countsAt + 6) := rfl
  have hshstrndx : image.shstrndx = field image.order 2 file.data (image.cls.countsAt + 8) := rfl
  rw [elfInfo, image.elfIdent_eq]
  simp only [Bind.bind, Except.bind]
  rw [image.unpackFrom_header hphoffAt, image.unpackFrom_header hcountsAt]
  simp only
  rw [image.field_header (by omega) hphoffAt, image.field_header (by omega) hphoffAt,
    image.field_header (by omega) hcountsAt, image.field_header (by omega) hcountsAt,
    image.field_header (by omega) hcountsAt, image.field_header (by omega) hcountsAt,
    image.field_header (by omega) hcountsAt]
  simp only [Nat.add_zero]
  rw [image.phoff_eq, image.phentsize_eq, image.phnum_eq, ← hshoff, ← hshentsize, ← hshnum,
    ← hshstrndx, if_neg (by omega), ElfFile.readAt_of_le image.reachable]
  simp only
  rw [image.interpLoop_segments]
  rfl

/-- **The tables of a program tell whether it is static and where its build info is.** -/
theorem elfInfo_image :
    (∀ table : SectionTable image,
      elfInfo file = .ok (some (!decide (3 ∈ image.kinds),
        (buildinfoSection table.sections).map fun entry =>
          slice file.data entry.offset (entry.offset + min entry.size (1 <<< 20))))) ∧
      (image.Stripped → elfInfo file = .ok (some (!decide (3 ∈ image.kinds), none))) := by
  rw [image.elfInfo_eq, ProgramImage.readSections]
  constructor
  · intro table
    have hindex : image.shstrndx < image.shnum := by
      rw [table.shnum_eq]
      exact (List.getElem?_eq_some_iff.mp table.names_eq).1
    obtain ⟨hshReach, hnamesReach, -⟩ := table.reachable
    rw [if_pos ⟨table.present, by omega, hindex⟩, ElfFile.readAt_of_le hshReach]
    simp only [Bind.bind, Except.bind]
    rw [table.sectionAt_table table.names_eq]
    simp only
    rw [ElfFile.readAt_of_le hnamesReach]
    simp only
    rw [table.buildinfoLoop_sections]
  · intro hstripped
    refine if_neg fun htable => ?_
    rcases hstripped with h | h | h
    · exact htable.1 h
    · exact htable.2.1 h
    · exact absurd htable.2.2 (Nat.not_lt.mpr h)

/-- The first place where bytes stand. -/
theorem findBytes_of_append {sub before after : Bytes}
    (hfirst : ∀ i < before.length, ¬ sub <+: (before ++ (sub ++ after)).drop i) :
    findBytes sub (before ++ (sub ++ after)) = some before.length := by
  rw [findBytes, List.findIdx?_eq_some_iff_getElem]
  have hlt : before.length < (before ++ (sub ++ after)).tails.length := by
    rw [List.length_tails, List.length_append]
    omega
  refine ⟨hlt, ?_, fun i hi => ?_⟩
  · rw [List.getElem_tails, List.drop_left, List.isPrefixOf_iff_prefix]
    exact List.prefix_append _ _
  · rw [List.getElem_tails, List.isPrefixOf_iff_prefix]
    exact hfirst i hi

/-- Where the build info of a program stands: in the section of its name or, where no section has
that name or the program is stripped, at the first magic bytes of the part that is searched. -/
inductive BuildInfoAt (image : ProgramImage file) (info : GoBuildInfo) (header : GoHeader)
    (marks : GoMarks) : Prop
  | named (table : SectionTable image) (entry : ElfSection) (after : Bytes)
      (first : buildinfoSection table.sections = some entry)
      (bytes : slice file.data entry.offset (entry.offset + min entry.size (1 <<< 20)) =
        info.blob header marks after)
  | searched (before after : Bytes)
      (absent : image.Stripped ∨
        ∃ table : SectionTable image, buildinfoSection table.sections = none)
      (size : (info.blob header marks []).length ≤ 1 <<< 20)
      (bytes : file.data.take exeSearchCap = before ++ info.blob header marks after)
      (first : ∀ i < before.length, ¬ goMagic <+: (file.data.take exeSearchCap).drop i)

/-- The build info begins with the magic bytes. -/
theorem GoBuildInfo.exists_body (info : GoBuildInfo) (header : GoHeader) (marks : GoMarks) :
    ∃ body, ∀ rest, info.blob header marks rest = goMagic ++ (body ++ rest) := by
  refine ⟨(header.ptrSize :: header.flags :: header.rest) ++
    (goString (encodeUtf8 info.version) ++ goString (info.modBytes marks)), fun rest => ?_⟩
  rw [GoBuildInfo.blob]
  simp only [List.append_assoc]

/-- What the search finds begins with the build info. -/
theorem searched_blob {info : GoBuildInfo} {header : GoHeader} {marks : GoMarks}
    {data before after : Bytes} (hsize : (info.blob header marks []).length ≤ 1 <<< 20)
    (hdata : data = before ++ info.blob header marks after)
    (hfirst : ∀ i < before.length, ¬ goMagic <+: data.drop i) :
    ∃ rest, ((findBytes goMagic data).map fun i => slice data i (i + (1 <<< 20))) =
      some (info.blob header marks rest) := by
  obtain ⟨body, hbody⟩ := info.exists_body header marks
  have hplace : findBytes goMagic data = some before.length := by
    rw [hdata, hbody]
    refine findBytes_of_append fun i hi => ?_
    rw [← hbody, ← hdata]
    exact hfirst i hi
  refine ⟨after.take ((1 <<< 20) - (info.blob header marks []).length), ?_⟩
  rw [hplace, Option.map_some, hdata, slice, List.drop_left, Nat.add_sub_cancel_left]
  rw [hbody, List.append_nil] at hsize
  rw [hbody, hbody, hbody, List.append_nil, ← List.append_assoc, List.take_append,
    List.take_of_length_le hsize, List.append_assoc]

/-- Build info that is found and can be read is returned. -/
theorem analyzeExecutable_of_parse {static : Bool} {buildinfo : Option Bytes} {blob : Bytes}
    {read : GoBuildRead} (hinfo : elfInfo file = .ok (some (static, buildinfo)))
    (hfound : buildinfo.or ((findBytes goMagic (file.data.take exeSearchCap)).map fun i =>
      slice (file.data.take exeSearchCap) i (i + (1 <<< 20))) = some blob) (hne : blob ≠ [])
    (hread : parseGoBuildinfo blob = .ok (some read)) :
    analyzeExecutable file = .ok ⟨some static, some read⟩ := by
  obtain ⟨byte, rest, rfl⟩ := List.exists_cons_of_ne_nil hne
  rw [analyzeExecutable, hinfo]
  cases buildinfo with
  | none =>
      rw [Option.none_or] at hfound
      simp only [hfound, hread]
  | some found =>
      obtain rfl := Option.some.inj hfound
      simp only [hread]

/-- **The build info of a Go program is found where it stands, and comes back with the version, the
path of the main module and every setting.** -/
theorem analyzeExecutable_go {info : GoBuildInfo} {header : GoHeader} {marks : GoMarks}
    (hwhere : BuildInfoAt image info header marks)
    (hversion : (encodeUtf8 info.version).length < 2 ^ 70)
    (hmod : (info.modBytes marks).length < 2 ^ 70) :
    analyzeExecutable file = .ok {
      static := some (!decide (3 ∈ image.kinds))
      go := some (.inline (if info.version = [] then none else some info.version)
        (info.lines.filterMap GoLine.path?).getLast?
        (Dict.ofLast (info.lines.filterMap GoLine.setting?))) } := by
  obtain ⟨htable, hstripped⟩ := elfInfo_image image
  -- What is found begins with the build info, whatever stands behind it.
  obtain ⟨buildinfo, after, hinfo, hfound⟩ : ∃ buildinfo after,
      elfInfo file = .ok (some (!decide (3 ∈ image.kinds), buildinfo)) ∧
        buildinfo.or ((findBytes goMagic (file.data.take exeSearchCap)).map fun i =>
          slice (file.data.take exeSearchCap) i (i + (1 <<< 20))) =
          some (info.blob header marks after) := by
    cases hwhere with
    | named table entry after first bytes =>
        have hinfo := htable table
        rw [first, Option.map_some, bytes] at hinfo
        exact ⟨_, after, hinfo, rfl⟩
    | searched before after absent size bytes first =>
        obtain ⟨rest, hrest⟩ := searched_blob size bytes first
        refine ⟨none, rest, ?_, hrest⟩
        rcases absent with habsent | ⟨table, habsent⟩
        · exact hstripped habsent
        · have hinfo := htable table
          rwa [habsent, Option.map_none] at hinfo
  have hne : info.blob header marks after ≠ [] := by
    obtain ⟨body, hbody⟩ := info.exists_body header marks
    rw [hbody]
    exact List.cons_ne_nil _ _
  rw [← info.goRead_modBytes marks]
  exact analyzeExecutable_of_parse hinfo hfound hne
    (parseGoBuildinfo_frame header after hversion hmod)

end Sections

/-- The bytes of `serverBuild`. -/
def serverBlob : Bytes :=
  serverBuild.blob ⟨8, 2, List.replicate 16 0, rfl, rfl⟩ goMarks []

/-- A static 32-bit program with that build info. -/
def serverFile : ElfFile where
  data := elfMagic ++ ([1, 1, 1] ++ List.replicate 9 0) ++ wholes [0, 0, 0, 52, 84, 0] ++
    halves [52, 32, 1, 40, 3, 2] ++ wholes [1, 0, 4096, 0, 184, 184, 5, 0] ++
    wholes [0, 0, 0, 0, 0, 0, 0, 0, 0, 0] ++
    wholes [1, 1, 2, 0, 229, serverBlob.length, 0, 0, 0, 0] ++
    wholes [15, 3, 0, 0, 204, 25, 0, 0, 0, 0] ++
    (0 :: encodeAscii ".go.buildinfo") ++ (0 :: encodeAscii ".shstrtab") ++ [0] ++ serverBlob
  limit := 2 ^ 40
  limit_lt := by decide

/-- Its sections. -/
def serverSections : List ElfSection :=
  [⟨0, [], 0, 0⟩, ⟨1, encodeAscii ".go.buildinfo", 229, serverBlob.length⟩,
    ⟨15, encodeAscii ".shstrtab", 204, 25⟩]

/-- The bytes are a program with these sections, and no interpreter. -/
theorem exists_serverImage : ∃ image : ProgramImage serverFile, image.kinds = [1] ∧
    ∃ table : SectionTable image, table.sections = serverSections := by
  let image : ProgramImage serverFile :=
    { cls := elf32
      order := .little
      magic := List.isPrefixOf_iff_prefix.mp (by decide +kernel)
      cls_eq := ⟨1, by decide +kernel, rfl⟩
      order_eq := ⟨1, by decide +kernel, rfl⟩
      header := by decide +kernel
      phoff := 52
      phentsize := 32
      kinds := [1]
      phoff_eq := by decide +kernel
      phentsize_eq := by decide +kernel
      phnum_eq := by decide +kernel
      bounded := by decide
      kind := forall_getElem?_of_zipIdx (by decide +kernel)
      reachable := by decide }
  have hshoff : image.shoff = 84 := by decide +kernel
  have hshentsize : image.shentsize = 40 := by decide +kernel
  refine ⟨image, rfl,
    { sections := serverSections
      names := ⟨15, encodeAscii ".shstrtab", 204, 25⟩
      present := by rw [hshoff]; decide
      shnum_eq := by decide +kernel
      entsize := by rw [hshentsize]; decide
      entry := by
        rw [hshoff, hshentsize]
        exact forall_getElem?_of_zipIdx (by decide +kernel)
      names_eq := by
        have hshstrndx : image.shstrndx = 2 := by decide +kernel
        rw [hshstrndx]
        rfl
      named := by
        simp only [serverSections, List.forall_mem_cons, List.not_mem_nil, false_implies,
          implies_true, and_true]
        refine ⟨⟨by decide, by decide, ?_⟩, ⟨by decide +kernel, by decide +kernel, ?_⟩,
          by decide +kernel, by decide +kernel, ?_⟩ <;>
          exact List.isPrefixOf_iff_prefix.mp (by decide +kernel)
      reachable := by
        rw [hshoff]
        exact ⟨by decide, by decide, by decide +kernel⟩ }, rfl⟩

theorem analyzeExecutable_server :
    analyzeExecutable serverFile = .ok ⟨some true,
      some (.inline (some "go1.24.4".toList) (some "example.com/srv".toList)
        (Dict.ofLast [("CGO_ENABLED".toList, "0".toList),
          ("DefaultGODEBUG".toList, "tlsmlkem=0".toList)]))⟩ := by
  obtain ⟨image, hkinds, table, hsections⟩ := exists_serverImage
  have hfind : buildinfoSection table.sections =
      some ⟨1, encodeAscii ".go.buildinfo", 229, serverBlob.length⟩ := by
    rw [hsections]
    rfl
  have hread := @analyzeExecutable_go serverFile image serverBuild
    ⟨8, 2, List.replicate 16 0, rfl, rfl⟩ goMarks
    (.named table _ [] hfind (by decide +kernel)) (by decide +kernel) (by decide +kernel)
  rw [hread, hkinds]
  rfl

end PqcReadiness.Runtime
