import PqcReadiness.Lib.Cursor
import PqcReadiness.Runtime.GoBuild
import PqcReadiness.Runtime.ProcNet

/-!
# Executables

The two readers of ELF files, `_elf_info` and `elf_dynamic`, and `analyze_executable`, which looks
for Go build info in what the first one finds.  Both word sizes and both byte orders are read by one
definition each, with the offsets of the fields as an `ElfClass`.

A file is its bytes and the largest offset that can be sought in it.  The last part is about every
file: which exceptions leave the readers, and that `Conversion.elf` is where they do.
-/

namespace PqcReadiness.Runtime

open PqcReadiness.Lib PqcReadiness.Lib.Bytes

/-! ## The code -/

/-- What can be raised on the way: `ValueError`, `struct.error`, `OSError` and `IndexError`. -/
inductive ElfFault
  | value
  | struct
  | os
  | index
  deriving DecidableEq

/-- The exceptions that the callers treat as an unreadable file. -/
def ElfFault.handled : ElfFault → Bool
  | .value | .struct | .os => true
  | .index => false

/-- A file that is open: its bytes, and the largest offset that the file system lets a program seek
to. -/
structure ElfFile where
  data : Bytes
  limit : ℕ
  limit_lt : limit < 2 ^ 63

/-- `fh.seek(off)`; an offset that does not fit into 64 bits is a `ValueError`. -/
def ElfFile.seek (file : ElfFile) (off : ℕ) : Except ElfFault Unit :=
  if 2 ^ 63 ≤ off then .error .value
  else if file.limit < off then .error .os
  else .ok ()

/-- `fh.seek(off)` and `fh.read(size)`. -/
def ElfFile.readAt (file : ElfFile) (off size : ℕ) : Except ElfFault Bytes := do
  file.seek off
  .ok (slice file.data off (off + size))

/-- `struct.unpack_from` for a record of this size. -/
def unpackFrom (size : ℕ) (buffer : Bytes) (off : ℕ) : Except ElfFault Bytes :=
  match unpack size buffer off with
  | some found => .ok found
  | none => .error .struct

/-- The sizes and offsets that the word size decides. -/
structure ElfClass where
  word : ℕ
  headerSize : ℕ
  phoffAt : ℕ
  countsAt : ℕ
  entsizeMin : ℕ
  segmentSize : ℕ
  segmentOffset : ℕ
  segmentVaddr : ℕ
  segmentFilesz : ℕ
  sectionSize : ℕ
  sectionOffset : ℕ
  sectionLength : ℕ
  deriving DecidableEq

/-- `QQ` at 32, `HHHHH` at 54, `IIQQQQ` for both tables. -/
def elf64 : ElfClass := ⟨8, 64, 32, 54, 56, 40, 8, 16, 32, 40, 24, 32⟩

/-- `II` at 28, `HHHHH` at 42, `IIIII` and `IIIIII` for the tables. -/
def elf32 : ElfClass := ⟨4, 52, 28, 42, 32, 20, 4, 8, 16, 24, 16, 20⟩

/-- The class and the byte order of `ident`. -/
def elfIdent (file : ElfFile) : Except ElfFault (Option (ElfClass × ByteOrder)) :=
  let ident := file.data.take 16
  if ident.take 4 ≠ elfMagic then .ok none
  else
    match ident[4]?, ident[5]? with
    | some cls, some data =>
        .ok (some (if cls = 2 then elf64 else elf32, if data = 1 then .little else .big))
    | _, _ => .error .index

/-- The loop that looks for `PT_INTERP`. -/
def interpLoop (order : ByteOrder) (table : Bytes) (entsize : ℕ) :
    List ℕ → Except ElfFault Bool
  | [] => .ok false
  | i :: rest => do
      let entry ← unpackFrom 4 table (i * entsize)
      if field order 4 entry 0 = 3 then .ok true else interpLoop order table entsize rest

/-- `section`: the offset of the name, and where the section is. -/
def sectionAt (cls : ElfClass) (order : ByteOrder) (table : Bytes) (entsize i : ℕ) :
    Except ElfFault (ℕ × ℕ × ℕ) := do
  let entry ← unpackFrom cls.sectionSize table (i * entsize)
  .ok (field order 4 entry 0, field order cls.word entry cls.sectionOffset,
    field order cls.word entry cls.sectionLength)

/-- `data.find(b"\0", start)`. -/
def findZero (data : Bytes) (start : ℕ) : Option ℕ :=
  ((data.drop start).findIdx? (· = 0)).map (start + ·)

/-- `names[start:end]`, where a missing end is the last byte. -/
def sectionName (names : Bytes) (start : ℕ) : Bytes :=
  slice names start ((findZero names start).getD (names.length - 1))

/-- The loop that looks for `.go.buildinfo`. -/
def buildinfoLoop (cls : ElfClass) (order : ByteOrder) (file : ElfFile) (table names : Bytes)
    (entsize : ℕ) : List ℕ → Except ElfFault (Option Bytes)
  | [] => .ok none
  | i :: rest => do
      let (name, off, size) ← sectionAt cls order table entsize i
      if sectionName names name = encodeAscii ".go.buildinfo" then
        let blob ← file.readAt off (min size (1 <<< 20))
        .ok (some blob)
      else buildinfoLoop cls order file table names entsize rest

/-- `_elf_info`: whether the file is static, and its build info. -/
def elfInfo (file : ElfFile) : Except ElfFault (Option (Bool × Option Bytes)) := do
  match ← elfIdent file with
  | none => .ok none
  | some (cls, order) =>
      let header := file.data.take cls.headerSize
      let offsets ← unpackFrom (2 * cls.word) header cls.phoffAt
      let counts ← unpackFrom 10 header cls.countsAt
      let phoff := field order cls.word offsets 0
      let shoff := field order cls.word offsets cls.word
      let phentsize := field order 2 counts 0
      let phnum := field order 2 counts 2
      let shentsize := field order 2 counts 4
      let shnum := field order 2 counts 6
      let shstrndx := field order 2 counts 8
      if 4096 < phnum ∨ 65535 < shnum then .error .value
      else do
        let segments ← file.readAt phoff (phentsize * phnum)
        let interp ← interpLoop order segments phentsize (List.range phnum)
        if shoff ≠ 0 ∧ shnum ≠ 0 ∧ shstrndx < shnum then do
          let sections ← file.readAt shoff (shentsize * shnum)
          let (_, namesOff, namesSize) ← sectionAt cls order sections shentsize shstrndx
          let names ← file.readAt namesOff (min namesSize (1 <<< 20))
          let blob ← buildinfoLoop cls order file sections names shentsize (List.range shnum)
          .ok (some (!interp, blob))
        else .ok (some (!interp, none))

/-- The state of the loop over the program headers. -/
structure SegmentScan where
  loads : List (ℕ × ℕ × ℕ)
  dyn : Option (ℕ × ℕ)

/-- The loop over the program headers. -/
def segmentLoop (cls : ElfClass) (order : ByteOrder) (table : Bytes) (entsize : ℕ) :
    List ℕ → SegmentScan → Except ElfFault SegmentScan
  | [], scan => .ok scan
  | i :: rest, scan => do
      let entry ← unpackFrom cls.segmentSize table (i * entsize)
      let offset := field order cls.word entry cls.segmentOffset
      let vaddr := field order cls.word entry cls.segmentVaddr
      let filesz := field order cls.word entry cls.segmentFilesz
      let kind := field order 4 entry 0
      segmentLoop cls order table entsize rest
        (if kind = 1 then { scan with loads := scan.loads ++ [(vaddr, offset, filesz)] }
        else if kind = 2 then { scan with dyn := some (offset, min filesz (1 <<< 16)) }
        else scan)

/-- The state of the loop over the dynamic section. -/
structure DynamicScan where
  needed : List ℕ
  runpath : List ℕ
  strtab : Option ℕ
  strsz : Option ℕ

/-- An entry of the dynamic section that is not its end. -/
def DynamicScan.entry (scan : DynamicScan) (tag : ℤ) (value : ℕ) : DynamicScan :=
  if tag = 1 then { scan with needed := scan.needed ++ [value] }
  else if tag = 15 ∨ tag = 29 then { scan with runpath := scan.runpath ++ [value] }
  else if tag = 5 then { scan with strtab := some value }
  else if tag = 10 then { scan with strsz := some value }
  else scan

/-- The loop over the dynamic section. -/
def dynamicLoop (cls : ElfClass) (order : ByteOrder) (raw : Bytes) :
    List ℕ → DynamicScan → DynamicScan
  | [], scan => scan
  | off :: rest, scan =>
      let tag := signed cls.word (field order cls.word raw off)
      if tag = 0 then scan
      else
        dynamicLoop cls order raw rest
          (scan.entry tag (field order cls.word raw (off + cls.word)))

/-- `at`. -/
def stringAt (strings : Bytes) (i : ℕ) : List Char :=
  replaceUtf8From .start (slice strings i ((findZero strings i).getD strings.length))

/-- The dynamic section of an ELF file. -/
structure Dynamic where
  needed : List String
  runpath : List String

/-- What the dynamic section and its strings say. -/
def DynamicScan.names (scan : DynamicScan) (strings : Bytes) : Dynamic where
  needed := (scan.needed.filter (· < strings.length)).map fun i =>
    String.ofList (stringAt strings i)
  runpath := (scan.runpath.filter (· < strings.length)).flatMap fun i =>
    ((splitChars ':' (stringAt strings i)).filter (· ≠ [])).map String.ofList

/-- `strsz or (1 << 16)`. -/
def stringsSize : Option ℕ → ℕ
  | none | some 0 => 1 <<< 16
  | some size => size

/-- `elf_dynamic`. -/
def elfDynamic (file : ElfFile) : Except ElfFault (Option Dynamic) := do
  match ← elfIdent file with
  | none => .ok none
  | some (cls, order) =>
      let header := file.data.take cls.headerSize
      let offsets ← unpackFrom cls.word header cls.phoffAt
      let counts ← unpackFrom 4 header cls.countsAt
      let phoff := field order cls.word offsets 0
      let phentsize := field order 2 counts 0
      let phnum := field order 2 counts 2
      if 4096 < phnum ∨ ¬ (cls.entsizeMin ≤ phentsize ∧ phentsize ≤ 256) then .error .value
      else do
        let table ← file.readAt phoff (phentsize * phnum)
        let scan ← segmentLoop cls order table phentsize (List.range phnum) ⟨[], none⟩
        match scan.dyn with
        | none => .ok (some ⟨[], []⟩)
        | some (off, size) => do
            let raw ← file.readAt off size
            let found := dynamicLoop cls order raw
              (rangeStep 0 (raw.length + 1 - 2 * cls.word) (2 * cls.word)) ⟨[], [], none, none⟩
            match found.strtab with
            | none => .ok (some ⟨[], []⟩)
            | some strtab =>
                match scan.loads.find? fun load => load.1 ≤ strtab ∧ strtab < load.1 + load.2.2 with
                | none => .ok (some ⟨[], []⟩)
                | some (vaddr, offset, _) => do
                    let strings ← file.readAt (offset + strtab - vaddr)
                      (min (stringsSize found.strsz) (1 <<< 20))
                    .ok (some (found.names strings))

/-- `data.find(sub)`. -/
def findBytes (sub : Bytes) (data : Bytes) : Option ℕ :=
  data.tails.findIdx? fun rest => sub.isPrefixOf rest

/-- The result of `analyze_executable`. -/
structure Executable where
  static : Option Bool
  go : Option GoBuildRead

/-- `_EXE_UNKNOWN`. -/
def Executable.unknown : Executable := ⟨none, none⟩

/-- `_EXE_SEARCH_CAP`. -/
def exeSearchCap : ℕ := 64 * 1024 * 1024

/-- `analyze_executable`, of a file that can be opened. -/
def analyzeExecutable (file : ElfFile) : Except ElfFault Executable :=
  match elfInfo file with
  | .error fault => if fault.handled then .ok .unknown else .error fault
  | .ok none => .ok .unknown
  | .ok (some (static, buildinfo)) =>
      let blob := match buildinfo with
        | some blob => some blob
        | none =>
            let data := file.data.take exeSearchCap
            (findBytes goMagic data).map fun i => slice data i (i + (1 <<< 20))
      match blob with
      | none | some [] => .ok ⟨some static, none⟩
      | some blob =>
          match parseGoBuildinfo blob with
          | .error _ => .ok ⟨some static, none⟩
          | .ok none => .ok ⟨some static, none⟩
          | .ok (some read) => .ok ⟨some static, some read⟩

/-! ## Reading -/

section Reading

variable {file : ElfFile} {cls : ElfClass} {order : ByteOrder} {data buffer : Bytes}

theorem ElfFile.readAt_of_le {off : ℕ} (hoff : off ≤ file.limit) (size : ℕ) :
    file.readAt off size = .ok (slice file.data off (off + size)) := by
  have hlimit := file.limit_lt
  rw [ElfFile.readAt, ElfFile.seek, if_neg (by omega), if_neg (by omega)]
  rfl

theorem unpackFrom_of_le {size off : ℕ} (hsize : off + size ≤ buffer.length) :
    unpackFrom size buffer off = .ok (slice buffer off (off + size)) := by
  rw [unpackFrom, unpack_of_le hsize]

/-- What stands in the file stands in a part of it. -/
theorem at_slice {start i size : ℕ} {bytes : Bytes} (hat : At data (start + i) bytes)
    (hsize : i + bytes.length ≤ size) : At (slice data start (start + size)) i bytes := by
  obtain ⟨rest, hrest⟩ := hat
  refine ⟨rest.take (size - i - bytes.length), ?_⟩
  have hwhole : bytes.take (size - i) = bytes := List.take_of_length_le (by omega)
  rw [slice, Nat.add_sub_cancel_left, List.drop_take, List.drop_drop, ← hrest, List.take_append,
    hwhole]

/-- The first zero byte behind bytes that have none. -/
theorem findZero_of_at {strings bytes : Bytes} {i : ℕ} (hbytes : 0 ∉ bytes)
    (hat : At strings i (bytes ++ [0])) : findZero strings i = some (i + bytes.length) := by
  obtain ⟨rest, hrest⟩ := hat
  have hnone : bytes.findIdx? (fun byte => decide (byte = 0)) = none := by
    rw [List.findIdx?_eq_none_iff]
    intro byte hbyte
    rw [decide_eq_false_iff_not]
    rintro rfl
    exact hbytes hbyte
  rw [findZero, ← hrest, List.append_assoc, List.findIdx?_append, hnone, Option.none_or,
    List.singleton_append, List.findIdx?_cons, if_pos (decide_eq_true rfl)]
  simp

/-- A string up to its zero byte. -/
theorem stringAt_of_at {strings : Bytes} {i : ℕ} {text : List Char} (htext : '\x00' ∉ text)
    (hat : At strings i (encodeUtf8 text ++ [0])) : stringAt strings i = text := by
  have hzero := findZero_of_at (zero_notMem_encodeUtf8 htext) hat
  have hslice := slice_of_at (at_append.mp hat).1
  rw [stringAt, hzero, Option.getD_some, hslice, replaceUtf8_encode]

end Reading

/-! ## What is raised -/

/-- Every exception is one that the callers handle. -/
def HandledOnly {α : Type} (run : Except ElfFault α) : Prop :=
  ∀ fault, run = .error fault → fault.handled = true

section Faults

variable {α β : Type} {file : ElfFile}

theorem HandledOnly.ok (value : α) : HandledOnly (.ok value : Except ElfFault α) := by
  rintro fault ⟨⟩

theorem HandledOnly.bind {run : Except ElfFault α} {next : α → Except ElfFault β}
    (hrun : HandledOnly run) (hnext : ∀ value, HandledOnly (next value)) :
    HandledOnly (run >>= next) := by
  intro fault hfault
  cases run with
  | error other =>
      cases hfault
      exact hrun fault rfl
  | ok value => exact hnext value fault hfault

theorem HandledOnly.ite {condition : Prop} [Decidable condition] {run other : Except ElfFault α}
    (hrun : HandledOnly run) (hother : HandledOnly other) :
    HandledOnly (if condition then run else other) := by
  split
  · exact hrun
  · exact hother

theorem HandledOnly.value : HandledOnly (.error .value : Except ElfFault α) := by
  rintro fault ⟨⟩
  rfl

theorem handledOnly_readAt (off size : ℕ) : HandledOnly (file.readAt off size) := by
  refine HandledOnly.bind ?_ fun _ => HandledOnly.ok _
  intro fault hfault
  rw [ElfFile.seek] at hfault
  split at hfault
  · cases hfault
    rfl
  · split at hfault
    · cases hfault
      rfl
    · cases hfault

theorem handledOnly_unpackFrom (size : ℕ) (buffer : Bytes) (off : ℕ) :
    HandledOnly (unpackFrom size buffer off) := by
  intro fault hfault
  rw [unpackFrom] at hfault
  split at hfault
  · cases hfault
  · cases hfault
    rfl

theorem handledOnly_sectionAt (cls : ElfClass) (order : ByteOrder) (table : Bytes)
    (entsize i : ℕ) : HandledOnly (sectionAt cls order table entsize i) :=
  (handledOnly_unpackFrom _ _ _).bind fun _ => HandledOnly.ok _

theorem handledOnly_interpLoop (order : ByteOrder) (table : Bytes) (entsize : ℕ)
    (indices : List ℕ) : HandledOnly (interpLoop order table entsize indices) := by
  induction indices with
  | nil => exact HandledOnly.ok _
  | cons i indices ih =>
      exact (handledOnly_unpackFrom _ _ _).bind fun entry => HandledOnly.ite (HandledOnly.ok _) ih

theorem handledOnly_buildinfoLoop (cls : ElfClass) (order : ByteOrder) (table names : Bytes)
    (entsize : ℕ) (indices : List ℕ) :
    HandledOnly (buildinfoLoop cls order file table names entsize indices) := by
  induction indices with
  | nil => exact HandledOnly.ok _
  | cons i indices ih =>
      refine (handledOnly_sectionAt _ _ _ _ _).bind fun entry => ?_
      exact HandledOnly.ite ((handledOnly_readAt _ _).bind fun _ => HandledOnly.ok _) ih

theorem handledOnly_segmentLoop (cls : ElfClass) (order : ByteOrder) (table : Bytes)
    (entsize : ℕ) (indices : List ℕ) (scan : SegmentScan) :
    HandledOnly (segmentLoop cls order table entsize indices scan) := by
  induction indices generalizing scan with
  | nil => exact HandledOnly.ok _
  | cons i indices ih => exact (handledOnly_unpackFrom _ _ _).bind fun _ => ih _

/-- The bytes that decide the layout are looked at without being counted. -/
theorem elfIdent_error_iff {fault : ElfFault} :
    elfIdent file = .error fault ↔
      fault = .index ∧ file.data.take 4 = elfMagic ∧ file.data.length < 6 := by
  have hprefix : (file.data.take 16).take 4 = file.data.take 4 := by rw [List.take_take]; rfl
  rw [elfIdent, hprefix]
  by_cases hmagic : file.data.take 4 = elfMagic
  · rw [if_neg (not_not_intro hmagic), List.getElem?_take_of_lt (by decide),
      List.getElem?_take_of_lt (by decide)]
    rcases Nat.lt_or_ge file.data.length 6 with hshort | hlong
    · rw [List.getElem?_eq_none (by omega : file.data.length ≤ 5)]
      cases file.data[4]? <;> simp [hmagic, hshort, eq_comm]
    · rw [List.getElem?_eq_getElem (by omega : 4 < file.data.length),
        List.getElem?_eq_getElem (by omega : 5 < file.data.length)]
      simp [Nat.not_lt.mpr hlong]
  · rw [if_pos hmagic]
    simp [hmagic]

/-- The readers raise what is not handled where the identification does. -/
theorem escapes_iff_of_bind {next : Option (ElfClass × ByteOrder) → Except ElfFault α}
    (hnext : ∀ ident, HandledOnly (next ident)) :
    (∃ fault, (elfIdent file >>= next) = .error fault ∧ fault.handled = false) ↔
      file.data.take 4 = elfMagic ∧ file.data.length < 6 := by
  constructor
  · rintro ⟨fault, hfault, hescapes⟩
    cases hident : elfIdent file with
    | error other => exact (elfIdent_error_iff.mp hident).2
    | ok ident =>
        rw [hident] at hfault
        exact absurd (hnext ident fault hfault) (by rw [hescapes]; decide)
  · intro hshort
    exact ⟨.index, by rw [elfIdent_error_iff.mpr ⟨rfl, hshort⟩]; rfl, rfl⟩

/-- `_elf_info` raises what is not handled where the identification does. -/
theorem elfInfo_escapes_iff :
    (∃ fault, elfInfo file = .error fault ∧ fault.handled = false) ↔
      file.data.take 4 = elfMagic ∧ file.data.length < 6 := by
  refine escapes_iff_of_bind fun ident => ?_
  cases ident with
  | none => exact HandledOnly.ok _
  | some layout =>
      refine (handledOnly_unpackFrom _ _ _).bind fun offsets => ?_
      refine (handledOnly_unpackFrom _ _ _).bind fun counts => ?_
      refine HandledOnly.ite HandledOnly.value ?_
      refine (handledOnly_readAt _ _).bind fun segments => ?_
      refine (handledOnly_interpLoop _ _ _ _).bind fun interp => ?_
      refine HandledOnly.ite ?_ (HandledOnly.ok _)
      refine (handledOnly_readAt _ _).bind fun sections => ?_
      refine (handledOnly_sectionAt _ _ _ _ _).bind fun names => ?_
      refine (handledOnly_readAt _ _).bind fun names => ?_
      exact (handledOnly_buildinfoLoop _ _ _ _ _ _).bind fun _ => HandledOnly.ok _

/-- `analyze_executable` handles the rest. -/
theorem analyzeExecutable_error_iff :
    (∃ fault, analyzeExecutable file = .error fault) ↔
      file.data.take 4 = elfMagic ∧ file.data.length < 6 := by
  rw [← elfInfo_escapes_iff]
  constructor
  · rintro ⟨fault, hfault⟩
    rw [analyzeExecutable] at hfault
    cases hrun : elfInfo file with
    | error other =>
        rw [hrun] at hfault
        cases hother : other.handled with
        | true => simp [hother] at hfault
        | false => exact ⟨other, rfl, hother⟩
    | ok found =>
        rw [hrun] at hfault
        grind
  · rintro ⟨fault, hfault, hescapes⟩
    exact ⟨fault, by rw [analyzeExecutable, hfault]; simp [hescapes]⟩

/-- `elf_dynamic` raises what is not handled where the identification does. -/
theorem elfDynamic_escapes_iff :
    (∃ fault, elfDynamic file = .error fault ∧ fault.handled = false) ↔
      file.data.take 4 = elfMagic ∧ file.data.length < 6 := by
  refine escapes_iff_of_bind fun ident => ?_
  cases ident with
  | none => exact HandledOnly.ok _
  | some layout =>
      refine (handledOnly_unpackFrom _ _ _).bind fun offsets => ?_
      refine (handledOnly_unpackFrom _ _ _).bind fun counts => ?_
      refine HandledOnly.ite HandledOnly.value ?_
      refine (handledOnly_readAt _ _).bind fun table => ?_
      refine (handledOnly_segmentLoop _ _ _ _ _ _).bind fun scan => ?_
      cases scan.dyn with
      | none => exact HandledOnly.ok _
      | some dyn =>
      refine (handledOnly_readAt _ _).bind fun raw => ?_
      dsimp only
      split
      · exact HandledOnly.ok _
      split
      · exact HandledOnly.ok _
      exact (handledOnly_readAt _ _).bind fun _ => HandledOnly.ok _

/-- **Whatever a file holds, the readers return or raise what their callers handle,** unless it is
the magic bytes with at most one byte behind them. -/
theorem elf_escapes_iff :
    ((∃ fault, analyzeExecutable file = .error fault) ↔
        file.data.take 4 = elfMagic ∧ file.data.length < 6) ∧
      ((∃ fault, elfDynamic file = .error fault ∧ fault.handled = false) ↔
        file.data.take 4 = elfMagic ∧ file.data.length < 6) :=
  ⟨analyzeExecutable_error_iff, elfDynamic_escapes_iff⟩

end Faults

/-! ## Files that are opened -/

/-- `_dynamic_through` without its cache; none is a file that cannot be opened. -/
def openDynamic : Option ElfFile → Except ElfFault (Option Dynamic)
  | none => .ok none
  | some file =>
      match elfDynamic file with
      | .ok dyn => .ok dyn
      | .error fault => if fault.handled then .ok none else .error fault

/-- `analyze_executable`, of a path. -/
def openExecutable : Option ElfFile → Except ElfFault Executable
  | none => .ok .unknown
  | some file => analyzeExecutable file

/-- A file that can be opened is identified. -/
def checkElf (mode : Mode) : Option ElfFile → Scanner Unit
  | none => return ()
  | some file => check mode (.elf file.data)

/-- What a reader makes of a file. -/
def scanElf {ρ : Type} (mode : Mode) (unreadable : ρ) (file : Option ElfFile)
    (read : Except ElfFault ρ) : Scanner ρ := do
  checkElf mode file
  match read with
  | .ok found => return found
  -- A lenient scan takes a file on which the reader raises for one that cannot be read.
  | .error _ => return unreadable

/-- A file that can be opened, and is cut off within the bytes that identify it. -/
def Cut (file : Option ElfFile) : Prop :=
  ∃ elf ∈ file, elf.data.take 4 = elfMagic ∧ elf.data.length < 6

section Opened

variable {ρ : Type} {file : Option ElfFile}

theorem openDynamic_error_iff : (∃ fault, openDynamic file = .error fault) ↔ Cut file := by
  cases file with
  | none => exact iff_of_false nofun nofun
  | some elf =>
      have hescapes := @elfDynamic_escapes_iff elf
      rw [Cut, openDynamic]
      simp only [Option.mem_some_iff, exists_eq_left', ← hescapes]
      cases elfDynamic elf with
      | ok dyn => exact iff_of_false nofun nofun
      | error fault =>
          cases hhandled : fault.handled with
          | true => simp [hhandled]
          | false => simp [hhandled]

theorem openExecutable_error_iff : (∃ fault, openExecutable file = .error fault) ↔ Cut file := by
  cases file with
  | none => exact iff_of_false nofun nofun
  | some elf =>
      rw [Cut, openExecutable, analyzeExecutable_error_iff]
      simp only [Option.mem_some_iff, exists_eq_left']

theorem checkElf_strict_of_not_cut (hwhole : ¬ Cut file) : (checkElf .strict file).ended = .ok () := by
  cases file with
  | none => rfl
  | some elf =>
      have hconverts : (Conversion.elf elf.data).converts = true := by
        refine decide_eq_true fun hmagic => ?_
        by_contra hshort
        exact hwhole ⟨elf, rfl, hmagic, Nat.lt_of_not_le hshort⟩
      rw [checkElf, check, Gen.bind_of_ok (Gen.yield_ended _), raiseIf_of_not (by simp [hconverts])]
      rfl

theorem checkElf_strict_of_cut (hcut : Cut file) :
    (checkElf .strict file).ended = .error .indexError := by
  obtain ⟨elf, rfl, hmagic, hshort⟩ := hcut
  have hfails : (Conversion.elf elf.data).converts = false :=
    decide_eq_false fun hlong => Nat.not_le.mpr hshort (hlong hmagic)
  rw [checkElf, check, Gen.bind_of_ok (Gen.yield_ended _), raiseIf_of (by simp [hfails])]
  rfl

/-- The program raises where the reader does, and finds what the reader finds. -/
theorem scanElf_strict (unreadable : ρ) {read : Except ElfFault ρ}
    (hread : (∃ fault, read = .error fault) ↔ Cut file) :
    (scanElf .strict unreadable file read).ended = read.mapError fun _ => .indexError := by
  cases read with
  | error fault =>
      rw [scanElf, Gen.bind_of_error (checkElf_strict_of_cut (hread.mp ⟨fault, rfl⟩))]
      rfl
  | ok found =>
      have hwhole : ¬ Cut file := fun hcut => nomatch (hread.mpr hcut).choose_spec
      rw [scanElf, Gen.bind_of_ok (checkElf_strict_of_not_cut hwhole)]
      rfl

/-- A scan raises where `analyze_executable` does, and knows what it returns. -/
theorem scanExecutable_strict :
    (scanElf .strict .unknown file (openExecutable file)).ended =
      (openExecutable file).mapError fun _ => .indexError :=
  scanElf_strict .unknown openExecutable_error_iff

end Opened

end PqcReadiness.Runtime
