import PqcReadiness.Observations.Classify
import PqcReadiness.Runtime.Elf

/-!
# The key exchanges of an OpenSSH build

`referenced_kex_names` reads the names that the table of an OpenSSH binary points at,
`kex_names_in` falls back to texts between zero bytes, and `openssh_build_kex` puts together what
the binaries of a host or tree say.  What a build has by default, and its version, are left out.

The last part is about every file: which exceptions leave the three readers of executables.
-/

namespace PqcReadiness.Runtime

open PqcReadiness.Lib PqcReadiness.Lib.Bytes PqcReadiness.Observations

/-! ## The code -/

/-- What `referenced_kex_names` may meet: `struct.error`, `IndexError` and `OverflowError`. -/
inductive KexFault
  | struct
  | index
  | overflow
  deriving DecidableEq

/-- `OPENSSH_BINARIES`. -/
def opensshBinaries : List String :=
  ["/usr/sbin/sshd", "/usr/libexec/openssh/sshd-session", "/usr/lib/openssh/sshd-session",
    "/usr/libexec/ssh/sshd-session", "/usr/lib/ssh/sshd-session", "/usr/bin/ssh"]

/-- The characters of some bytes. -/
def charsOf (data : Bytes) : List Char := data.map fun b => Char.ofNat b.toNat

/-- `[A-Za-z0-9@._-]`. -/
def isMethodByte (b : UInt8) : Bool :=
  let c := Char.ofNat b.toNat
  c.isAlphanum || c ∈ ['@', '.', '_', '-']

/-- `[a-z0-9@.\-]`. -/
def isNameByte (b : UInt8) : Bool :=
  let c := Char.ofNat b.toNat
  c.isLower || c.isDigit || c ∈ ['@', '.', '-']

/-- The longest run of such bytes at each place that one begins at. -/
def runsOf (keep : UInt8 → Bool) (data : Bytes) : List (ℕ × Bytes) :=
  (List.range data.length).filterMap fun i =>
    if 0 < i ∧ data[i - 1]?.any keep then none else some (i, (data.drop i).takeWhile keep)

/-- What `_KEX_METHOD_RE` looks for. -/
def kexMethod : Regex :=
  .alts
    [.seqs [.text "diffie-hellman-group", .alt .digits (.text "-exchange"), .text "-sha", .digits],
      .seqs [.text "ecdh-sha2-nistp", .digits],
      .seqs [.text "curve", .alt (.text "25519") (.text "448"), .text "-sha", .digits,
        .opt (.text "@libssh.org")],
      .seqs [.alt (.seq (.text "sntrup") .digits) (.seq (.text "mlkem") .digits),
        .star (.one fun c => c.isLower || c.isDigit), .text "-sha", .digits,
        .opt (.text "@openssh.com")]]

/-- `_KEX_METHOD_RE.finditer(data)`: no method goes on, so it is a whole run. -/
def kexMethods (data : Bytes) : List (ℕ × Bytes) :=
  (runsOf isMethodByte data).filter fun entry => kexMethod.accepts (charsOf entry.2)

/-- `_KEX_NAME_RE.finditer(b"\x00" + data)`. -/
def kexStrings (data : Bytes) : List Bytes :=
  (List.range data.length).filterMap fun i =>
    let name := (data.drop i).takeWhile isNameByte
    if 0 < i ∧ data[i - 1]? ≠ some 0 then none
    else if data[i + name.length]? ≠ some 0 then none
    else if name.head?.any (fun b => (Char.ofNat b.toNat).isAlphanum) ∧ 9 ≤ name.length ∧
        name.length ≤ 64 then some name
    else none

/-- `_KEX_HINT_RE`. -/
def kexHint : Regex :=
  .alts [.seq (.text "sha") (.one isDigit), .text "@openssh.com", .text "@libssh.org"]

/-- `struct.unpack_from` at an offset that the file gives. -/
def unpackOffset (size : ℕ) (data : Bytes) (off : ℕ) : Except KexFault Bytes :=
  if 2 ^ 63 ≤ off then .error .overflow
  else
    match unpack size data off with
    | some found => .ok found
    | none => .error .struct

/-- The class and the byte order. -/
def kexIdent (data : Bytes) : Except KexFault (Option (ElfClass × ByteOrder)) :=
  if data.take 4 ≠ elfMagic then .ok none
  else
    match data[4]? with
    | none => .error .index
    | some cls =>
        if cls ≠ 1 ∧ cls ≠ 2 then .ok none
        else
          match data[5]? with
          | none => .error .index
          | some order =>
              if order ≠ 1 ∧ order ≠ 2 then .ok none
              else .ok (some (if cls = 2 then elf64 else elf32,
                if order = 1 then .little else .big))

/-- A segment that is loaded: its offset, its address and its size. -/
structure KexLoad where
  off : ℕ
  vaddr : ℕ
  filesz : ℕ
  deriving DecidableEq

/-- The loop over the program headers. -/
def kexLoads (cls : ElfClass) (order : ByteOrder) (data : Bytes) (phoff phentsize : ℕ) :
    List ℕ → Except KexFault (List KexLoad)
  | [] => .ok []
  | i :: rest => do
      let entry ← unpackOffset cls.segmentSize data (phoff + i * phentsize)
      let loads ← kexLoads cls order data phoff phentsize rest
      -- `PT_LOAD`
      if field order 4 entry 0 = 1 then
        .ok (⟨field order cls.word entry cls.segmentOffset,
          field order cls.word entry cls.segmentVaddr,
          field order cls.word entry cls.segmentFilesz⟩ :: loads)
      else .ok loads

/-- What the header says of the program headers: their offset, their size and their number. -/
def kexTable (cls : ElfClass) (order : ByteOrder) (data : Bytes) : Option (ℕ × ℕ × ℕ) :=
  (unpack cls.word data cls.phoffAt).bind fun offset =>
    (unpack 4 data cls.countsAt).map fun counts =>
      (field order cls.word offset 0, field order 2 counts 0, field order 2 counts 2)

/-- `loads`. -/
def segmentsIn (cls : ElfClass) (order : ByteOrder) (data : Bytes) :
    Except KexFault (List KexLoad) :=
  match kexTable cls order data with
  | none => .error .struct
  | some (phoff, phentsize, phnum) => kexLoads cls order data phoff phentsize (List.range phnum)

/-- `words`. -/
def wordsIn (cls : ElfClass) (order : ByteOrder) (data : Bytes) : List ℕ :=
  (List.range (data.length / cls.word)).map fun i => field order cls.word data (i * cls.word)

/-- Does a word of the file hold the address of what stands at `fo`? -/
def isReferenced (loads : List KexLoad) (words : List ℕ) (fo : ℕ) : Bool :=
  match loads.find? fun load => load.off ≤ fo ∧ fo < load.off + load.filesz with
  | none => false
  | some load => fo - load.off + load.vaddr ∈ words

/-- `referenced_kex_names`. -/
def referencedKexNames (data : Bytes) : Except KexFault (Option (List String)) :=
  match kexIdent data with
  | .error fault => .error fault
  | .ok none => .ok none
  | .ok (some (cls, order)) =>
      match segmentsIn cls order data with
      | .error .struct => .ok none
      | .error fault => .error fault
      | .ok [] => .ok none
      | .ok loads =>
          let found := (kexMethods data).filter fun entry =>
            isReferenced loads (wordsIn cls order data) entry.1
          .ok (some (found.map fun entry => String.ofList (charsOf entry.2)).dedup)

/-- `kex_names_in`. -/
def kexNamesIn (data : Bytes) : Except KexFault (List String) := do
  match ← referencedKexNames data with
  | some names => .ok names
  | none =>
      let raw := (kexStrings data).map fun name => String.ofList (charsOf name)
      .ok (raw.filter kexHint.search).dedup

/-- What `classify_ssh_kex` returns. -/
structure KexGroups where
  purePqc : List String
  hybrid : List String
  classical : List String

/-- `classify_ssh_kex`. -/
def classifySshKexes (kexes : List String) : KexGroups :=
  let bucket := fun cls => sortedBy id (kexes.filter fun kex => classifySshKex kex = cls).dedup
  ⟨bucket .purePqc, bucket .hybrid, bucket .classical⟩

/-- `recognised`, sorted. -/
def KexGroups.recognised (groups : KexGroups) : List String :=
  sortedBy id (groups.purePqc ++ groups.hybrid ++ groups.classical)

/-- The loop over the binaries: `found`. -/
def buildLoop (readBinary : String → Option Bytes) :
    List String → Except KexFault (List (String × List String))
  | [] => .ok []
  | path :: rest =>
      match readBinary path with
      | none => buildLoop readBinary rest
      | some data => do
          let names ← kexNamesIn data
          let recognised := (classifySshKexes names).recognised
          let found ← buildLoop readBinary rest
          .ok (if recognised = [] then found else (path, recognised) :: found)

/-- What `openssh_build_kex` returns. -/
structure KexBuild where
  binaries : List String
  kex : List String
  kexGroups : KexGroups

/-- `openssh_build_kex`; `readBinary` is `_read_binary`. -/
def opensshBuildKex (readBinary : String → Option Bytes) : Except KexFault (Option KexBuild) := do
  let found ← buildLoop readBinary opensshBinaries
  if found = [] then .ok none
  else
    let union := sortedBy id (found.flatMap Prod.snd).dedup
    .ok (some ⟨sortedBy id (found.map Prod.fst), union, classifySshKexes union⟩)

/-! ## What is raised -/

section Faults

variable {data : Bytes}

/-- The file ends where a byte of the identification is asked for. -/
def CutIdent (data : Bytes) : Prop :=
  data.take 4 = elfMagic ∧ (data.length = 4 ∨ data.length = 5 ∧ (data[4]? = some 1 ∨ data[4]? = some 2))

/-- The first program header that is not in the file stands beyond what an offset can be. -/
def FarHeader (cls : ElfClass) (order : ByteOrder) (data : Bytes) : Prop :=
  ∃ phoff phentsize phnum, kexTable cls order data = some (phoff, phentsize, phnum) ∧
    ∃ i < phnum, 2 ^ 63 ≤ phoff + i * phentsize ∧
      ∀ j < i, phoff + j * phentsize + cls.segmentSize ≤ data.length

/-- The same of a file, of the class and the byte order that it tells. -/
def FarTable (data : Bytes) : Prop :=
  ∃ cls order, kexIdent data = .ok (some (cls, order)) ∧ FarHeader cls order data

theorem kexIdent_error_iff {fault : KexFault} :
    kexIdent data = .error fault ↔ fault = .index ∧ CutIdent data := by
  rw [kexIdent, CutIdent]
  by_cases hmagic : data.take 4 = elfMagic
  · have hlength : 4 ≤ data.length := by
      have hfour := congrArg List.length hmagic
      rw [List.length_take] at hfour
      exact min_eq_left_iff.mp hfour
    rw [if_neg (not_not_intro hmagic)]
    rcases Nat.eq_or_lt_of_le hlength with hfour | hmore
    · rw [List.getElem?_eq_none (by omega : data.length ≤ 4)]
      simp [hmagic, ← hfour, eq_comm]
    · rw [List.getElem?_eq_getElem hmore]
      rcases Nat.eq_or_lt_of_le hmore with hfive | hlong
      · rw [List.getElem?_eq_none (by omega : data.length ≤ 5)]
        simp only [Option.some_inj]
        split
        · grind
        · grind
      · rw [List.getElem?_eq_getElem hlong]
        grind
  · rw [if_pos hmagic]
    simp [hmagic]

/-- The loop raises an `OverflowError` iff it comes to a header that stands too far off. -/
theorem kexLoads_overflow_iff (cls : ElfClass) (order : ByteOrder) (phoff phentsize first n : ℕ) :
    kexLoads cls order data phoff phentsize (List.range' first n) = .error .overflow ↔
      ∃ i < n, 2 ^ 63 ≤ phoff + (first + i) * phentsize ∧
        ∀ j < i, phoff + (first + j) * phentsize + cls.segmentSize ≤ data.length := by
  induction n generalizing first with
  | zero => simp [kexLoads]
  | succ n ih =>
      rw [List.range'_succ, kexLoads, unpackOffset]
      by_cases hfar : 2 ^ 63 ≤ phoff + first * phentsize
      · rw [if_pos hfar]
        exact iff_of_true rfl ⟨0, n.succ_pos, hfar, nofun⟩
      rw [if_neg hfar]
      by_cases hfits : phoff + first * phentsize + cls.segmentSize ≤ data.length
      · -- The header is read, and the rest of the loop decides.
        have hshift : ∀ k, first + (k + 1) = first + 1 + k := by omega
        have hrest : (∃ i < n + 1, 2 ^ 63 ≤ phoff + (first + i) * phentsize ∧
            ∀ j < i, phoff + (first + j) * phentsize + cls.segmentSize ≤ data.length) ↔
            ∃ i < n, 2 ^ 63 ≤ phoff + (first + 1 + i) * phentsize ∧
              ∀ j < i, phoff + (first + 1 + j) * phentsize + cls.segmentSize ≤ data.length := by
          constructor
          · rintro ⟨i, hi, hthere, hbefore⟩
            cases i with
            | zero => exact absurd hthere hfar
            | succ i =>
                refine ⟨i, by omega, by rwa [← hshift], fun j hj => ?_⟩
                rw [← hshift]
                exact hbefore (j + 1) (by omega)
          · rintro ⟨i, hi, hthere, hbefore⟩
            refine ⟨i + 1, by omega, by rwa [hshift], fun j hj => ?_⟩
            cases j with
            | zero => exact hfits
            | succ j =>
                rw [hshift]
                exact hbefore j (by omega)
        rw [unpack_of_le hfits, hrest, ← ih]
        cases kexLoads cls order data phoff phentsize (List.range' (first + 1) n) with
        | error fault => exact Iff.rfl
        | ok loads =>
            refine iff_of_false ?_ nofun
            show ¬ (if _ then _ else _) = _
            split <;> exact nofun
      · rw [unpack_of_lt (Nat.not_le.mp hfits)]
        refine iff_of_false nofun ?_
        rintro ⟨i, hi, hthere, hbefore⟩
        cases i with
        | zero => exact hfar hthere
        | succ i => exact hfits (hbefore 0 i.succ_pos)

/-- The loop never asks for a byte by its index. -/
theorem kexLoads_ne_index (cls : ElfClass) (order : ByteOrder) (phoff phentsize : ℕ)
    (indices : List ℕ) : kexLoads cls order data phoff phentsize indices ≠ .error .index := by
  induction indices with
  | nil => exact nofun
  | cons i indices ih =>
      rw [kexLoads]
      cases hentry : unpackOffset cls.segmentSize data (phoff + i * phentsize) with
      | error fault =>
          intro hfault
          cases hfault
          rw [unpackOffset] at hentry
          split at hentry
          · cases hentry
          · split at hentry <;> cases hentry
      | ok entry =>
          intro hfault
          cases hloads : kexLoads cls order data phoff phentsize indices with
          | error other =>
              rw [hloads] at hfault
              cases hfault
              exact ih hloads
          | ok loads =>
              rw [hloads] at hfault
              change (if _ then _ else _) = _ at hfault
              split at hfault <;> cases hfault

/-- What leaves the loop but `struct.error`. -/
theorem segmentsIn_error_iff {cls : ElfClass} {order : ByteOrder} {fault : KexFault}
    (hfault : fault ≠ .struct) :
    segmentsIn cls order data = .error fault ↔ fault = .overflow ∧ FarHeader cls order data := by
  rw [segmentsIn, FarHeader]
  cases htable : kexTable cls order data with
  | none =>
      refine iff_of_false ?_ ?_
      · rintro ⟨⟩
        exact hfault rfl
      · rintro ⟨-, _, _, _, ⟨⟩, -⟩
  | some table =>
      obtain ⟨phoff, phentsize, phnum⟩ := table
      have hloop := @kexLoads_overflow_iff data cls order phoff phentsize 0 phnum
      simp only [Nat.zero_add] at hloop
      rw [← List.range_eq_range'] at hloop
      cases fault with
      | struct => exact absurd rfl hfault
      | index =>
          refine iff_of_false ?_ nofun
          exact kexLoads_ne_index cls order phoff phentsize _
      | overflow =>
          dsimp only
          rw [hloop]
          constructor
          · intro hfar
            exact ⟨rfl, phoff, phentsize, phnum, rfl, hfar⟩
          · rintro ⟨-, _, _, _, ⟨⟩, hfar⟩
            exact hfar

/-- `referenced_kex_names` returns for every file but those. -/
theorem referencedKexNames_error_iff :
    (∃ fault, referencedKexNames data = .error fault) ↔ CutIdent data ∨ FarTable data := by
  rw [referencedKexNames]
  cases hident : kexIdent data with
  | error fault =>
      have hcut := (kexIdent_error_iff.mp hident).2
      exact iff_of_true ⟨fault, rfl⟩ (.inl hcut)
  | ok ident =>
      have hwhole : ¬ CutIdent data := by
        intro hcut
        have hraised := kexIdent_error_iff.mpr ⟨rfl, hcut⟩
        rw [hident] at hraised
        cases hraised
      -- Behind a whole identification only the program headers can raise.
      rw [or_iff_right hwhole]
      cases ident with
      | none =>
          refine iff_of_false nofun ?_
          rintro ⟨cls, order, hsome, -⟩
          rw [hident] at hsome
          cases hsome
      | some layout =>
          obtain ⟨cls, order⟩ := layout
          have htable : FarTable data ↔ FarHeader cls order data := by
            constructor
            · rintro ⟨_, _, hsome, hfar⟩
              rw [hident] at hsome
              cases hsome
              exact hfar
            · exact fun hfar => ⟨cls, order, hident, hfar⟩
          have hraised := @segmentsIn_error_iff data cls order .overflow nofun
          rw [htable]
          dsimp only
          cases hsegments : segmentsIn cls order data with
          | error fault =>
              rw [hsegments] at hraised
              cases fault with
              | struct =>
                  refine iff_of_false nofun fun hfar => ?_
                  cases hraised.mpr ⟨rfl, hfar⟩
              -- No offset of a header is an index.
              | index => cases (segmentsIn_error_iff (by exact nofun)).mp hsegments |>.1
              | overflow => exact iff_of_true ⟨_, rfl⟩ (hraised.mp rfl).2
          | ok loads =>
              rw [hsegments] at hraised
              refine iff_of_false ?_ fun hfar => ?_
              · cases loads <;> exact nofun
              · cases hraised.mpr ⟨rfl, hfar⟩

/-- `kex_names_in` returns where `referenced_kex_names` does. -/
theorem kexNamesIn_error_iff :
    (∃ fault, kexNamesIn data = .error fault) ↔ CutIdent data ∨ FarTable data := by
  rw [← referencedKexNames_error_iff, kexNamesIn]
  cases referencedKexNames data with
  | error fault => exact iff_of_true ⟨fault, rfl⟩ ⟨fault, rfl⟩
  | ok names => cases names <;> exact iff_of_false nofun nofun

/-- What the binaries say is found where `kex_names_in` returns for each. -/
theorem opensshBuildKex_error_iff (readBinary : String → Option Bytes) :
    (∃ fault, opensshBuildKex readBinary = .error fault) ↔
      ∃ path ∈ opensshBinaries, ∃ data, readBinary path = some data ∧
        (CutIdent data ∨ FarTable data) := by
  have hloop : ∀ paths, (∃ fault, buildLoop readBinary paths = .error fault) ↔
      ∃ path ∈ paths, ∃ data, readBinary path = some data ∧ (CutIdent data ∨ FarTable data) := by
    intro paths
    induction paths with
    | nil => exact iff_of_false nofun (by simp)
    | cons path paths ih =>
        rw [List.exists_mem_cons_iff, ← ih, buildLoop]
        cases hread : readBinary path with
        | none => simp
        | some data =>
            simp only [Option.some.injEq, exists_eq_left']
            rw [← kexNamesIn_error_iff]
            cases kexNamesIn data with
            | error fault => exact iff_of_true ⟨fault, rfl⟩ (.inl ⟨fault, rfl⟩)
            | ok names =>
                rw [or_iff_right (by exact nofun)]
                cases buildLoop readBinary paths with
                | error fault => exact Iff.rfl
                | ok found => exact iff_of_false nofun nofun
  rw [← hloop, opensshBuildKex]
  cases buildLoop readBinary opensshBinaries with
  | error fault => exact iff_of_true ⟨fault, rfl⟩ ⟨fault, rfl⟩
  | ok found =>
      refine iff_of_false ?_ nofun
      show ¬ ∃ fault, (if found = [] then _ else _) = _
      split <;> exact nofun

/-- No reader of executables lets an exception out that its callers do not handle, and what reads the
OpenSSH binaries returns where each of them is this file. -/
structure Survives (file : ElfFile) : Prop where
  info : ∀ fault, elfInfo file = .error fault → fault.handled = true
  dynamic : ∀ fault, elfDynamic file = .error fault → fault.handled = true
  analyzed : ∃ found, analyzeExecutable file = .ok found
  referenced : ∃ names, referencedKexNames file.data = .ok names
  names : ∃ names, kexNamesIn file.data = .ok names
  build : ∀ readBinary : String → Option Bytes,
    (∀ path data, readBinary path = some data → data = file.data) →
      ∃ found, opensshBuildKex readBinary = .ok found

theorem exists_ok_iff {ε α : Type} {run : Except ε α} :
    (∃ value, run = .ok value) ↔ ¬ ∃ fault, run = .error fault := by
  cases run with
  | error fault => exact iff_of_false nofun fun hnone => hnone ⟨fault, rfl⟩
  | ok value => exact iff_of_true ⟨value, rfl⟩ nofun

theorem handled_iff {α : Type} {run : Except ElfFault α} :
    (∀ fault, run = .error fault → fault.handled = true) ↔
      ¬ ∃ fault, run = .error fault ∧ fault.handled = false := by
  simp only [not_exists, not_and, Bool.not_eq_false]

/-- **A malformed executable aborts nothing,** exactly unless it is the magic bytes with at most one
byte behind them, or a program header of it stands beyond what an offset can be. -/
theorem survives_iff (file : ElfFile) :
    Survives file ↔
      ¬ (file.data.take 4 = elfMagic ∧ file.data.length < 6) ∧ ¬ FarTable file.data := by
  have hcut : CutIdent file.data → file.data.take 4 = elfMagic ∧ file.data.length < 6 := by
    intro hcut
    exact ⟨hcut.1, by have hlength := hcut.2; omega⟩
  constructor
  · intro hsurvives
    constructor
    · rw [← elfInfo_escapes_iff]
      exact handled_iff.mp hsurvives.info
    · intro hfar
      exact exists_ok_iff.mp hsurvives.referenced (referencedKexNames_error_iff.mpr (.inr hfar))
  · intro ⟨hwhole, hnear⟩
    have hreads : ¬ (CutIdent file.data ∨ FarTable file.data) :=
      not_or.mpr ⟨mt hcut hwhole, hnear⟩
    constructor
    · exact handled_iff.mpr (mt elfInfo_escapes_iff.mp hwhole)
    · exact handled_iff.mpr (mt elfDynamic_escapes_iff.mp hwhole)
    · exact exists_ok_iff.mpr (mt analyzeExecutable_error_iff.mp hwhole)
    · exact exists_ok_iff.mpr (mt referencedKexNames_error_iff.mp hreads)
    · exact exists_ok_iff.mpr (mt kexNamesIn_error_iff.mp hreads)
    · intro readBinary hsame
      apply exists_ok_iff.mpr
      rw [opensshBuildKex_error_iff]
      rintro ⟨path, -, data, hread, hraises⟩
      rw [hsame path data hread] at hraises
      exact hreads hraises

/-- The magic bytes alone. -/
def magicOnly : ElfFile := ⟨elfMagic, 2 ^ 62, by decide⟩

/-- A header of 64 bytes with one program header, at 2 ^ 63. -/
def farFile : ElfFile :=
  ⟨elfMagic ++ [2, 1] ++ List.replicate 33 0 ++ [0x80] ++ List.replicate 16 0 ++ [1, 0] ++
    List.replicate 6 0, 2 ^ 62, by decide⟩

/-- The one stops each reader, the other the reader of the OpenSSH binaries. -/
theorem magicOnly_aborts : ¬ Survives magicOnly ∧
    referencedKexNames farFile.data = .error .overflow ∧ ¬ Survives farFile := by
  have hmagic : ¬ Survives magicOnly := by
    intro hsurvives
    exact exists_ok_iff.mp hsurvives.analyzed (analyzeExecutable_error_iff.mpr (by decide))
  have hfar : referencedKexNames farFile.data = .error .overflow := by decide +kernel
  refine ⟨hmagic, hfar, fun hsurvives => ?_⟩
  exact exists_ok_iff.mp hsurvives.referenced ⟨_, hfar⟩

end Faults

end PqcReadiness.Runtime
