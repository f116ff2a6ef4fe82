import Mathlib.Data.List.Infix
import Mathlib.Data.List.Nodup
import PqcReadiness.Lib.Folder

/-!
# Replacing the output file

`_write_atomically` writes a temporary file beside the output file and renames it over it, so that
whoever reads the output file never sees a half-written report.  Here any number of writers replace
one file, each with its own report, while any number of readers read it, and the steps of all of
them come in any order.  A writer can fail at any call, can be interrupted between any two calls,
and can be killed; `Act.fail` is the exception, which reaches `except BaseException` from inside the
`try` block only.  The writers have one umask.

`World.step` is one call of one of them.  `Sound` is what every step keeps.
-/

namespace PqcReadiness.Output

open PqcReadiness.Lib

/-! ## The code -/

/-- Where a writer is.  The name is that of its temporary file, the number that of the open file. -/
inductive Phase
  /-- Before `path.stat()`. -/
  | start
  /-- Before `tempfile.mkstemp`. -/
  | making (mode : BitVec 12)
  /-- Between `tempfile.mkstemp` and the `try` block. -/
  | made (mode : BitVec 12) (tmp : String) (file : ℕ)
  /-- In `fh.write(data)`. -/
  | writing (mode : BitVec 12) (tmp : String) (file : ℕ)
  /-- Before `os.chmod`. -/
  | closed (mode : BitVec 12) (tmp : String) (file : ℕ)
  /-- Before `os.replace`. -/
  | modeSet (tmp : String) (file : ℕ)
  /-- Before the end of the `try` block. -/
  | replaced (tmp : String)
  /-- Before `os.unlink`. -/
  | cleaning (tmp : String)
  | returned (tmp : String)
  /-- The exception goes on; the temporary file is still there if it could not be removed, or if
  the `try` block had not begun. -/
  | raised (left : Option String)
  | killed (left : Option String)
  deriving DecidableEq

/-- The temporary name that a writer has been given. -/
def Phase.temp : Phase → Option String
  | .start | .making _ => none
  | .made _ tmp _ | .writing _ tmp _ | .closed _ tmp _ | .modeSet tmp _ => some tmp
  | .replaced tmp | .cleaning tmp | .returned tmp => some tmp
  | .raised left | .killed left => left

/-- The temporary file that a writer still has, and its name. -/
def Phase.file : Phase → Option (String × ℕ)
  | .made _ tmp file | .writing _ tmp file | .closed _ tmp file | .modeSet tmp file =>
      some (tmp, file)
  | _ => none

/-- The name that a writer may have left behind. -/
def Phase.litter : Phase → Option String
  | .made _ tmp _ | .writing _ tmp _ | .closed _ tmp _ | .modeSet tmp _ => some tmp
  | .cleaning tmp => some tmp
  | .raised left | .killed left => left
  | _ => none

/-- What a writer or a reader does next. -/
inductive Act (ι κ : Type*)
  | stat (w : ι)
  | create (w : ι) (tmp : String)
  | enter (w : ι)
  | write (w : ι) (bytes : List UInt8)
  | close (w : ι)
  | chmod (w : ι)
  | replace (w : ι)
  | leave (w : ι)
  | fail (w : ι)
  | unlink (w : ι) (done : Bool)
  | kill (w : ι)
  | openFile (r : κ)
  | read (r : κ) (n : ℕ)

/-- A directory, the writers and the readers of one of its files.  `used` are the names that
`mkstemp` has given, `installed` the writers whose rename took effect, in order. -/
structure World (ι κ : Type*) where
  folder : Folder
  phase : ι → Phase
  reader : κ → Option (ℕ × List UInt8)
  used : List String
  installed : List ι

/-- The form of the names that `mkstemp` gives beside a path. -/
def isTemp (path tmp : String) : Bool :=
  ('.' :: path.toList ++ ['.']).isPrefixOf tmp.toList && ".tmp".toList.isSuffixOf tmp.toList

/-- `0o666 & ~umask`. -/
def defaultMode (umask : BitVec 12) : BitVec 12 := 0o666 &&& ~~~umask

/-- The mode for the new file: that of the old one, if there is one. -/
def modeFor (umask : BitVec 12) (old : Option Inode) : BitVec 12 :=
  match old with
  | some file => file.mode &&& 0o777
  | none => defaultMode umask

section Code

variable {ι κ : Type*} [DecidableEq ι] [DecidableEq κ]

/-- A writer goes on to another phase. -/
def World.move (s : World ι κ) (w : ι) (phase : Phase) : World ι κ :=
  { s with phase := Function.update s.phase w phase }

variable (path : String) (umask : BitVec 12) (data : ι → List UInt8)

/-- One call of one of the writers or readers; nothing is a call that it does not make here. -/
def World.step (s : World ι κ) : Act ι κ → Option (World ι κ)
  | .stat w =>
      match s.phase w with
      | .start => some (s.move w (.making (modeFor umask (s.folder.file? path))))
      | _ => none
  | .create w tmp =>
      match s.phase w with
      | .making mode =>
          -- The name does not exist, and is not one that was given before: names are random.
          if isTemp path tmp ∧ s.folder.names tmp = none ∧ tmp ∉ s.used then
            some { s.move w (.made mode tmp s.folder.count) with
              folder := s.folder.create tmp (0o600 &&& ~~~umask)
              used := s.used ++ [tmp] }
          else none
      | _ => none
  | .enter w =>
      match s.phase w with
      | .made mode tmp file => some (s.move w (.writing mode tmp file))
      | _ => none
  | .write w bytes =>
      match s.phase w with
      | .writing _ _ file =>
          if (s.folder.files file).content ++ bytes <+: data w then
            some { s with folder := s.folder.append file bytes }
          else none
      | _ => none
  | .close w =>
      match s.phase w with
      | .writing mode tmp file =>
          if (s.folder.files file).content = data w then some (s.move w (.closed mode tmp file))
          else none
      | _ => none
  | .chmod w =>
      match s.phase w with
      | .closed mode tmp file =>
          match s.folder.names tmp with
          | some i => some { s.move w (.modeSet tmp file) with folder := s.folder.setMode i mode }
          | none => none
      | _ => none
  | .replace w =>
      match s.phase w with
      | .modeSet tmp _ =>
          match s.folder.names tmp with
          | some _ => some { s.move w (.replaced tmp) with
              folder := s.folder.rename tmp path
              installed := s.installed ++ [w] }
          | none => none
      | _ => none
  | .leave w =>
      match s.phase w with
      | .replaced tmp => some (s.move w (.returned tmp))
      | _ => none
  | .fail w =>
      match s.phase w with
      | .start | .making _ => some (s.move w (.raised none))
      -- The `try` block has not begun, so that nothing removes the file.
      | .made _ tmp _ => some (s.move w (.raised (some tmp)))
      | .writing _ tmp _ | .closed _ tmp _ | .modeSet tmp _ | .replaced tmp =>
          some (s.move w (.cleaning tmp))
      | _ => none
  | .unlink w done =>
      match s.phase w with
      | .cleaning tmp =>
          if done then some { s.move w (.raised none) with folder := s.folder.remove tmp }
          else some (s.move w (.raised (some tmp)))
      | _ => none
  | .kill w =>
      match s.phase w with
      | .returned _ | .raised _ | .killed _ => none
      | phase => some (s.move w (.killed phase.temp))
  | .openFile r =>
      match s.folder.names path with
      | some i => some { s with reader := Function.update s.reader r (some (i, [])) }
      | none => none
  | .read r n =>
      match s.reader r with
      | some (i, got) =>
          let more := ((s.folder.files i).content.drop got.length).take n
          some { s with reader := Function.update s.reader r (some (i, got ++ more)) }
      | none => none

/-- Several calls, one after the other. -/
def World.run (s : World ι κ) : List (Act ι κ) → Option (World ι κ)
  | [] => some s
  | act :: acts => (s.step path umask data act).bind fun next => next.run acts

end Code

/-! ## What every step keeps -/

/-- The mode of a writer's new file. -/
def Phase.mode : Phase → Option (BitVec 12)
  | .making mode | .made mode _ _ | .writing mode _ _ | .closed mode _ _ => some mode
  | _ => none

/-- Before the rename. -/
def Phase.early : Phase → Bool
  | .start | .making _ | .made _ _ _ | .writing _ _ _ | .closed _ _ _ | .modeSet _ _ => true
  | _ => false

/-- After the rename, without an exception. -/
def Phase.through : Phase → Bool
  | .replaced _ | .returned _ => true
  | _ => false

theorem Phase.temp_of_litter {phase : Phase} {name : String} (hlitter : phase.litter = some name) :
    phase.temp = some name := by
  cases phase <;> first | exact hlitter | cases hlitter

/-- A writer has its temporary file until it renames it. -/
theorem Phase.of_file {phase : Phase} {tmp : String} {i : ℕ} (hfile : phase.file = some (tmp, i)) :
    phase.temp = some tmp ∧ phase.litter = some tmp ∧ phase.early = true ∧
      phase.through = false := by
  cases phase <;> cases hfile <;> exact ⟨rfl, rfl, rfl, rfl⟩

theorem ne_of_isTemp {path tmp : String} (htemp : isTemp path tmp) : tmp ≠ path := by
  rintro rfl
  rw [isTemp, Bool.and_eq_true, List.isPrefixOf_iff_prefix] at htemp
  have hlength := htemp.1.length_le
  rw [List.length_append, List.length_cons, List.length_singleton] at hlength
  omega

theorem modeFor_modeFor (umask : BitVec 12) (old : Option Inode) (content : List UInt8) :
    modeFor umask (some ⟨content, modeFor umask old⟩) = modeFor umask old := by
  cases old with
  | none =>
      have hbits : (0o666 : BitVec 12) &&& 0o777 = 0o666 := by decide
      rw [modeFor, modeFor, defaultMode]
      calc (0o666 &&& ~~~umask) &&& 0o777
          = (0o666 &&& 0o777) &&& ~~~umask := by
            rw [BitVec.and_assoc, BitVec.and_comm (~~~umask), ← BitVec.and_assoc]
        _ = 0o666 &&& ~~~umask := by rw [hbits]
  | some file =>
      rw [modeFor, modeFor]
      dsimp only
      rw [BitVec.and_assoc, BitVec.and_self]

section Sound

variable {ι κ : Type*}

/-- The directory before any writer or reader has done anything. -/
structure Start (s : World ι κ) : Prop where
  closed : s.folder.Closed
  phase : ∀ w, s.phase w = .start
  reader : ∀ r, s.reader r = none
  used : s.used = []
  installed : s.installed = []

variable (path : String) (umask : BitVec 12) (data : ι → List UInt8) (first : World ι κ)

/-- The mode that the output file has for good. -/
def keptMode : BitVec 12 := modeFor umask (first.folder.file? path)

/-- A file that has been the output file: that of the beginning, or a complete report. -/
def Whole (s : World ι κ) (i : ℕ) : Prop :=
  first.folder.names path = some i ∨ first.folder.count ≤ i ∧
    ∃ w ∈ s.installed, s.folder.files i = ⟨data w, keptMode path umask first⟩

/-- What holds in every state that the world comes to from its first. -/
structure Sound (s : World ι κ) : Prop where
  count : first.folder.count ≤ s.folder.count
  closed : s.folder.Closed
  old : ∀ i < first.folder.count, s.folder.files i = first.folder.files i
  used : ∀ name ∈ s.used, isTemp path name ∧ first.folder.names name = none
  frame : ∀ name, name ≠ path → name ∉ s.used → s.folder.names name = first.folder.names name
  temp : ∀ w tmp, (s.phase w).temp = some tmp → tmp ∈ s.used
  apart : ∀ w w' tmp, (s.phase w).temp = some tmp → (s.phase w').temp = some tmp → w = w'
  own : ∀ w tmp i, (s.phase w).file = some (tmp, i) →
    s.folder.names tmp = some i ∧ first.folder.count ≤ i
  alone : ∀ w w' tmp tmp' i, (s.phase w).file = some (tmp, i) →
    (s.phase w').file = some (tmp', i) → w = w'
  unseen : ∀ w tmp i, (s.phase w).file = some (tmp, i) →
    s.folder.names path ≠ some i ∧ ∀ r got, s.reader r ≠ some (i, got)
  mode : ∀ w mode, (s.phase w).mode = some mode → mode = keptMode path umask first
  full : ∀ w mode tmp i, s.phase w = .closed mode tmp i → (s.folder.files i).content = data w
  ready : ∀ w tmp i, s.phase w = .modeSet tmp i →
    s.folder.files i = ⟨data w, keptMode path umask first⟩
  output : match s.installed.getLast? with
    | none => s.folder.names path = first.folder.names path
    | some w => ∃ i, s.folder.names path = some i ∧ first.folder.count ≤ i ∧
        s.folder.files i = ⟨data w, keptMode path umask first⟩
  reader : ∀ r i got, s.reader r = some (i, got) →
    i < s.folder.count ∧ Whole path umask data first s i ∧ got <+: (s.folder.files i).content
  ended : ∀ w ∈ s.installed, (s.phase w).early = false
  nodup : s.installed.Nodup
  through : ∀ w, (s.phase w).through → w ∈ s.installed
  litter : ∀ name ∈ s.used, s.folder.names name ≠ none → ∃ w, (s.phase w).litter = some name

variable {path umask data first} {s : World ι κ}

theorem Start.sound (hstart : Start first) : Sound path umask data first first where
  count := Nat.le_refl _
  closed := hstart.closed
  old _ _ := rfl
  used name hname := by
    rw [hstart.used] at hname
    cases hname
  frame _ _ _ := rfl
  temp w tmp htemp := by
    rw [hstart.phase] at htemp
    cases htemp
  apart w w' tmp htemp := by
    rw [hstart.phase] at htemp
    cases htemp
  own w tmp i hfile := by
    rw [hstart.phase] at hfile
    cases hfile
  alone w w' tmp tmp' i hfile := by
    rw [hstart.phase] at hfile
    cases hfile
  unseen w tmp i hfile := by
    rw [hstart.phase] at hfile
    cases hfile
  mode w mode hmode := by
    rw [hstart.phase] at hmode
    cases hmode
  full w mode tmp i hphase := by
    rw [hstart.phase] at hphase
    cases hphase
  ready w tmp i hphase := by
    rw [hstart.phase] at hphase
    cases hphase
  output := by
    rw [hstart.installed]
    rfl
  reader r i got hreader := by
    rw [hstart.reader] at hreader
    cases hreader
  ended w hw := by
    rw [hstart.installed] at hw
    cases hw
  nodup := by
    rw [hstart.installed]
    exact List.nodup_nil
  through w hthrough := by
    rw [hstart.phase] at hthrough
    cases hthrough
  litter name hname := by
    rw [hstart.used] at hname
    cases hname

/-- What stands under the output path: what stood there in the beginning, or the report of the last
writer whose rename took effect. -/
theorem Sound.file?_output (hfirst : first.folder.Closed) (h : Sound path umask data first s) :
    s.folder.file? path =
      match s.installed.getLast? with
      | none => first.folder.file? path
      | some w => some ⟨data w, keptMode path umask first⟩ := by
  have houtput := h.output
  cases hlast : s.installed.getLast? with
  | none =>
      rw [hlast] at houtput
      dsimp only at houtput ⊢
      rw [Folder.file?, Folder.file?, houtput]
      cases hname : first.folder.names path with
      | none => rfl
      | some i => exact congrArg some (h.old i (hfirst path i hname))
  | some w =>
      rw [hlast] at houtput
      obtain ⟨i, hi, -, hfile⟩ := houtput
      dsimp only
      rw [Folder.file?, hi]
      exact congrArg some hfile

/-- The mode that a writer reads is the same whenever it reads it. -/
theorem Sound.modeFor_output (hfirst : first.folder.Closed) (h : Sound path umask data first s) :
    modeFor umask (s.folder.file? path) = keptMode path umask first := by
  rw [h.file?_output hfirst]
  cases s.installed.getLast? with
  | none => rfl
  | some w => exact modeFor_modeFor umask _ _

theorem Sound.openFile [DecidableEq κ] (h : Sound path umask data first s) {i : ℕ}
    (hi : s.folder.names path = some i) (r : κ) :
    Sound path umask data first
      { s with reader := Function.update s.reader r (some (i, [])) } := by
  have hreader : ∀ r', Function.update s.reader r (some (i, [])) r' =
      if r' = r then some (i, []) else s.reader r' := fun r' => Function.update_apply ..
  have hwhole : Whole path umask data first s i := by
    have houtput := h.output
    split at houtput
    · exact .inl (houtput ▸ hi)
    · next w hlast =>
        obtain ⟨j, hj, hlater, hfile⟩ := houtput
        obtain rfl := Option.some.inj (hi.symm.trans hj)
        exact .inr ⟨hlater, w, List.mem_of_getLast? hlast, hfile⟩
  refine ⟨h.count, h.closed, h.old, h.used, h.frame, h.temp, h.apart, h.own, h.alone, ?_, h.mode,
    h.full, h.ready, h.output, ?_, h.ended, h.nodup, h.through, h.litter⟩
  · intro w tmp j hw
    obtain ⟨hname, hreaders⟩ := h.unseen w tmp j hw
    refine ⟨hname, fun r' got hr' => ?_⟩
    dsimp only at hr'
    rw [hreader] at hr'
    split at hr'
    · obtain ⟨rfl, -⟩ := Prod.mk.inj (Option.some.inj hr')
      exact hname hi
    · exact hreaders r' got hr'
  · intro r' j got hr'
    dsimp only at hr'
    rw [hreader] at hr'
    split at hr'
    · obtain ⟨rfl, rfl⟩ := Prod.mk.inj (Option.some.inj hr')
      exact ⟨h.closed path _ hi, hwhole, List.nil_prefix⟩
    · exact h.reader r' j got hr'

theorem Sound.read [DecidableEq κ] (h : Sound path umask data first s) {r : κ} {i : ℕ}
    {got : List UInt8} (hr : s.reader r = some (i, got)) (n : ℕ) :
    Sound path umask data first { s with
      reader := Function.update s.reader r
        (some (i, got ++ ((s.folder.files i).content.drop got.length).take n)) } := by
  have hreader : ∀ r', Function.update s.reader r
      (some (i, got ++ ((s.folder.files i).content.drop got.length).take n)) r' =
        if r' = r then some (i, got ++ ((s.folder.files i).content.drop got.length).take n)
        else s.reader r' := fun r' => Function.update_apply ..
  refine ⟨h.count, h.closed, h.old, h.used, h.frame, h.temp, h.apart, h.own, h.alone, ?_, h.mode,
    h.full, h.ready, h.output, ?_, h.ended, h.nodup, h.through, h.litter⟩
  · intro w tmp j hw
    obtain ⟨hname, hreaders⟩ := h.unseen w tmp j hw
    refine ⟨hname, fun r' got' hr' => ?_⟩
    dsimp only at hr'
    rw [hreader] at hr'
    split at hr'
    · obtain ⟨rfl, -⟩ := Prod.mk.inj (Option.some.inj hr')
      exact hreaders r got hr
    · exact hreaders r' got' hr'
  · intro r' j got' hr'
    dsimp only at hr'
    rw [hreader] at hr'
    split at hr'
    · obtain ⟨rfl, rfl⟩ := Prod.mk.inj (Option.some.inj hr')
      obtain ⟨hbound, hwhole, rest, hrest⟩ := h.reader r _ got hr
      refine ⟨hbound, hwhole, rest.drop n, ?_⟩
      dsimp only
      rw [← hrest, List.drop_left, List.append_assoc, List.take_append_drop]
    · exact h.reader r' j got' hr'

variable [DecidableEq ι]

/-- A writer goes on, and the files and names stay as they are. -/
theorem Sound.move (h : Sound path umask data first s) (w : ι) (phase : Phase)
    (htemp : ∀ tmp, phase.temp = some tmp → (s.phase w).temp = some tmp)
    (hfile : ∀ file, phase.file = some file → (s.phase w).file = some file)
    (hmode : ∀ mode, phase.mode = some mode → mode = keptMode path umask first)
    (hfull : ∀ mode tmp i, phase = .closed mode tmp i → (s.folder.files i).content = data w)
    (hready : ∀ tmp i, phase = .modeSet tmp i →
      s.folder.files i = ⟨data w, keptMode path umask first⟩)
    (hearly : phase.early → (s.phase w).early)
    (hthrough : phase.through → w ∈ s.installed)
    (hlitter : ∀ name ∈ s.used, s.folder.names name ≠ none → (s.phase w).litter = some name →
      phase.litter = some name) :
    Sound path umask data first (s.move w phase) := by
  have hphase : ∀ w', (s.move w phase).phase w' = if w' = w then phase else s.phase w' :=
    fun w' => Function.update_apply ..
  -- The names and files that the writers hold are among those that they held.
  have htemps : ∀ w' tmp, ((s.move w phase).phase w').temp = some tmp →
      (s.phase w').temp = some tmp := by
    intro w' tmp hw'
    rw [hphase] at hw'
    split at hw'
    · next heq => exact heq ▸ htemp tmp hw'
    · exact hw'
  have hfiles : ∀ w' file, ((s.move w phase).phase w').file = some file →
      (s.phase w').file = some file := by
    intro w' file hw'
    rw [hphase] at hw'
    split at hw'
    · next heq => exact heq ▸ hfile file hw'
    · exact hw'
  refine ⟨h.count, h.closed, h.old, h.used, h.frame,
    fun w' tmp hw' => h.temp w' tmp (htemps _ _ hw'),
    fun w' w'' tmp hw' hw'' => h.apart w' w'' tmp (htemps _ _ hw') (htemps _ _ hw''),
    fun w' tmp i hw' => h.own w' tmp i (hfiles _ _ hw'),
    fun w' w'' tmp tmp' i hw' hw'' => h.alone w' w'' tmp tmp' i (hfiles _ _ hw') (hfiles _ _ hw''),
    fun w' tmp i hw' => h.unseen w' tmp i (hfiles _ _ hw'), ?_, ?_, ?_, h.output, h.reader, ?_,
    h.nodup, ?_, ?_⟩
  · intro w' mode hw'
    rw [hphase] at hw'
    split at hw'
    · exact hmode mode hw'
    · exact h.mode w' mode hw'
  · intro w' mode tmp i hw'
    rw [hphase] at hw'
    split at hw'
    · next heq => exact heq ▸ hfull mode tmp i hw'
    · exact h.full w' mode tmp i hw'
  · intro w' tmp i hw'
    rw [hphase] at hw'
    split at hw'
    · next heq => exact heq ▸ hready tmp i hw'
    · exact h.ready w' tmp i hw'
  · intro w' hw'
    have hover := h.ended w' hw'
    rw [hphase]
    split
    · next heq =>
        rw [Bool.eq_false_iff]
        intro hnow
        rw [heq, hearly hnow] at hover
        cases hover
    · exact hover
  · intro w' hw'
    rw [hphase] at hw'
    split at hw'
    · next heq => exact heq ▸ hthrough hw'
    · exact h.through w' hw'
  · intro name hname hsome
    obtain ⟨w', hw'⟩ := h.litter name hname hsome
    refine ⟨w', ?_⟩
    rw [hphase]
    split
    · next heq => exact hlitter name hname hsome (heq ▸ hw')
    · exact hw'

/-- A writer goes on with its file. -/
theorem Sound.hold (h : Sound path umask data first s) {w : ι} {tmp : String} {i : ℕ}
    {phase : Phase} (hw : (s.phase w).file = some (tmp, i)) (hphase : phase.file = some (tmp, i))
    (hmode : ∀ mode, phase.mode = some mode → (s.phase w).mode = some mode)
    (hfull : ∀ mode tmp i, phase = .closed mode tmp i → (s.folder.files i).content = data w)
    (hready : ∀ tmp i, phase = .modeSet tmp i →
      s.folder.files i = ⟨data w, keptMode path umask first⟩) :
    Sound path umask data first (s.move w phase) := by
  obtain ⟨htemp, hlitter, hearly, -⟩ := Phase.of_file hw
  obtain ⟨htemp', hlitter', -, hthrough'⟩ := Phase.of_file hphase
  refine h.move w phase ?_ ?_ ?_ hfull hready (fun _ => hearly) ?_ ?_
  · intro other hother
    rw [htemp, ← htemp']
    exact hother
  · intro file hfile
    rw [hw, ← hphase]
    exact hfile
  · exact fun mode hsome => h.mode w mode (hmode mode hsome)
  · intro hthrough
    rw [hthrough'] at hthrough
    cases hthrough
  · intro name _ _ hname
    rw [hlitter', ← hlitter]
    exact hname

/-- A writer goes on to a phase in which it is over with its file. -/
theorem Sound.rest (h : Sound path umask data first s) {w : ι} {phase : Phase}
    (hfile : phase.file = none) (hmode : phase.mode = none) (hearly : phase.early = false)
    (htemp : ∀ tmp, phase.temp = some tmp → (s.phase w).temp = some tmp)
    (hthrough : phase.through → w ∈ s.installed)
    (hlitter : ∀ name, (s.phase w).litter = some name → phase.litter = some name) :
    Sound path umask data first (s.move w phase) := by
  refine h.move w phase htemp ?_ ?_ ?_ ?_ ?_ hthrough fun name _ _ => hlitter name
  · intro file hsome
    rw [hfile] at hsome
    cases hsome
  · intro mode hsome
    rw [hmode] at hsome
    cases hsome
  · intro mode tmp i hphase
    rw [hphase] at hfile
    cases hfile
  · intro tmp i hphase
    rw [hphase] at hfile
    cases hfile
  · intro hbefore
    rw [hearly] at hbefore
    cases hbefore

/-- A writer that has made no file ends with an exception. -/
theorem Sound.raise (h : Sound path umask data first s) {w : ι} (hnone : (s.phase w).litter = none) :
    Sound path umask data first (s.move w (.raised none)) := by
  refine h.rest rfl rfl rfl (fun _ htemp => by cases htemp) (fun hthrough => by cases hthrough) ?_
  intro name hlitter
  rw [hnone] at hlitter
  cases hlitter

omit [DecidableEq ι] in
/-- What a phase has left behind is the temporary file of its writer. -/
theorem litter_of_temp {w : ι} {tmp : String} (htemp : (s.phase w).temp = some tmp) :
    ∀ name, (s.phase w).litter = some name → some tmp = some name := by
  intro name hlitter
  rw [← htemp]
  exact Phase.temp_of_litter hlitter

/-- A writer ends with an exception, and its temporary file stays. -/
theorem Sound.abandon (h : Sound path umask data first s) {w : ι} {tmp : String}
    (htemp : (s.phase w).temp = some tmp) :
    Sound path umask data first (s.move w (.raised (some tmp))) := by
  refine h.rest rfl rfl rfl ?_ (fun hthrough => by cases hthrough) (litter_of_temp htemp)
  intro other hother
  rw [htemp]
  exact hother

/-- A writer is to remove its temporary file. -/
theorem Sound.clean (h : Sound path umask data first s) {w : ι} {tmp : String}
    (htemp : (s.phase w).temp = some tmp) :
    Sound path umask data first (s.move w (.cleaning tmp)) := by
  refine h.rest rfl rfl rfl ?_ (fun hthrough => by cases hthrough) (litter_of_temp htemp)
  intro other hother
  rw [htemp]
  exact hother

/-- A writer is killed. -/
theorem Sound.kill (h : Sound path umask data first s) (w : ι) :
    Sound path umask data first (s.move w (.killed (s.phase w).temp)) := by
  refine h.rest rfl rfl rfl (fun _ htemp => htemp) (fun hthrough => by cases hthrough) ?_
  intro name hlitter
  exact Phase.temp_of_litter hlitter

/-- A writer changes its own temporary file. -/
theorem Sound.touch (h : Sound path umask data first s) {w : ι} {tmp : String} {i : ℕ}
    (hw : (s.phase w).file = some (tmp, i)) (hearly : ∀ tmp' j, s.phase w ≠ .modeSet tmp' j)
    {folder : Folder} (hnames : folder.names = s.folder.names)
    (hcount : folder.count = s.folder.count) (hfiles : ∀ j ≠ i, folder.files j = s.folder.files j)
    (hfull : ∀ mode tmp' j, s.phase w = .closed mode tmp' j →
      (folder.files i).content = (s.folder.files i).content) :
    Sound path umask data first { s with folder := folder } := by
  obtain ⟨hown, hlater⟩ := h.own w tmp i hw
  obtain ⟨hpath, hreaders⟩ := h.unseen w tmp i hw
  -- Only the writer itself has the file open.
  have hother : ∀ w' tmp' j, (s.phase w').file = some (tmp', j) → w' ≠ w → j ≠ i := by
    rintro w' tmp' j hw' hne rfl
    exact hne (h.alone w' w tmp' tmp j hw' hw)
  have hself : ∀ tmp' j, (s.phase w).file = some (tmp', j) → j = i := by
    intro tmp' j hj
    rw [hw] at hj
    exact (congrArg Prod.snd (Option.some.inj hj)).symm
  refine ⟨hcount ▸ h.count, ?_, ?_, h.used, hnames ▸ h.frame, h.temp, h.apart, hnames ▸ h.own,
    h.alone, hnames ▸ h.unseen, h.mode, ?_, ?_, ?_, ?_, h.ended, h.nodup, h.through,
    hnames ▸ h.litter⟩
  · intro name j hname
    rw [hcount]
    exact h.closed name j (hnames ▸ hname)
  · intro j hj
    rw [hfiles j (by omega)]
    exact h.old j hj
  · intro w' mode tmp' j hw'
    by_cases hsame : w' = w
    · subst hsame
      have hj := hself tmp' j (by rw [hw']; rfl)
      subst hj
      exact (hfull mode tmp' j hw').trans (h.full w' mode tmp' j hw')
    · rw [hfiles j (hother w' tmp' j (by rw [hw']; rfl) hsame)]
      exact h.full w' mode tmp' j hw'
  · intro w' tmp' j hw'
    by_cases hsame : w' = w
    · subst hsame
      exact absurd hw' (hearly tmp' j)
    · rw [hfiles j (hother w' tmp' j (by rw [hw']; rfl) hsame)]
      exact h.ready w' tmp' j hw'
  · have houtput := h.output
    split at houtput
    · next hlast =>
        simp only [hlast]
        rw [hnames]
        exact houtput
    · next w' hlast =>
        obtain ⟨j, hj, hlater', hfile⟩ := houtput
        simp only [hlast]
        refine ⟨j, by rw [hnames]; exact hj, hlater', ?_⟩
        rw [hfiles j (by rintro rfl; exact hpath hj)]
        exact hfile
  · intro r j got hr
    obtain ⟨hbound, hwhole, hgot⟩ := h.reader r j got hr
    have hne : j ≠ i := by
      rintro rfl
      exact hreaders r got hr
    dsimp only
    rw [hcount, hfiles j hne]
    refine ⟨hbound, ?_, hgot⟩
    rcases hwhole with hfirst | ⟨hlater', w', hw', hfile⟩
    · exact .inl hfirst
    · exact .inr ⟨hlater', w', hw', by rw [← hfile]; exact hfiles j hne⟩

/-- A writer gets a temporary file. -/
theorem Sound.create (h : Sound path umask data first s) {w : ι} {mode : BitVec 12} {tmp : String}
    (hw : s.phase w = .making mode) (htemp : isTemp path tmp) (hnone : s.folder.names tmp = none)
    (hnew : tmp ∉ s.used) (filemode : BitVec 12) :
    Sound path umask data first { s.move w (.made mode tmp s.folder.count) with
      folder := s.folder.create tmp filemode
      used := s.used ++ [tmp] } := by
  have hphase : ∀ w', (s.move w (.made mode tmp s.folder.count)).phase w' =
      if w' = w then .made mode tmp s.folder.count else s.phase w' :=
    fun w' => Function.update_apply ..
  have hpath : path ≠ tmp := (ne_of_isTemp htemp).symm
  have hbound : ∀ name j, s.folder.names name = some j → j ≠ s.folder.count :=
    fun name j hname => Nat.ne_of_lt (h.closed name j hname)
  have hkept : ∀ j < s.folder.count, (s.folder.create tmp filemode).files j = s.folder.files j :=
    fun j hj => Folder.files_create_of_lt hj
  -- The new name and the new file are nobody's yet.
  have htemps : ∀ w', (s.phase w').temp ≠ some tmp := fun w' hw' => hnew (h.temp w' tmp hw')
  have hfiles : ∀ w' tmp', (s.phase w').file ≠ some (tmp', s.folder.count) := by
    intro w' tmp' hw'
    exact hbound tmp' _ (h.own w' tmp' _ hw').1 rfl
  refine ⟨Nat.le_succ_of_le h.count, h.closed.create tmp filemode, ?_, ?_, ?_, ?_, ?_, ?_, ?_, ?_,
    ?_, ?_, ?_, ?_, ?_, ?_, h.nodup, ?_, ?_⟩
  · intro j hj
    rw [← h.old j hj]
    exact hkept j (Nat.lt_of_lt_of_le hj h.count)
  · refine List.forall_mem_append.mpr ⟨h.used, fun name hname => ?_⟩
    rw [List.mem_singleton.mp hname]
    exact ⟨htemp, by rw [← h.frame tmp hpath.symm hnew, hnone]⟩
  · intro name hname hused
    dsimp only at hused ⊢
    rw [List.mem_append, List.mem_singleton, not_or] at hused
    rw [Folder.names_create, if_neg hused.2]
    exact h.frame name hname hused.1
  · intro w' tmp' hw'
    rw [hphase] at hw'
    split at hw'
    · exact List.mem_append_right _ (List.mem_singleton.mpr (Option.some.inj hw').symm)
    · exact List.mem_append_left _ (h.temp w' tmp' hw')
  · intro w' w'' tmp' hw' hw''
    rw [hphase] at hw' hw''
    split at hw' <;> split at hw''
    · next hfirst hsecond => rw [hfirst, hsecond]
    · obtain rfl := Option.some.inj hw'
      exact absurd hw'' (htemps w'')
    · obtain rfl := Option.some.inj hw''
      exact absurd hw' (htemps w')
    · exact h.apart w' w'' tmp' hw' hw''
  · intro w' tmp' j hw'
    rw [hphase] at hw'
    dsimp only
    rw [Folder.names_create]
    split at hw'
    · obtain ⟨rfl, rfl⟩ := Prod.mk.inj (Option.some.inj hw')
      rw [if_pos rfl]
      exact ⟨rfl, h.count⟩
    · have hne : tmp' ≠ tmp := by
        rintro rfl
        rw [(h.own w' tmp' j hw').1] at hnone
        cases hnone
      rw [if_neg hne]
      exact h.own w' tmp' j hw'
  · intro w' w'' tmp' tmp'' j hw' hw''
    rw [hphase] at hw' hw''
    split at hw' <;> split at hw''
    · next hfirst hsecond => rw [hfirst, hsecond]
    · obtain ⟨rfl, rfl⟩ := Prod.mk.inj (Option.some.inj hw')
      exact absurd hw'' (hfiles w'' tmp'')
    · obtain ⟨rfl, rfl⟩ := Prod.mk.inj (Option.some.inj hw'')
      exact absurd hw' (hfiles w' tmp')
    · exact h.alone w' w'' tmp' tmp'' j hw' hw''
  · intro w' tmp' j hw'
    rw [hphase] at hw'
    dsimp only
    rw [Folder.names_create, if_neg hpath]
    split at hw'
    · obtain ⟨rfl, rfl⟩ := Prod.mk.inj (Option.some.inj hw')
      refine ⟨fun hname => hbound path _ hname rfl, fun r got hr => ?_⟩
      exact absurd (h.reader r _ got hr).1 (Nat.lt_irrefl _)
    · exact h.unseen w' tmp' j hw'
  · intro w' mode' hw'
    rw [hphase] at hw'
    split at hw'
    · exact h.mode w mode' (by rw [hw]; exact hw')
    · exact h.mode w' mode' hw'
  · intro w' mode' tmp' j hw'
    rw [hphase] at hw'
    split at hw'
    · cases hw'
    · have hj := h.closed tmp' j (h.own w' tmp' j (by rw [hw']; rfl)).1
      dsimp only
      rw [hkept j hj]
      exact h.full w' mode' tmp' j hw'
  · intro w' tmp' j hw'
    rw [hphase] at hw'
    split at hw'
    · cases hw'
    · have hj := h.closed tmp' j (h.own w' tmp' j (by rw [hw']; rfl)).1
      dsimp only
      rw [hkept j hj]
      exact h.ready w' tmp' j hw'
  · have houtput := h.output
    have hname : (s.folder.create tmp filemode).names path = s.folder.names path := by
      rw [Folder.names_create, if_neg hpath]
    split at houtput
    · next hlast =>
        have hlast' : (s.move w (.made mode tmp s.folder.count)).installed.getLast? = none :=
          hlast
        simp only [hlast']
        exact hname.trans houtput
    · next w' hlast =>
        have hlast' : (s.move w (.made mode tmp s.folder.count)).installed.getLast? =
            some w' := hlast
        obtain ⟨j, hj, hlater, hfile⟩ := houtput
        simp only [hlast']
        exact ⟨j, hname.trans hj, hlater, (hkept j (h.closed path j hj)).trans hfile⟩
  · intro r j got hr
    obtain ⟨hj, hwhole, hgot⟩ := h.reader r j got hr
    refine ⟨Nat.lt_succ_of_lt hj, ?_, ?_⟩
    · rcases hwhole with hfirst | ⟨hlater, w', hw', hfile⟩
      · exact .inl hfirst
      · exact .inr ⟨hlater, w', hw', (hkept j hj).trans hfile⟩
    · dsimp only
      rw [hkept j hj]
      exact hgot
  · intro w' hw'
    rw [hphase]
    split
    · next hsame =>
        have hover := h.ended w' hw'
        rw [hsame, hw] at hover
        cases hover
    · exact h.ended w' hw'
  · intro w' hw'
    rw [hphase] at hw'
    split at hw'
    · cases hw'
    · exact h.through w' hw'
  · intro name hname hsome
    dsimp only at hname hsome
    rw [Folder.names_create] at hsome
    by_cases hsame : name = tmp
    · exact ⟨w, by rw [hphase, if_pos rfl, hsame]; rfl⟩
    · rw [if_neg hsame] at hsome
      have hold : name ∈ s.used :=
        (List.mem_append.mp hname).resolve_right fun hmem => hsame (List.mem_singleton.mp hmem)
      obtain ⟨w', hw'⟩ := h.litter name hold hsome
      refine ⟨w', ?_⟩
      rw [hphase, if_neg ?_]
      · exact hw'
      · rintro rfl
        rw [hw] at hw'
        cases hw'

/-- The rename takes effect: the complete report is the output file. -/
theorem Sound.replace (h : Sound path umask data first s) {w : ι} {tmp : String} {i : ℕ}
    (hw : s.phase w = .modeSet tmp i) :
    Sound path umask data first { s.move w (.replaced tmp) with
      folder := s.folder.rename tmp path
      installed := s.installed ++ [w] } := by
  have hphase : ∀ w', (s.move w (.replaced tmp)).phase w' =
      if w' = w then .replaced tmp else s.phase w' := fun w' => Function.update_apply ..
  have hfile : (s.phase w).file = some (tmp, i) := by rw [hw]; rfl
  obtain ⟨hown, hlater⟩ := h.own w tmp i hfile
  have htmp : (s.phase w).temp = some tmp := by rw [hw]; rfl
  have hused : tmp ∈ s.used := h.temp w tmp htmp
  have hpath : tmp ≠ path := ne_of_isTemp (h.used tmp hused).1
  obtain ⟨hfiles, hcount, hnames⟩ := @Folder.rename_of_some s.folder tmp path i hown
  have hready := h.ready w tmp i hw
  have hearly : w ∉ s.installed := by
    intro hmem
    have hover := h.ended w hmem
    rw [hw] at hover
    cases hover
  have hfile' : ∀ w' file, ((s.move w (.replaced tmp)).phase w').file = some file →
      (s.phase w').file = some file ∧ w' ≠ w := by
    intro w' file hw'
    rw [hphase] at hw'
    split at hw'
    · cases hw'
    · next hne => exact ⟨hw', hne⟩
  have htemps : ∀ w' tmp', ((s.move w (.replaced tmp)).phase w').temp = some tmp' →
      (s.phase w').temp = some tmp' := by
    intro w' tmp' hw'
    rw [hphase] at hw'
    split at hw'
    · next hsame => exact hsame ▸ htmp.trans hw'
    · exact hw'
  have hwhole : ∀ j, Whole path umask data first s j →
      Whole path umask data first { s.move w (.replaced tmp) with
        folder := s.folder.rename tmp path
        installed := s.installed ++ [w] } j := by
    rintro j (hfirst | ⟨hlater', w', hw', hcontent⟩)
    · exact .inl hfirst
    · refine .inr ⟨hlater', w', List.mem_append_left _ hw', ?_⟩
      dsimp only
      rw [hfiles]
      exact hcontent
  refine ⟨hcount ▸ h.count, h.closed.rename tmp path, ?_, h.used, ?_, ?_, ?_, ?_, ?_, ?_, ?_, ?_,
    ?_, ?_, ?_, ?_, ?_, ?_, ?_⟩
  · intro j hj
    dsimp only
    rw [hfiles]
    exact h.old j hj
  · intro name hname hnew
    dsimp only at hnew ⊢
    rw [hnames, if_neg hname, if_neg (by rintro rfl; exact hnew hused)]
    exact h.frame name hname hnew
  · exact fun w' tmp' hw' => h.temp w' tmp' (htemps w' tmp' hw')
  · exact fun w' w'' tmp' hw' hw'' => h.apart w' w'' tmp' (htemps _ _ hw') (htemps _ _ hw'')
  · intro w' tmp' j hw'
    obtain ⟨hw', hne⟩ := hfile' w' _ hw'
    obtain ⟨hown', hlater'⟩ := h.own w' tmp' j hw'
    have htmp' : (s.phase w').temp = some tmp' := by
      cases hphase' : s.phase w' <;> rw [hphase'] at hw' <;> cases hw' <;> rfl
    have hother : tmp' ≠ tmp := by
      rintro rfl
      exact hne (h.apart w' w tmp' htmp' htmp)
    have hout : tmp' ≠ path := ne_of_isTemp (h.used tmp' (h.temp w' tmp' htmp')).1
    dsimp only
    rw [hnames, if_neg hout, if_neg hother]
    exact ⟨hown', hlater'⟩
  · exact fun w' w'' tmp' tmp'' j hw' hw'' =>
      h.alone w' w'' tmp' tmp'' j (hfile' w' _ hw').1 (hfile' w'' _ hw'').1
  · intro w' tmp' j hw'
    obtain ⟨hw', hne⟩ := hfile' w' _ hw'
    obtain ⟨-, hreaders⟩ := h.unseen w' tmp' j hw'
    refine ⟨?_, hreaders⟩
    dsimp only
    rw [hnames, if_pos rfl]
    rintro heq
    obtain rfl := Option.some.inj heq
    exact hne (h.alone w' w tmp' tmp i hw' hfile)
  · intro w' mode hw'
    rw [hphase] at hw'
    split at hw'
    · cases hw'
    · exact h.mode w' mode hw'
  · intro w' mode tmp' j hw'
    rw [hphase] at hw'
    dsimp only
    rw [hfiles]
    split at hw'
    · cases hw'
    · exact h.full w' mode tmp' j hw'
  · intro w' tmp' j hw'
    rw [hphase] at hw'
    dsimp only
    rw [hfiles]
    split at hw'
    · cases hw'
    · exact h.ready w' tmp' j hw'
  · have hlast : (s.installed ++ [w]).getLast? = some w := List.getLast?_concat
    simp only [hlast]
    refine ⟨i, ?_, hlater, ?_⟩
    · rw [hnames, if_pos rfl]
    · rw [hfiles]
      exact hready
  · intro r j got hr
    obtain ⟨hj, hold, hgot⟩ := h.reader r j got hr
    dsimp only
    rw [hcount, hfiles]
    exact ⟨hj, hwhole j hold, hgot⟩
  · refine List.forall_mem_append.mpr ⟨fun w' hw' => ?_, fun w' hw' => ?_⟩
    · rw [hphase]
      split
      · rfl
      · exact h.ended w' hw'
    · rw [hphase, if_pos (List.mem_singleton.mp hw')]
      rfl
  · rw [List.nodup_append]
    refine ⟨h.nodup, List.nodup_singleton w, fun w' hw' w'' hw'' => ?_⟩
    rw [List.mem_singleton.mp hw'']
    rintro rfl
    exact hearly hw'
  · intro w' hw'
    rw [hphase] at hw'
    split at hw'
    · next hsame => exact List.mem_append_right _ (List.mem_singleton.mpr hsame)
    · exact List.mem_append_left _ (h.through w' hw')
  · intro name hname hsome
    have hout : name ≠ path := ne_of_isTemp (h.used name hname).1
    dsimp only at hsome
    rw [hnames, if_neg hout] at hsome
    split at hsome
    · exact absurd rfl hsome
    · next hne =>
        obtain ⟨w', hw'⟩ := h.litter name hname hsome
        refine ⟨w', ?_⟩
        rw [hphase, if_neg ?_]
        · exact hw'
        · rintro rfl
          rw [hw] at hw'
          exact hne (Option.some.inj hw').symm

/-- A writer removes its temporary name. -/
theorem Sound.unlink (h : Sound path umask data first s) {w : ι} {tmp : String}
    (hw : s.phase w = .cleaning tmp) :
    Sound path umask data first
      { s.move w (.raised none) with folder := s.folder.remove tmp } := by
  have hphase : ∀ w', (s.move w (.raised none)).phase w' =
      if w' = w then .raised none else s.phase w' := fun w' => Function.update_apply ..
  have htmp : (s.phase w).temp = some tmp := by rw [hw]; rfl
  have hused : tmp ∈ s.used := h.temp w tmp htmp
  have hpath : path ≠ tmp := (ne_of_isTemp (h.used tmp hused).1).symm
  -- Nobody else has this name.
  have hnames : ∀ w' tmp' i, (s.phase w').file = some (tmp', i) → tmp' ≠ tmp := by
    rintro w' tmp' i hw' rfl
    have htmp' : (s.phase w').temp = some tmp' := by
      cases hphase' : s.phase w' <;> rw [hphase'] at hw' <;> cases hw' <;> rfl
    obtain rfl := h.apart w' w tmp' htmp' htmp
    rw [hw] at hw'
    cases hw'
  have hkeep : ∀ w' file, ((s.move w (.raised none)).phase w').file = some file →
      (s.phase w').file = some file := by
    intro w' file hw'
    rw [hphase] at hw'
    split at hw'
    · cases hw'
    · exact hw'
  have htemps : ∀ w' tmp', ((s.move w (.raised none)).phase w').temp = some tmp' →
      (s.phase w').temp = some tmp' := by
    intro w' tmp' hw'
    rw [hphase] at hw'
    split at hw'
    · cases hw'
    · exact hw'
  refine ⟨h.count, h.closed.remove tmp, h.old, h.used, ?_,
    fun w' tmp' hw' => h.temp w' tmp' (htemps w' tmp' hw'),
    fun w' w'' tmp' hw' hw'' => h.apart w' w'' tmp' (htemps _ _ hw') (htemps _ _ hw''), ?_,
    fun w' w'' tmp' tmp'' j hw' hw'' =>
      h.alone w' w'' tmp' tmp'' j (hkeep _ _ hw') (hkeep _ _ hw''),
    ?_, ?_, ?_, ?_, ?_, h.reader, ?_, h.nodup, ?_, ?_⟩
  · intro name hname hnew
    dsimp only at hnew ⊢
    rw [Folder.names_remove, if_neg (by rintro rfl; exact hnew hused)]
    exact h.frame name hname hnew
  · intro w' tmp' j hw'
    dsimp only
    rw [Folder.names_remove, if_neg (hnames w' tmp' j (hkeep _ _ hw'))]
    exact h.own w' tmp' j (hkeep _ _ hw')
  · intro w' tmp' j hw'
    dsimp only
    rw [Folder.names_remove, if_neg hpath]
    exact h.unseen w' tmp' j (hkeep _ _ hw')
  · intro w' mode hw'
    rw [hphase] at hw'
    split at hw'
    · cases hw'
    · exact h.mode w' mode hw'
  · intro w' mode tmp' j hw'
    rw [hphase] at hw'
    split at hw'
    · cases hw'
    · exact h.full w' mode tmp' j hw'
  · intro w' tmp' j hw'
    rw [hphase] at hw'
    split at hw'
    · cases hw'
    · exact h.ready w' tmp' j hw'
  · have houtput := h.output
    have hname : (s.folder.remove tmp).names path = s.folder.names path := by
      rw [Folder.names_remove, if_neg hpath]
    split at houtput
    · next hlast =>
        have hlast' : (s.move w (.raised none)).installed.getLast? = none := hlast
        simp only [hlast']
        exact hname.trans houtput
    · next w' hlast =>
        have hlast' : (s.move w (.raised none)).installed.getLast? = some w' := hlast
        obtain ⟨j, hj, hlater, hfile⟩ := houtput
        simp only [hlast']
        exact ⟨j, hname.trans hj, hlater, hfile⟩
  · intro w' hw'
    rw [hphase]
    split
    · rfl
    · exact h.ended w' hw'
  · intro w' hw'
    rw [hphase] at hw'
    split at hw'
    · cases hw'
    · exact h.through w' hw'
  · intro name hname hsome
    dsimp only at hsome
    rw [Folder.names_remove] at hsome
    split at hsome
    · exact absurd rfl hsome
    · next hne =>
        obtain ⟨w', hw'⟩ := h.litter name hname hsome
        refine ⟨w', ?_⟩
        rw [hphase, if_neg ?_]
        · exact hw'
        · rintro rfl
          rw [hw] at hw'
          exact hne (Option.some.inj hw').symm

variable [DecidableEq κ]

/-- **Every call keeps the state sound.** -/
theorem Sound.step (hfirst : first.folder.Closed) (h : Sound path umask data first s)
    {act : Act ι κ} {next : World ι κ} (hstep : s.step path umask data act = some next) :
    Sound path umask data first next := by
  -- One case for each call; what moves no file is `hold` or `rest`.
  cases act with
  | stat w =>
      simp only [World.step] at hstep
      split at hstep
      · next hw =>
          obtain rfl := Option.some.inj hstep
          refine h.move w _ (by rintro _ ⟨⟩) (by rintro _ ⟨⟩) ?_ (by rintro _ _ _ ⟨⟩)
            (by rintro _ _ ⟨⟩) (fun _ => by rw [hw]; rfl) (by rintro ⟨⟩) ?_
          · rintro mode ⟨⟩
            exact h.modeFor_output hfirst
          · intro name _ _ hlitter
            rw [hw] at hlitter
            cases hlitter
      · cases hstep
  | create w tmp =>
      simp only [World.step] at hstep
      split at hstep
      · next mode hw =>
          split at hstep
          · next hnew =>
              obtain rfl := Option.some.inj hstep
              exact h.create hw hnew.1 hnew.2.1 hnew.2.2 _
          · cases hstep
      · cases hstep
  | enter w =>
      simp only [World.step] at hstep
      split at hstep
      · next mode tmp file hw =>
          obtain rfl := Option.some.inj hstep
          refine h.hold (by rw [hw]; rfl) rfl ?_ nofun nofun
          intro other hmode
          rw [hw]
          exact hmode
      · cases hstep
  | write w bytes =>
      simp only [World.step] at hstep
      split at hstep
      · next mode tmp file hw =>
          split at hstep
          · obtain rfl := Option.some.inj hstep
            have hfile : (s.phase w).file = some (tmp, file) := by rw [hw]; rfl
            refine h.touch hfile ?_ rfl rfl (fun j hj => Folder.files_append_of_ne hj) ?_
            · intro tmp' j hphase
              rw [hw] at hphase
              cases hphase
            · intro mode' tmp' j hphase
              rw [hw] at hphase
              cases hphase
          · cases hstep
      · cases hstep
  | close w =>
      simp only [World.step] at hstep
      split at hstep
      · next mode tmp file hw =>
          split at hstep
          · next hfull =>
              obtain rfl := Option.some.inj hstep
              refine h.hold (by rw [hw]; rfl) rfl ?_ ?_ nofun
              · intro other hmode
                rw [hw]
                exact hmode
              · intro _ _ _ hphase
                cases hphase
                exact hfull
          · cases hstep
      · cases hstep
  | chmod w =>
      simp only [World.step] at hstep
      split at hstep
      · next mode tmp file hw =>
          have hfile : (s.phase w).file = some (tmp, file) := by rw [hw]; rfl
          obtain ⟨hown, -⟩ := h.own w tmp file hfile
          have hmode := h.mode w mode (by rw [hw]; rfl)
          have hcontent := h.full w mode tmp file hw
          rw [hown] at hstep
          obtain rfl := Option.some.inj hstep
          have htouched : Sound path umask data first
              { s with folder := s.folder.setMode file mode } := by
            refine h.touch hfile ?_ rfl rfl (fun j hj => Folder.files_setMode_of_ne hj) ?_
            · intro tmp' j hphase
              rw [hw] at hphase
              cases hphase
            · intro _ _ _ _
              rw [Folder.files_setMode, if_pos rfl]
          refine htouched.hold hfile rfl nofun nofun ?_
          intro _ _ hphase
          cases hphase
          simp only [Folder.files_setMode, if_true, hcontent, hmode]
      · cases hstep
  | replace w =>
      simp only [World.step] at hstep
      split at hstep
      · next tmp file hw =>
          split at hstep
          · obtain rfl := Option.some.inj hstep
            exact h.replace hw
          · cases hstep
      · cases hstep
  | leave w =>
      simp only [World.step] at hstep
      split at hstep
      · next tmp hw =>
          obtain rfl := Option.some.inj hstep
          refine h.rest rfl rfl rfl ?_ (fun _ => h.through w (by rw [hw]; rfl)) ?_
          · intro other htemp
            rw [hw]
            exact htemp
          · intro name hlitter
            rw [hw] at hlitter
            cases hlitter
      · cases hstep
  | fail w =>
      simp only [World.step] at hstep
      split at hstep
      · next hw =>
          obtain rfl := Option.some.inj hstep
          exact h.raise (by rw [hw]; rfl)
      · next hw =>
          obtain rfl := Option.some.inj hstep
          exact h.raise (by rw [hw]; rfl)
      · next hw =>
          obtain rfl := Option.some.inj hstep
          exact h.abandon (by rw [hw]; rfl)
      · next hw =>
          obtain rfl := Option.some.inj hstep
          exact h.clean (by rw [hw]; rfl)
      · next hw =>
          obtain rfl := Option.some.inj hstep
          exact h.clean (by rw [hw]; rfl)
      · next hw =>
          obtain rfl := Option.some.inj hstep
          exact h.clean (by rw [hw]; rfl)
      · next hw =>
          obtain rfl := Option.some.inj hstep
          exact h.clean (by rw [hw]; rfl)
      · cases hstep
  | unlink w done =>
      simp only [World.step] at hstep
      split at hstep
      · next hw =>
          split at hstep
          · obtain rfl := Option.some.inj hstep
            exact h.unlink hw
          · obtain rfl := Option.some.inj hstep
            exact h.abandon (by rw [hw]; rfl)
      · cases hstep
  | kill w =>
      simp only [World.step] at hstep
      split at hstep
      · cases hstep
      · cases hstep
      · cases hstep
      · obtain rfl := Option.some.inj hstep
        exact h.kill w
  | openFile r =>
      simp only [World.step] at hstep
      split at hstep
      · next i hi =>
          obtain rfl := Option.some.inj hstep
          exact h.openFile hi r
      · cases hstep
  | read r n =>
      simp only [World.step] at hstep
      split at hstep
      · next i got hr =>
          obtain rfl := Option.some.inj hstep
          exact h.read hr n
      · cases hstep

theorem Sound.run (hfirst : first.folder.Closed) (h : Sound path umask data first s)
    {acts : List (Act ι κ)} {last : World ι κ} (hrun : s.run path umask data acts = some last) :
    Sound path umask data first last := by
  induction acts generalizing s with
  | nil => exact Option.some.inj hrun ▸ h
  | cons act acts ih =>
      obtain ⟨next, hstep, hrest⟩ := Option.bind_eq_some_iff.mp hrun
      exact ih (h.step hfirst hstep) hrest

/-- **In every interleaving of writers and readers, the output file is the one of the beginning or
the complete report of the last writer to rename, with one mode for good, and what a reader has read
is the start of one such file.** -/
theorem run_whole (hstart : Start first) {acts : List (Act ι κ)} {last : World ι κ}
    (hrun : first.run path umask data acts = some last) :
    (last.folder.file? path =
        match last.installed.getLast? with
        | none => first.folder.file? path
        | some w => some ⟨data w, keptMode path umask first⟩) ∧
      ∀ r i got, last.reader r = some (i, got) →
        got <+: (last.folder.files i).content ∧
          (first.folder.file? path = some (last.folder.files i) ∨
            ∃ w ∈ last.installed,
              last.folder.files i = ⟨data w, keptMode path umask first⟩) := by
  have h : Sound path umask data first last := hstart.sound.run hstart.closed hrun
  refine ⟨h.file?_output hstart.closed, fun r i got hr => ?_⟩
  obtain ⟨-, hwhole, hgot⟩ := h.reader r i got hr
  refine ⟨hgot, ?_⟩
  rcases hwhole with hfirst | ⟨-, w, hw, hfile⟩
  · refine .inl ?_
    rw [Folder.file?, hfirst, h.old i (hstart.closed path i hfirst)]
    rfl
  · exact .inr ⟨w, hw, hfile⟩

/-- **In every interleaving, a writer that returns has installed its report, no writer installs one
twice, no file of the beginning is changed, and every other name of the directory stands for what it
stood for, unless a writer is at work, was killed, was interrupted before its `try` block or could
not remove its temporary file.** -/
theorem run_traces (hstart : Start first) {acts : List (Act ι κ)} {last : World ι κ}
    (hrun : first.run path umask data acts = some last) :
    (∀ w tmp, last.phase w = .returned tmp → w ∈ last.installed) ∧ last.installed.Nodup ∧
      (∀ i < first.folder.count, last.folder.files i = first.folder.files i) ∧
      ∀ name, name ≠ path → (∀ w, (last.phase w).litter ≠ some name) →
        last.folder.names name = first.folder.names name := by
  have h : Sound path umask data first last := hstart.sound.run hstart.closed hrun
  refine ⟨fun w tmp hw => h.through w (by rw [hw]; rfl), h.nodup, h.old,
    fun name hname hlitter => ?_⟩
  by_cases hused : name ∈ last.used
  · -- A temporary name is gone, and there was none like it in the beginning.
    rw [(h.used name hused).2]
    by_contra hsome
    obtain ⟨w, hw⟩ := h.litter name hused hsome
    exact hlitter w hw
  · exact h.frame name hname hused

end Sound

/-! ### A timer and a reader -/

/-- A directory with an old report. -/
def timerStart : World Bool Unit where
  folder := ⟨fun name => if name = "r.prom" then some 0 else none, fun _ => ⟨[1, 2, 3], 0o640⟩, 1⟩
  phase _ := .start
  reader _ := none
  used := []
  installed := []

/-- Two writers whose calls alternate, and a reader that opens the old report and reads it when it
has been replaced. -/
def timerActs : List (Act Bool Unit) :=
  [.stat true, .create true ".r.prom.k3.tmp", .enter true, .openFile (), .stat false,
    .create false ".r.prom.q8.tmp", .enter false, .write true [7], .write false [5, 6],
    .write true [8], .close true, .read () 2, .chmod true, .close false, .replace true, .read () 9,
    .chmod false, .replace false, .fail false, .unlink false true, .leave true]

/-- The reports of the two. -/
def timerData (w : Bool) : List UInt8 := if w then [7, 8] else [5, 6]

theorem start_timer : Start timerStart := by
  refine ⟨?_, fun _ => rfl, fun _ => rfl, rfl, rfl⟩
  intro name i hname
  simp only [timerStart] at hname ⊢
  split at hname
  · obtain rfl := Option.some.inj hname
    exact Nat.one_pos
  · cases hname

theorem run_whole_timer :
    ∃ last, timerStart.run "r.prom" 0o022 timerData timerActs = some last ∧
      last.folder.file? "r.prom" = some ⟨[5, 6], 0o640⟩ := by
  have hrun : (timerStart.run "r.prom" 0o022 timerData timerActs).map World.installed =
      some [true, false] := by
    decide +kernel
  obtain ⟨last, hlast, hinstalled⟩ := Option.map_eq_some_iff.mp hrun
  refine ⟨last, hlast, ?_⟩
  rw [(run_whole start_timer hlast).1, hinstalled]
  decide +kernel

theorem run_traces_timer :
    ∃ last, timerStart.run "r.prom" 0o022 timerData timerActs = some last ∧
      last.folder.names ".r.prom.q8.tmp" = none := by
  have hrun : (timerStart.run "r.prom" 0o022 timerData timerActs).map
      (fun last => (last.phase true, last.phase false)) =
        some (.returned ".r.prom.k3.tmp", .raised none) := by
    decide +kernel
  obtain ⟨last, hlast, hphases⟩ := Option.map_eq_some_iff.mp hrun
  obtain ⟨htrue, hfalse⟩ := Prod.mk.inj hphases
  refine ⟨last, hlast, ?_⟩
  rw [(run_traces start_timer hlast).2.2.2 ".r.prom.q8.tmp" (by decide)]
  · rfl
  · intro w
    cases w
    · rw [hfalse]
      decide
    · rw [htrue]
      decide

end PqcReadiness.Output
