import PqcReadiness.Lib.Dict
import PqcReadiness.Lib.Text

/-!
# Profiles of MIT krb5

`parse_profile`, `_merge` and `read_krb5_conf`: one file is read into sections of relations and
subsections, and the files that it includes wait in a queue behind it.

The stack of open subsections is kept by their tags.  `lower` stands for `str.lower`, of which
nothing is used, and `KerberosHost` for the files below the host prefix.
-/

namespace PqcReadiness.Kerberos

open PqcReadiness.Lib

/-- A text, in characters. -/
abbrev Chars := List Char

/-! ## Sections -/

/-- What stands under a tag: a value, or a subsection. -/
inductive Node where
  | value (text : Chars)
  | sub (tags : List (Chars × Node))

/-- The tags of a section or subsection. -/
abbrev Relations := List (Chars × Node)

/-- `if tag not in target: target[tag] = value`. -/
def addValue (tag value : Chars) (target : Relations) : Relations :=
  updateEntries tag (fun old => old.getD (.value value)) target

/-- `target[tag] = sub`, where an existing subsection is kept. -/
def openSub (tag : Chars) (target : Relations) : Relations :=
  updateEntries tag
    (fun
      | some (.sub tags) => .sub tags
      | _ => .sub [])
    target

/-- Change the subsection at the end of a path. -/
def changeAt : List Chars → (Relations → Relations) → Relations → Relations
  | [], change, relations => change relations
  | tag :: rest, change, relations =>
      match find tag relations with
      | some (.sub tags) => updateEntries tag (fun _ => .sub (changeAt rest change tags)) relations
      | _ => relations

/-- What stands at the end of a path of tags. -/
def lookup : List Chars → Relations → Option Node
  | [], _ => none
  | [tag], relations => find tag relations
  | tag :: rest, relations =>
      match find tag relations with
      | some (.sub tags) => lookup rest tags
      | _ => none

/-- Sections by their names. -/
abbrev Profile := Dict Chars Relations

/-! ## Lines -/

/-- The two kinds of directives. -/
inductive DirectiveKind where
  | include
  | includedir
  deriving DecidableEq

/-- `include` or `includedir`, with its target. -/
structure Directive where
  kind : DirectiveKind
  target : String
  deriving DecidableEq

/-- `^(include|includedir)\s+(\S.*)$`. -/
def directiveOf (line : Chars) : Option Directive :=
  let word := line.takeWhile fun c => !isSpace c
  let target := stripChars (line.dropWhile fun c => !isSpace c)
  if target = [] then none
  else if word = "include".toList then some ⟨.include, String.ofList target⟩
  else if word = "includedir".toList then some ⟨.includedir, String.ofList target⟩
  else none

/-- `^\[([^\]]+)\]`. -/
def sectionOf (line : Chars) : Option Chars :=
  match line with
  | '[' :: rest =>
      let name := rest.takeWhile (· ≠ ']')
      if name = [] ∨ rest.dropWhile (· ≠ ']') = [] then none else some (stripChars name)
  | _ => none

/-- `^([^=\s]+)\s*=\s*(.*?)\s*$`. -/
def relationOf (line : Chars) : Option (Chars × Chars) :=
  let isTag := fun c => c ≠ '=' && !isSpace c
  let tag := line.takeWhile isTag
  if tag = [] then none
  else
    match (line.dropWhile isTag).dropWhile isSpace with
    | '=' :: value => some (tag, stripChars value)
    | _ => none

/-- What `parse_profile` has read. -/
structure ProfileState where
  sections : Profile := .empty
  directives : List Directive := []
  current : Option Chars := none
  /-- The tags of the open subsections, from the outside in. -/
  stack : List Chars := []

/-- Change the innermost open subsection of a section. -/
def ProfileState.change (state : ProfileState) (name : Chars)
    (change : Relations → Relations) : Profile :=
  state.sections.update name fun relations => changeAt state.stack change (relations.getD [])

section Parsing

variable (lower : Chars → Chars)

/-- A line that is no directive. -/
def sectionLine (state : ProfileState) (line : Chars) : ProfileState :=
  match sectionOf line with
  | some name =>
      { state with
        sections := state.sections.update name (·.getD [])
        current := some name
        stack := [] }
  | none =>
      match state.current with
      | none => state
      | some name =>
          if line.head? = some '}' then { state with stack := state.stack.dropLast }
          else
            match relationOf line with
            | none => state
            | some (tag, value) =>
                if value = ['{'] then
                  { state with
                    sections := state.change name (openSub (lower tag))
                    stack := state.stack ++ [lower tag] }
                else { state with sections := state.change name (addValue (lower tag) value) }

/-- Is a line blank, or a comment? -/
def isIgnored (line : Chars) : Bool :=
  line = [] || line.head? = some '#' || line.head? = some ';'

/-- One line. -/
def profileLine (state : ProfileState) (raw : Chars) : ProfileState :=
  let line := stripChars raw
  if isIgnored line then state
  else
    match directiveOf line with
    | none => sectionLine lower state line
    | some directive =>
        if state.stack = [] then { state with directives := state.directives ++ [directive] }
        else sectionLine lower state line

/-- `parse_profile`. -/
def parseProfile (text : Chars) : Profile × List Directive :=
  let state := (splitLinesChars text).foldl (profileLine lower) {}
  (state.sections, state.directives)

/-! ## Files -/

/-- The relations of one section that are not there yet. -/
def mergeSection (dest new : Relations) : Relations :=
  new.foldl (fun dest entry => updateEntries entry.1 (fun old => old.getD entry.2) dest) dest

/-- `_merge`. -/
def merge (into new : Profile) : Profile :=
  new.entries.foldl
    (fun into entry => into.update entry.1 fun dest => mergeSection (dest.getD []) entry.2) into

/-- `MAX_INCLUDES`. -/
def maxIncludes : ℕ := 64

/-- The files of the host: their texts, and the names of the files and symbolic links in a
directory, in no order. -/
structure KerberosHost where
  read : String → Option Chars
  listDir : String → Option (List String)

/-- `_INCLUDEDIR_NAME`. -/
def isIncludedName (name : String) : Bool :=
  beforeNewline
      (fun s => s ≠ "" && s.toList.all fun c =>
        ('A' ≤ c && c ≤ 'Z') || ('a' ≤ c && c ≤ 'z') || ('0' ≤ c && c ≤ '9') || c == '_' || c == '-')
      name ||
    beforeNewline (endsWith ".conf") name

/-- The files that a directive names. -/
def included (host : KerberosHost) (directive : Directive) : List String :=
  match directive.kind with
  | .include => [directive.target]
  | .includedir =>
      match host.listDir directive.target with
      | none => []
      | some names =>
          ((sortedBy id names).filter isIncludedName).map fun name =>
            rstripChar '/' directive.target ++ "/" ++ name

/-- The loop of `read_krb5_conf`: what has been merged, the files read, and the queue. -/
def readLoop (host : KerberosHost) (merged : Profile) (files : List String) :
    List String → Profile × List String
  | [] => (merged, files)
  | file :: queue =>
      if files.length < maxIncludes then
        if file ∈ files then readLoop host merged files queue
        else
          match host.read file with
          | none => readLoop host merged files queue
          | some text =>
              let (sections, directives) := parseProfile lower text
              readLoop host (merge merged sections) (files ++ [file])
                (queue ++ directives.flatMap (included host))
      else (merged, files)
termination_by queue => (maxIncludes - files.length, queue.length)
decreasing_by
  · exact Prod.Lex.right _ (Nat.lt_succ_self _)
  · exact Prod.Lex.right _ (Nat.lt_succ_self _)
  · apply Prod.Lex.left
    rw [List.length_append, List.length_singleton]
    omega

/-- `read_krb5_conf`. -/
def readKrb5Conf (host : KerberosHost) (path : String) : Profile × List String :=
  readLoop lower host .empty [] [path]

end Parsing

end PqcReadiness.Kerberos
