import PqcReadiness.Config.Sshd

/-!
# What sshd reads

sshd's own way through a tree of configuration files, as its manual and its `servconf.c`, `misc.c`
and glob(3) describe it, none of which is part of this repository: how a file is cut into lines
(`sshdLines`), how a line is split into its keyword (`strdelim`) and its arguments (`argvSplit`),
and which files a pattern names (`sshdFiles`).  fnmatch(3) is a parameter.

A file is its text, with U+FFFD for what is no UTF-8.
-/

namespace PqcReadiness.Config.OpenSsh

open PqcReadiness.Lib

/-- What a line says for the key exchange. -/
inductive Directive where
  | matchBlock
  | includes (patterns : List String)
  | kex (value : String)
  deriving DecidableEq

/-- A tree of files that can all be read; none is one that is not there. -/
structure ConfigTree where
  file : String → Option String
  dir : String → Option (List String)

/-- The tree as the repository's readers see it, with universal newlines. -/
def ConfigTree.fs (tree : ConfigTree) : ConfigFs where
  readHostText path :=
    .ok ((tree.file path).map fun text => String.ofList (universalNewlines text.toList))
  iterdir path := .ok (tree.dir path)

/-! ## Lines -/

/-- A space or a tab. -/
def isBlank (c : Char) : Bool := c == ' ' || c == '\t'

section Files

variable (fnmatch : String → String → Bool) (tree : ConfigTree)

/-- One component of a pattern. -/
def globPart (paths : List (List Char)) (part : List Char) : List (List Char) :=
  paths.flatMap fun dir =>
    if part.any ("*?[\\".toList.contains ·) then
      (((tree.dir (if dir = [] then "/" else String.ofList dir)).getD []).filter fun name =>
        fnmatch name (String.ofList part)).map fun name => dir ++ '/' :: name.toList
    else [dir ++ '/' :: part]

end Files

end PqcReadiness.Config.OpenSsh
