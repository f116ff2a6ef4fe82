import Mathlib.Data.List.TakeWhile
import PqcReadiness.Config.Policy
import PqcReadiness.Lib.Nesting

/-!
# The grammar of nginx

`_nginx_tokens` and `_nginx_statements`, and every way to write a tree of directives down.

The tokens do not say whether they were quoted, so an argument that is a brace or a semicolon is
taken for structure.  The parser calls itself for every block, so blocks that are nested deeper
than the recursion limit of the interpreter allows end it with a `RecursionError`.  These are the
only two things that go wrong: `nginx_roundTrip_iff`.

## Strategy

The tokenizer is followed along a text of which a part is known (`nginxTokensFrom_gap`,
`nginxTokensFrom_word`), and the parser along with it, by induction on the way in which the tree
is written (`statements_body`).  In the other direction, no statement that the parser returns has
such an argument, and none is nested deeper than there are frames (`statementsFrom_readable`).
-/

namespace PqcReadiness.Config

open PqcReadiness.Lib

/-! ## The tokenizer -/

/-- A token with its line. -/
structure NginxToken where
  text : Chars
  line : ℕ
  deriving DecidableEq

/-- Braces and semicolons. -/
def isStructural (c : Char) : Bool := c = '{' || c = '}' || c = ';'

/-- The quotes. -/
def isQuote (c : Char) : Bool := c = '"' || c = '\''

/-- The characters that an unquoted token goes on with. -/
def isBare (c : Char) : Bool := !(isSpace c || isStructural c || c = '#')

/-- The rest of a quoted token: what it says, the line at its end, and what follows. -/
def quotedToken (quote : Char) (line : ℕ) : Chars → Chars × ℕ × Chars
  | [] => ([], line, [])
  | '\\' :: c :: rest =>
      if quote = '\\' then ([], line, c :: rest)
      else
        let (text, last, after) := quotedToken quote (if c = '\n' then line + 1 else line) rest
        (c :: text, last, after)
  | c :: rest =>
      if c = quote then ([], line, rest)
      else
        let (text, last, after) := quotedToken quote (if c = '\n' then line + 1 else line) rest
        (c :: text, last, after)

theorem length_quotedToken (quote : Char) (line : ℕ) (text : Chars) :
    (quotedToken quote line text).2.2.length ≤ text.length := by
  fun_induction quotedToken quote line text <;> simp_all <;> omega

/-- `_nginx_tokens`, from a line on. -/
def nginxTokensFrom (line : ℕ) (text : Chars) : List NginxToken :=
  match text with
  | [] => []
  | c :: rest =>
      if c = '\n' then nginxTokensFrom (line + 1) rest
      else if isSpace c then nginxTokensFrom line rest
      else if c = '#' then nginxTokensFrom line (rest.dropWhile (· ≠ '\n'))
      else if isStructural c then ⟨[c], line⟩ :: nginxTokensFrom line rest
      else if isQuote c then
        ⟨(quotedToken c line rest).1, (quotedToken c line rest).2.1⟩ ::
          nginxTokensFrom (quotedToken c line rest).2.1 (quotedToken c line rest).2.2
      else
        ⟨c :: rest.takeWhile isBare, line⟩ :: nginxTokensFrom line (rest.dropWhile isBare)
termination_by text.length
decreasing_by
  · exact Nat.lt_succ_self _
  · exact Nat.lt_succ_self _
  · exact Nat.lt_succ_of_le (List.dropWhile_sublist _).length_le
  · exact Nat.lt_succ_self _
  · exact Nat.lt_succ_of_le (length_quotedToken c line rest)
  · exact Nat.lt_succ_of_le (List.dropWhile_sublist _).length_le

/-- `_nginx_tokens`. -/
def nginxTokens (text : Chars) : List NginxToken := nginxTokensFrom 1 text

/-! ## The parser -/

/-- A statement; the ones without a block have `None` there. -/
inductive NginxStatement where
  | simple (name : Chars) (args : List Chars) (line : ℕ)
  | block (name : Chars) (args : List Chars) (line : ℕ) (body : List NginxStatement)

/-- The statement of the tokens before a semicolon, if there are any. -/
def simpleStatement : List NginxToken → List NginxStatement
  | [] => []
  | first :: rest => [.simple first.text (rest.map NginxToken.text) first.line]

/-- The statement of the tokens before a block, if there are any. -/
def blockStatement (body : List NginxStatement) : List NginxToken → List NginxStatement
  | [] => []
  | first :: rest => [.block first.text (rest.map NginxToken.text) first.line body]

/-- A brace, or another token. -/
def nginxBracket (tok : NginxToken) : Bracket :=
  if tok.text = ['{'] then .opens
  else if tok.text = ['}'] then .closes
  else .plain

/-- `_nginx_statements` with what it has so far, `out` and `cur`.  At a closing brace and at the
end of the file, what has no semicolon is dropped. -/
def nginxReader : BlockReader NginxToken (List NginxStatement × List NginxToken)
    (List NginxStatement) where
  bracket := nginxBracket
  start := ([], [])
  token := fun (out, cur) tok =>
    if tok.text = [';'] then (out ++ simpleStatement cur, []) else (out, cur ++ [tok])
  block := fun (out, cur) body => (out ++ blockStatement body cur, [])
  finish := fun (out, _) => out

/-- The statements, and the tokens that are left. -/
def statementsFrom (frames : ℕ) (toks : List NginxToken) (out : List NginxStatement)
    (cur : List NginxToken) : Except RecursionError (List NginxStatement × List NginxToken) :=
  nginxReader.readBlock frames toks (out, cur)

/-- `_nginx_statements`, where so many calls of it may be inside the first one. -/
def nginxStatements (frames : ℕ) (toks : List NginxToken) :
    Except RecursionError (List NginxStatement × List NginxToken) :=
  statementsFrom frames toks [] []

section Statements

variable {frames : ℕ} {tok : NginxToken} {rest cur : List NginxToken} {out : List NginxStatement}

theorem statementsFrom_nil : statementsFrom frames [] out cur = .ok (out, []) :=
  BlockReader.readBlock_nil

theorem statementsFrom_open (htok : tok.text = ['{']) :
    statementsFrom (frames + 1) (tok :: rest) out cur =
      (statementsFrom frames rest [] []).bind fun block =>
        statementsFrom (frames + 1) block.2 (out ++ blockStatement block.1 cur) [] := by
  have hopens : nginxReader.bracket tok = .opens := if_pos htok
  exact BlockReader.readBlock_opens_succ hopens

theorem statementsFrom_close (htok : tok.text = ['}']) :
    statementsFrom frames (tok :: rest) out cur = .ok (out, rest) := by
  have hcloses : nginxReader.bracket tok = .closes := by
    show nginxBracket tok = .closes
    rw [nginxBracket, if_neg (by rw [htok]; decide), if_pos htok]
  exact BlockReader.readBlock_closes hcloses

/-- A token that is taken for structure. -/
def IsStructure (text : Chars) : Prop := text = [';'] ∨ text = ['{'] ∨ text = ['}']

theorem nginxBracket_plain (hopen : tok.text ≠ ['{']) (hclose : tok.text ≠ ['}']) :
    nginxReader.bracket tok = .plain := by
  show nginxBracket tok = .plain
  rw [nginxBracket, if_neg hopen, if_neg hclose]

theorem statementsFrom_semicolon (htok : tok.text = [';']) :
    statementsFrom frames (tok :: rest) out cur =
      statementsFrom frames rest (out ++ simpleStatement cur) [] := by
  have hplain := @nginxBracket_plain tok (by rw [htok]; decide) (by rw [htok]; decide)
  have htoken : nginxReader.token (out, cur) tok = (out ++ simpleStatement cur, []) := if_pos htok
  rw [statementsFrom, BlockReader.readBlock_plain hplain, htoken]
  rfl

theorem statementsFrom_word (htok : ¬ IsStructure tok.text) :
    statementsFrom frames (tok :: rest) out cur = statementsFrom frames rest out (cur ++ [tok]) := by
  rw [IsStructure, not_or, not_or] at htok
  have htoken : nginxReader.token (out, cur) tok = (out, cur ++ [tok]) := if_neg htok.1
  rw [statementsFrom, BlockReader.readBlock_plain (nginxBracket_plain htok.2.1 htok.2.2), htoken]
  rfl

end Statements

/-! ## Trees and how they are written -/

/-- A tree of directives. -/
inductive NginxTree where
  | simple (name : Chars) (args : List Chars)
  | block (name : Chars) (args : List Chars) (body : List NginxTree)

mutual

/-- The tree of a statement, without its lines. -/
def NginxStatement.tree : NginxStatement → NginxTree
  | .simple name args _ => .simple name args
  | .block name args _ body => .block name args (statementTrees body)

/-- The trees of statements. -/
def statementTrees : List NginxStatement → List NginxTree
  | [] => []
  | statement :: rest => statement.tree :: statementTrees rest

end

/-- White space and comments. -/
inductive Gap : Chars → Prop where
  | nil : Gap []
  | space {c : Char} {rest : Chars} (hspace : isSpace c = true) (hrest : Gap rest) :
      Gap (c :: rest)
  | comment {text rest : Chars} (htext : '\n' ∉ text) (hrest : Gap rest) :
      Gap ('#' :: text ++ '\n' :: rest)

/-- Can the text be written without quotes? -/
structure PlainWord (text : Chars) : Prop where
  nonempty : text ≠ []
  plain : ∀ c ∈ text, isBare c = true ∧ isQuote c = false ∧ c ≠ '\\'

/-- What stands between the quotes: the quote and the backslash are escaped, and so may be any
other character. -/
inductive QuotedText (quote : Char) : Chars → Chars → Prop where
  | nil : QuotedText quote [] []
  | plain {c : Char} {value body : Chars} (hquote : c ≠ quote) (hbackslash : c ≠ '\\')
      (hrest : QuotedText quote value body) : QuotedText quote (c :: value) (c :: body)
  | escaped {c : Char} {value body : Chars} (hrest : QuotedText quote value body) :
      QuotedText quote (c :: value) ('\\' :: c :: body)

/-- An argument and its text. -/
inductive ArgText : Chars → Chars → Prop where
  | bare {value : Chars} (hplain : PlainWord value) : ArgText value value
  | quoted {quote : Char} {value body : Chars} (hquote : isQuote quote = true)
      (hbody : QuotedText quote value body) : ArgText value (quote :: body ++ [quote])

/-- Arguments, each behind a gap, and what follows the last one. -/
inductive ArgsText : List Chars → Chars → Prop where
  | nil {gap : Chars} (hgap : Gap gap) : ArgsText [] gap
  | cons {gap value text more : Chars} {values : List Chars} (hgap : Gap gap) (hne : gap ≠ [])
      (harg : ArgText value text) (hmore : ArgsText values more) :
      ArgsText (value :: values) (gap ++ text ++ more)

/-- Trees and their text. -/
inductive BodyText : List NginxTree → Chars → Prop where
  | nil {gap : Chars} (hgap : Gap gap) : BodyText [] gap
  | simple {gap name argsText more : Chars} {args : List Chars} {trees : List NginxTree}
      (hgap : Gap gap) (hname : PlainWord name) (hargs : ArgsText args argsText)
      (hmore : BodyText trees more) :
      BodyText (.simple name args :: trees) (gap ++ name ++ argsText ++ ';' :: more)
  | block {gap name argsText inner more : Chars} {args : List Chars}
      {body trees : List NginxTree} (hgap : Gap gap) (hname : PlainWord name)
      (hargs : ArgsText args argsText) (hinner : BodyText body inner)
      (hmore : BodyText trees more) :
      BodyText (.block name args body :: trees)
        (gap ++ name ++ argsText ++ '{' :: inner ++ '}' :: more)

/-- A file: the last line may be a comment without its end. -/
inductive FileText (trees : List NginxTree) : Chars → Prop where
  | ended {text : Chars} (hbody : BodyText trees text) : FileText trees text
  | comment {text comment : Chars} (hbody : BodyText trees text) (hcomment : '\n' ∉ comment) :
      FileText trees (text ++ '#' :: comment)

/-- No argument is taken for structure. -/
inductive NginxTree.Plain : NginxTree → Prop where
  | simple {name : Chars} {args : List Chars} (hargs : ∀ arg ∈ args, ¬ IsStructure arg) :
      Plain (.simple name args)
  | block {name : Chars} {args : List Chars} {body : List NginxTree}
      (hargs : ∀ arg ∈ args, ¬ IsStructure arg) (hbody : ∀ tree ∈ body, Plain tree) :
      Plain (.block name args body)

mutual

/-- How deep the blocks of a tree are nested. -/
def NginxTree.depth : NginxTree → ℕ
  | .simple .. => 0
  | .block _ _ body => nginxDepth body + 1

/-- How deep the blocks of a file are nested. -/
def nginxDepth : List NginxTree → ℕ
  | [] => 0
  | tree :: rest => max tree.depth (nginxDepth rest)

end

theorem nginxDepth_le_iff {trees : List NginxTree} {depth : ℕ} :
    nginxDepth trees ≤ depth ↔ ∀ tree ∈ trees, tree.depth ≤ depth := by
  induction trees with
  | nil => simp [nginxDepth]
  | cons tree rest ih => rw [nginxDepth, max_le_iff, ih, List.forall_mem_cons]

theorem statementTrees_append (first second : List NginxStatement) :
    statementTrees (first ++ second) = statementTrees first ++ statementTrees second := by
  induction first with
  | nil => rfl
  | cons statement rest ih =>
      rw [List.cons_append, statementTrees, statementTrees, ih]
      rfl

/-! ## The tokenizer on a known text -/

section Tokens

variable {line : ℕ} {rest : Chars}

theorem nginxTokensFrom_space {c : Char} (hc : isSpace c = true) :
    ∃ next, nginxTokensFrom line (c :: rest) = nginxTokensFrom next rest := by
  rw [nginxTokensFrom]
  by_cases hnewline : c = '\n'
  · rw [if_pos hnewline]
    exact ⟨_, rfl⟩
  · rw [if_neg hnewline, if_pos hc]
    exact ⟨_, rfl⟩

theorem dropWhile_comment {text : Chars} (htext : '\n' ∉ text) :
    (text ++ '\n' :: rest).dropWhile (· ≠ '\n') = '\n' :: rest := by
  rw [List.dropWhile_append_of_pos]
  · rfl
  · intro c hc
    have hne : c ≠ '\n' := by
      rintro rfl
      exact htext hc
    simpa using hne

/-- A gap is skipped. -/
theorem nginxTokensFrom_gap {gap : Chars} (hgap : Gap gap) (line : ℕ) (rest : Chars) :
    ∃ next, nginxTokensFrom line (gap ++ rest) = nginxTokensFrom next rest := by
  induction hgap generalizing line with
  | nil => exact ⟨line, rfl⟩
  | space hspace _ ih =>
      obtain ⟨next, hnext⟩ := @nginxTokensFrom_space line _ _ hspace
      obtain ⟨last, hlast⟩ := ih next
      exact ⟨last, hnext.trans hlast⟩
  | @comment text gap htext _ ih =>
      obtain ⟨next, hnext⟩ := @nginxTokensFrom_space line (gap ++ rest) '\n' (by decide)
      obtain ⟨last, hlast⟩ := ih next
      refine ⟨last, ?_⟩
      have hsplit : ('#' :: text ++ '\n' :: gap) ++ rest = '#' :: (text ++ '\n' :: (gap ++ rest)) := by
        simp
      rw [hsplit, nginxTokensFrom, if_neg (by decide), if_neg (by decide), if_pos rfl,
        dropWhile_comment htext, hnext, hlast]

/-- The text does not go on with an unquoted token. -/
def Stops (text : Chars) : Prop := ∀ c, text.head? = some c → isBare c = false

theorem takeWhile_bare {word : Chars} (hword : ∀ c ∈ word, isBare c = true) (hrest : Stops rest) :
    (word ++ rest).takeWhile isBare = word ∧ (word ++ rest).dropWhile isBare = rest := by
  rw [List.takeWhile_append_of_pos hword, List.dropWhile_append_of_pos hword]
  cases rest with
  | nil => exact ⟨List.append_nil word, rfl⟩
  | cons c rest =>
      have hc := hrest c rfl
      rw [List.takeWhile_cons, List.dropWhile_cons, hc]
      exact ⟨List.append_nil word, rfl⟩

/-- A plain word is a token. -/
theorem nginxTokensFrom_word {word : Chars} (hword : PlainWord word) (hrest : Stops rest) :
    nginxTokensFrom line (word ++ rest) = ⟨word, line⟩ :: nginxTokensFrom line rest := by
  obtain ⟨hne, hplain⟩ := hword
  cases word with
  | nil => exact absurd rfl hne
  | cons c word =>
      obtain ⟨hbare, hquote, -⟩ := hplain c List.mem_cons_self
      have hall : ∀ c ∈ word, isBare c = true := fun other hother =>
        (hplain other (List.mem_cons_of_mem c hother)).1
      obtain ⟨htake, hdrop⟩ := takeWhile_bare hall hrest
      unfold isBare at hbare
      simp only [Bool.not_eq_true', Bool.or_eq_false_iff, decide_eq_false_iff_not] at hbare
      obtain ⟨⟨hspace, hstructural⟩, hcomment⟩ := hbare
      have hnewline : c ≠ '\n' := by
        rintro rfl
        cases hspace
      rw [List.cons_append, nginxTokensFrom, if_neg hnewline, hspace, if_neg Bool.false_ne_true,
        if_neg hcomment, hstructural, if_neg Bool.false_ne_true, hquote,
        if_neg Bool.false_ne_true, htake, hdrop]

theorem nginxTokensFrom_structural {c : Char} (hc : isStructural c = true) :
    nginxTokensFrom line (c :: rest) = ⟨[c], line⟩ :: nginxTokensFrom line rest := by
  have hcases : c = '{' ∨ c = '}' ∨ c = ';' := by simpa [isStructural, or_assoc] using hc
  rw [nginxTokensFrom]
  rcases hcases with rfl | rfl | rfl <;>
    rw [if_neg (by decide), if_neg (by decide), if_neg (by decide), if_pos (by decide)]

/-- A quoted text is read up to its quote. -/
theorem quotedToken_text {quote : Char} {value body : Chars} (hquote : isQuote quote = true)
    (hbody : QuotedText quote value body) (line : ℕ) (rest : Chars) :
    ∃ next, quotedToken quote line (body ++ quote :: rest) = (value, next, rest) := by
  have hbackslash : quote ≠ '\\' := by
    rintro rfl
    cases hquote
  induction hbody generalizing line with
  | nil =>
      refine ⟨line, ?_⟩
      rw [List.nil_append, quotedToken.eq_3 quote line quote rest fun _ _ h _ => hbackslash h,
        if_pos rfl]
  | @plain c value body hne hc _ ih =>
      obtain ⟨next, hnext⟩ := ih (if c = '\n' then line + 1 else line)
      refine ⟨next, ?_⟩
      rw [List.cons_append, quotedToken.eq_3 quote line c _ fun _ _ h _ => hc h, if_neg hne, hnext]
  | @escaped c value body _ ih =>
      obtain ⟨next, hnext⟩ := ih (if c = '\n' then line + 1 else line)
      refine ⟨next, ?_⟩
      rw [List.cons_append, List.cons_append, quotedToken.eq_2, if_neg hbackslash, hnext]

/-- An argument is one token. -/
theorem nginxTokensFrom_arg {value text : Chars} (harg : ArgText value text) (line : ℕ)
    (hrest : Stops rest) : ∃ first next, nginxTokensFrom line (text ++ rest) =
      ⟨value, first⟩ :: nginxTokensFrom next rest := by
  cases harg with
  | bare hplain => exact ⟨line, line, nginxTokensFrom_word hplain hrest⟩
  | @quoted quote _ body hquote hbody =>
      obtain ⟨next, hnext⟩ := quotedToken_text hquote hbody line rest
      have hcases : quote = '"' ∨ quote = '\'' := by simpa [isQuote] using hquote
      have hsplit : (quote :: body ++ [quote]) ++ rest = quote :: (body ++ quote :: rest) := by simp
      refine ⟨next, next, ?_⟩
      rw [hsplit, nginxTokensFrom, hnext]
      rcases hcases with rfl | rfl <;>
        rw [if_neg (by decide), if_neg (by decide), if_neg (by decide), if_neg (by decide),
          if_pos (by decide)]

theorem isBare_of_isSpace {c : Char} (hc : isSpace c = true) : isBare c = false := by
  rw [isBare, hc]
  rfl

theorem isBare_of_isStructural {c : Char} (hc : isStructural c = true) : isBare c = false := by
  rw [isBare, hc, Bool.or_true]
  rfl

/-- A gap ends an unquoted token, and so does what stops one behind an empty gap. -/
theorem stops_gap {gap : Chars} (hgap : Gap gap) (hrest : Stops rest) : Stops (gap ++ rest) := by
  cases hgap with
  | nil => exact hrest
  | space hspace _ =>
      intro c hc
      obtain rfl := Option.some.inj hc
      exact isBare_of_isSpace hspace
  | comment _ _ =>
      intro c hc
      obtain rfl := Option.some.inj hc
      rfl

theorem stops_gap_of_ne {gap : Chars} (hgap : Gap gap) (hne : gap ≠ []) : Stops (gap ++ rest) := by
  cases hgap with
  | nil => exact absurd rfl hne
  | space hspace _ =>
      intro c hc
      obtain rfl := Option.some.inj hc
      exact isBare_of_isSpace hspace
  | comment _ _ =>
      intro c hc
      obtain rfl := Option.some.inj hc
      rfl

theorem stops_args {args : List Chars} {text : Chars} (hargs : ArgsText args text)
    (hrest : Stops rest) : Stops (text ++ rest) := by
  cases hargs with
  | nil hgap => exact stops_gap hgap hrest
  | cons hgap hne _ _ =>
      rw [List.append_assoc, List.append_assoc]
      exact stops_gap_of_ne hgap hne

/-- Arguments are tokens. -/
theorem nginxTokensFrom_args {args : List Chars} {text : Chars} (hargs : ArgsText args text)
    (line : ℕ) (hrest : Stops rest) : ∃ toks next, toks.map NginxToken.text = args ∧
      nginxTokensFrom line (text ++ rest) = toks ++ nginxTokensFrom next rest := by
  induction hargs generalizing line with
  | nil hgap =>
      obtain ⟨next, hnext⟩ := nginxTokensFrom_gap hgap line rest
      exact ⟨[], next, rfl, hnext⟩
  | @cons gap value text more values hgap hne harg hmore ih =>
      obtain ⟨start, hstart⟩ := nginxTokensFrom_gap hgap line (text ++ (more ++ rest))
      obtain ⟨first, next, hfirst⟩ := nginxTokensFrom_arg harg start (stops_args hmore hrest)
      obtain ⟨toks, last, htoks, hlast⟩ := ih next
      refine ⟨⟨value, first⟩ :: toks, last, by rw [List.map_cons, htoks], ?_⟩
      rw [List.append_assoc, List.append_assoc, hstart, hfirst, hlast]
      rfl

end Tokens

/-! ## The parser on the tokens of a tree -/

section Parser

theorem not_isStructure_of_plainWord {name : Chars} (hname : PlainWord name) :
    ¬ IsStructure name := by
  have hchar : ∀ c, name = [c] → isStructural c = false := by
    rintro c rfl
    have hbare := (hname.plain c List.mem_cons_self).1
    rw [← Bool.not_eq_true]
    intro hstructural
    rw [isBare_of_isStructural hstructural] at hbare
    cases hbare
  rintro (hc | hc | hc) <;> exact absurd (hchar _ hc) (by decide)

/-- Words are collected. -/
theorem statementsFrom_words {toks : List NginxToken} (htoks : ∀ tok ∈ toks, ¬ IsStructure tok.text)
    (frames : ℕ) (rest : List NginxToken) (out : List NginxStatement) (cur : List NginxToken) :
    statementsFrom frames (toks ++ rest) out cur =
      statementsFrom frames rest out (cur ++ toks) := by
  induction toks generalizing cur with
  | nil => rw [List.nil_append, List.append_nil]
  | cons tok toks ih =>
      rw [List.cons_append, statementsFrom_word (htoks tok List.mem_cons_self),
        ih fun other hother => htoks other (List.mem_cons_of_mem tok hother), List.append_assoc]
      rfl

/-- A name and its arguments are collected. -/
theorem statementsFrom_directive {gap name argsText rest : Chars} {args : List Chars}
    (hgap : Gap gap) (hname : PlainWord name) (hargs : ArgsText args argsText) (hrest : Stops rest)
    (hplain : ∀ arg ∈ args, ¬ IsStructure arg) (frames line : ℕ) (out : List NginxStatement) :
    ∃ first next toks, toks.map NginxToken.text = args ∧
      statementsFrom frames (nginxTokensFrom line (gap ++ name ++ argsText ++ rest)) out [] =
        statementsFrom frames (nginxTokensFrom next rest) out (⟨name, first⟩ :: toks) := by
  obtain ⟨start, hstart⟩ := nginxTokensFrom_gap hgap line (name ++ (argsText ++ rest))
  obtain ⟨toks, next, htoks, hnext⟩ := nginxTokensFrom_args hargs start hrest
  have hwords : ∀ tok ∈ (⟨name, start⟩ :: toks : List NginxToken), ¬ IsStructure tok.text := by
    intro tok htok
    rcases List.mem_cons.mp htok with rfl | htok
    · exact not_isStructure_of_plainWord hname
    · refine hplain tok.text ?_
      rw [← htoks]
      exact List.mem_map_of_mem htok
  refine ⟨start, next, toks, htoks, ?_⟩
  rw [List.append_assoc, List.append_assoc, hstart,
    nginxTokensFrom_word hname (stops_args hargs hrest), hnext]
  exact statementsFrom_words hwords frames (nginxTokensFrom next rest) out []

theorem stops_structural {c : Char} (hc : isStructural c = true) (rest : Chars) :
    Stops (c :: rest) := by
  intro first hfirst
  obtain rfl := Option.some.inj hfirst
  exact isBare_of_isStructural hc

/-- **The parser on a text that starts with trees**, nested as deep as there are frames. -/
theorem statements_body {trees : List NginxTree} {text : Chars} (hbody : BodyText trees text)
    {frames : ℕ} (hdepth : nginxDepth trees ≤ frames) (hplain : ∀ tree ∈ trees, tree.Plain)
    (line : ℕ) (rest : Chars) (out : List NginxStatement) :
    ∃ next statements, statementTrees statements = trees ∧
      statementsFrom frames (nginxTokensFrom line (text ++ rest)) out [] =
        statementsFrom frames (nginxTokensFrom next rest) (out ++ statements) [] := by
  induction hbody generalizing frames line rest out with
  | nil hgap =>
      obtain ⟨next, hnext⟩ := nginxTokensFrom_gap hgap line rest
      exact ⟨next, [], rfl, by rw [hnext, List.append_nil]⟩
  | @simple gap name argsText more args trees hgap hname hargs _ ih =>
      have hargsPlain : ∀ arg ∈ args, ¬ IsStructure arg := by
        cases hplain _ List.mem_cons_self with
        | simple hargs => exact hargs
      have hmoreDepth : nginxDepth trees ≤ frames := (le_max_right _ _).trans hdepth
      obtain ⟨first, next, toks, rfl, hdirective⟩ := statementsFrom_directive hgap hname hargs
        (stops_structural (c := ';') rfl (more ++ rest)) hargsPlain frames line out
      obtain ⟨last, statements, rfl, hrest⟩ := ih hmoreDepth
        (fun tree htree => hplain tree (List.mem_cons_of_mem _ htree)) next rest
        (out ++ [.simple name (toks.map NginxToken.text) first])
      refine ⟨last, .simple name (toks.map NginxToken.text) first :: statements, rfl, ?_⟩
      rw [List.append_assoc, List.cons_append, hdirective, nginxTokensFrom_structural rfl,
        statementsFrom_semicolon rfl]
      refine hrest.trans ?_
      rw [List.append_assoc]
      rfl
  | @block gap name argsText inner more args body trees hgap hname hargs _ _ ihInner ihMore =>
      obtain ⟨hargsPlain, hbodyPlain⟩ : (∀ arg ∈ args, ¬ IsStructure arg) ∧
          ∀ tree ∈ body, tree.Plain := by
        cases hplain _ List.mem_cons_self with
        | block hargs hbody => exact ⟨hargs, hbody⟩
      have hmoreDepth : nginxDepth trees ≤ frames := (le_max_right _ _).trans hdepth
      have hblockDepth : nginxDepth body + 1 ≤ frames := (le_max_left _ _).trans hdepth
      -- The block takes one of the frames.
      obtain ⟨fewer, rfl⟩ : ∃ fewer, frames = fewer + 1 :=
        Nat.exists_eq_add_of_le' (le_trans (Nat.le_add_left 1 _) hblockDepth)
      obtain ⟨first, next, toks, rfl, hdirective⟩ := statementsFrom_directive hgap hname hargs
        (stops_structural (c := '{') rfl (inner ++ '}' :: more ++ rest)) hargsPlain (fewer + 1) line
        out
      obtain ⟨close, blockStatements, rfl, hinner⟩ := ihInner (Nat.le_of_succ_le_succ hblockDepth)
        hbodyPlain next ('}' :: more ++ rest) []
      rw [List.cons_append, nginxTokensFrom_structural rfl, statementsFrom_close rfl,
        List.nil_append] at hinner
      obtain ⟨last, statements, rfl, hrest⟩ := ihMore hmoreDepth
        (fun tree htree => hplain tree (List.mem_cons_of_mem _ htree)) close rest
        (out ++ [.block name (toks.map NginxToken.text) first blockStatements])
      refine ⟨last, .block name (toks.map NginxToken.text) first blockStatements :: statements,
        rfl, ?_⟩
      have hsplit : gap ++ name ++ argsText ++ '{' :: inner ++ '}' :: more ++ rest =
          gap ++ name ++ argsText ++ '{' :: (inner ++ '}' :: more ++ rest) := by simp
      rw [hsplit, hdirective, nginxTokensFrom_structural rfl, statementsFrom_open rfl,
        List.append_assoc, List.cons_append, hinner]
      refine hrest.trans ?_
      rw [List.append_assoc]
      rfl

/-- The end of a file has no tokens. -/
theorem nginxTokensFrom_comment {comment : Chars} (hcomment : '\n' ∉ comment) (line : ℕ) :
    nginxTokensFrom line ('#' :: comment) = [] := by
  have hdrop : comment.dropWhile (· ≠ '\n') = [] := by
    have hall : ∀ c ∈ comment, decide (c ≠ '\n') = true := by
      intro c hc
      have hne : c ≠ '\n' := by
        rintro rfl
        exact hcomment hc
      simpa using hne
    exact List.dropWhile_eq_nil_iff.mpr hall
  rw [nginxTokensFrom, if_neg (by decide), if_neg (by decide), if_pos rfl, hdrop, nginxTokensFrom]

/-- The parser on a file. -/
theorem statements_file {trees : List NginxTree} {text : Chars} (hfile : FileText trees text)
    {frames : ℕ} (hdepth : nginxDepth trees ≤ frames) (hplain : ∀ tree ∈ trees, tree.Plain) :
    ∃ statements, statementTrees statements = trees ∧
      nginxStatements frames (nginxTokens text) = .ok (statements, []) := by
  have hend : ∀ {body rest : Chars}, BodyText trees body →
      (∀ line, nginxTokensFrom line rest = []) → ∃ statements, statementTrees statements = trees ∧
        nginxStatements frames (nginxTokens (body ++ rest)) = .ok (statements, []) := by
    intro body rest hbody hrest
    obtain ⟨next, statements, htrees, hparse⟩ := statements_body hbody hdepth hplain 1 rest []
    refine ⟨statements, htrees, ?_⟩
    rw [nginxStatements, nginxTokens, hparse, hrest, statementsFrom_nil, List.nil_append]
  cases hfile with
  | ended hbody =>
      have hnil : ∀ line, nginxTokensFrom line [] = [] := fun line => by rw [nginxTokensFrom]
      have hfound := hend hbody hnil
      rw [List.append_nil] at hfound
      exact hfound
  | comment hbody hcomment => exact hend hbody (nginxTokensFrom_comment hcomment)

/-! ## What the parser returns -/

/-- A tree that the parser can return where so many frames are left. -/
structure NginxTree.Readable (frames : ℕ) (tree : NginxTree) : Prop where
  plain : tree.Plain
  depth : tree.depth ≤ frames

/-- The trees of statements that the parser can return. -/
def AllReadable (frames : ℕ) (statements : List NginxStatement) : Prop :=
  ∀ tree ∈ statementTrees statements, tree.Readable frames

section Readable

variable {frames : ℕ} {cur : List NginxToken} {out body : List NginxStatement}

theorem AllReadable.nil : AllReadable frames [] := List.forall_mem_nil _

theorem AllReadable.append {first second : List NginxStatement} (hfirst : AllReadable frames first)
    (hsecond : AllReadable frames second) : AllReadable frames (first ++ second) := by
  rw [AllReadable, statementTrees_append]
  exact List.forall_mem_append.mpr ⟨hfirst, hsecond⟩

/-- The arguments of a statement are its words behind the first. -/
theorem args_of_words {first : NginxToken} {rest : List NginxToken}
    (hcur : ∀ tok ∈ first :: rest, ¬ IsStructure tok.text) :
    ∀ arg ∈ rest.map NginxToken.text, ¬ IsStructure arg := by
  intro arg harg
  obtain ⟨tok, htok, rfl⟩ := List.mem_map.mp harg
  exact hcur tok (List.mem_cons_of_mem first htok)

theorem readable_simpleStatement (hcur : ∀ tok ∈ cur, ¬ IsStructure tok.text) :
    AllReadable frames (simpleStatement cur) := by
  cases cur with
  | nil => nofun
  | cons first rest =>
      intro tree htree
      obtain rfl := List.mem_singleton.mp htree
      exact ⟨.simple (args_of_words hcur), Nat.zero_le frames⟩

/-- A block is nested one deeper than what is in it. -/
theorem readable_blockStatement (hcur : ∀ tok ∈ cur, ¬ IsStructure tok.text)
    (hbody : AllReadable frames body) : AllReadable (frames + 1) (blockStatement body cur) := by
  cases cur with
  | nil => nofun
  | cons first rest =>
      intro tree htree
      obtain rfl := List.mem_singleton.mp htree
      have hdepth : nginxDepth (statementTrees body) ≤ frames :=
        nginxDepth_le_iff.mpr fun tree htree => (hbody tree htree).depth
      exact ⟨.block (args_of_words hcur) fun tree htree => (hbody tree htree).plain,
        Nat.succ_le_succ hdepth⟩

/-- **No statement of the parser has an argument that is taken for structure, and none is nested
deeper than there are frames.** -/
theorem statementsFrom_readable {toks left : List NginxToken} {result : List NginxStatement}
    (hout : AllReadable frames out) (hcur : ∀ tok ∈ cur, ¬ IsStructure tok.text)
    (hread : statementsFrom frames toks out cur = .ok (result, left)) :
    AllReadable frames result := by
  let Keeps (frames : ℕ) (state : List NginxStatement × List NginxToken) : Prop :=
    AllReadable frames state.1 ∧ ∀ tok ∈ state.2, ¬ IsStructure tok.text
  have hstate : Keeps frames (out, cur) := ⟨hout, hcur⟩
  apply BlockReader.readBlock_nested (P := Keeps) (Q := AllReadable) _ _ _ _ hstate hread
  · intro frames
    exact ⟨.nil, List.forall_mem_nil _⟩
  · rintro frames ⟨out, cur⟩ tok hplain ⟨hout, hcur⟩
    by_cases hsemicolon : tok.text = [';']
    · have htoken : nginxReader.token (out, cur) tok = (out ++ simpleStatement cur, []) :=
        if_pos hsemicolon
      rw [htoken]
      exact ⟨hout.append (readable_simpleStatement hcur), nofun⟩
    · have htoken : nginxReader.token (out, cur) tok = (out, cur ++ [tok]) := if_neg hsemicolon
      have hword : ¬ IsStructure tok.text := by
        rintro (h | h | h)
        · exact hsemicolon h
        · rw [show nginxReader.bracket tok = .opens from if_pos h] at hplain
          cases hplain
        · have hcloses : nginxBracket tok = .closes := by
            rw [nginxBracket, if_neg (by rw [h]; decide), if_pos h]
          rw [show nginxReader.bracket tok = .closes from hcloses] at hplain
          cases hplain
      rw [htoken]
      exact ⟨hout, List.forall_mem_append.mpr ⟨hcur, List.forall_mem_singleton.mpr hword⟩⟩
  · rintro frames ⟨out, cur⟩ body ⟨hout, hcur⟩ hbody
    exact ⟨hout.append (readable_blockStatement hcur hbody), nofun⟩
  · rintro frames ⟨out, cur⟩ ⟨hout, -⟩
    exact hout

end Readable

end Parser

/-- The trees that come back. -/
def nginxTrees (frames : ℕ) (text : Chars) : Except RecursionError (List NginxTree) :=
  (nginxStatements frames (nginxTokens text)).map fun found => statementTrees found.1

/-- **A tree that was written down is read back, exactly if none of its arguments is a brace or a
semicolon and its blocks are nested no deeper than the interpreter has frames.** -/
theorem nginx_roundTrip_iff {trees : List NginxTree} {text : Chars} (hfile : FileText trees text)
    (frames : ℕ) :
    nginxTrees frames text = .ok trees ↔
      (∀ tree ∈ trees, tree.Plain) ∧ nginxDepth trees ≤ frames := by
  constructor
  · intro hsame
    rw [nginxTrees] at hsame
    cases hparse : nginxStatements frames (nginxTokens text) with
    | error =>
        rw [hparse] at hsame
        cases hsame
    | ok found =>
        rw [hparse] at hsame
        obtain rfl : statementTrees found.1 = trees := Except.ok.inj hsame
        have hreadable : AllReadable frames found.1 :=
          statementsFrom_readable .nil (List.forall_mem_nil _) hparse
        exact ⟨fun tree htree => (hreadable tree htree).plain,
          nginxDepth_le_iff.mpr fun tree htree => (hreadable tree htree).depth⟩
  · rintro ⟨hplain, hdepth⟩
    obtain ⟨statements, htrees, hparse⟩ := statements_file hfile hdepth hplain
    rw [nginxTrees, hparse, ← htrees]
    rfl

/-- `http { log_format x "}"; server { listen 443 ssl; } }`. -/
def serverInHttp : List NginxTree :=
  [.block "http".toList []
    [.simple "log_format".toList ["x".toList, "\x7d".toList],
      .block "server".toList [] [.simple "listen".toList ["443".toList, "ssl".toList]]]]

theorem plainWord_of_all {text : Chars} (hne : text ≠ [])
    (hall : (text.all fun c => isBare c && !isQuote c && c != '\\') = true) : PlainWord text := by
  refine ⟨hne, fun c hc => ?_⟩
  have hplain := List.all_eq_true.mp hall c hc
  simp only [Bool.and_eq_true, Bool.not_eq_true', bne_iff_ne] at hplain
  exact ⟨hplain.1.1, hplain.1.2, hplain.2⟩

theorem serverInHttp_text :
    FileText serverInHttp "http\x7blog_format x \"\x7d\";server\x7blisten 443 ssl;\x7d\x7d".toList := by
  have hspace : Gap [' '] := .space rfl .nil
  have hformat : ArgsText ["x".toList, "\x7d".toList] " x \"\x7d\"".toList :=
    .cons hspace (by decide) (.bare (plainWord_of_all (by decide) (by decide)))
      (.cons hspace (by decide) (.quoted (show isQuote '"' = true from rfl) (.plain (by decide) (by decide) .nil))
        (.nil .nil))
  have hlisten : ArgsText ["443".toList, "ssl".toList] " 443 ssl".toList :=
    .cons hspace (by decide) (.bare (plainWord_of_all (by decide) (by decide)))
      (.cons hspace (by decide) (.bare (plainWord_of_all (by decide) (by decide))) (.nil .nil))
  have hserver : BodyText [.block "server".toList []
      [.simple "listen".toList ["443".toList, "ssl".toList]]] "server\x7blisten 443 ssl;\x7d".toList :=
    .block .nil (plainWord_of_all (by decide) (by decide)) (.nil .nil)
      (.simple .nil (plainWord_of_all (by decide) (by decide)) hlisten (.nil .nil)) (.nil .nil)
  exact .ended (.block .nil (plainWord_of_all (by decide) (by decide)) (.nil .nil)
    (.simple .nil (plainWord_of_all (by decide) (by decide)) hformat hserver) (.nil .nil))

/-- The name of a directive. -/
def NginxTree.name : NginxTree → Chars
  | .simple name _ => name
  | .block name _ _ => name

/-- The quoted brace closes the `http` block, and the server is none of its directives. -/
theorem not_roundTrip_serverInHttp :
    FileText serverInHttp "http\x7blog_format x \"\x7d\";server\x7blisten 443 ssl;\x7d\x7d".toList ∧
      (nginxTrees 2 "http\x7blog_format x \"\x7d\";server\x7blisten 443 ssl;\x7d\x7d".toList).map
        (List.map NginxTree.name) = .ok ["http".toList, "server".toList] ∧
      nginxTrees 2 "http\x7blog_format x \"\x7d\";server\x7blisten 443 ssl;\x7d\x7d".toList ≠
        .ok serverInHttp := by
  have hnames : (nginxTrees 2
      "http\x7blog_format x \"\x7d\";server\x7blisten 443 ssl;\x7d\x7d".toList).map
        (List.map NginxTree.name) = .ok ["http".toList, "server".toList] := by decide +kernel
  refine ⟨serverInHttp_text, hnames, fun hsame => ?_⟩
  rw [hsame] at hnames
  exact absurd hnames (by decide)

/-- A server with a quoted port, and an empty comment at the end. -/
theorem server_roundTrip :
    FileText [.block "server".toList [] [.simple "listen".toList ["443".toList]]]
        "server\x7blisten '443';\x7d#".toList ∧
      nginxTrees 900 "server\x7blisten '443';\x7d#".toList =
        .ok [.block "server".toList [] [.simple "listen".toList ["443".toList]]] := by
  have hfile : FileText [.block "server".toList [] [.simple "listen".toList ["443".toList]]]
      "server\x7blisten '443';\x7d#".toList := by
    have hlisten : ArgsText ["443".toList] " '443'".toList :=
      .cons (.space rfl .nil) (by decide) (.quoted (show isQuote '\'' = true from rfl)
        (.plain (by decide) (by decide) (.plain (by decide) (by decide)
          (.plain (by decide) (by decide) .nil)))) (.nil .nil)
    have hnewline : '\n' ∉ ([] : Chars) := List.not_mem_nil
    exact .comment (.block .nil (plainWord_of_all (by decide) (by decide)) (.nil .nil)
      (.simple .nil (plainWord_of_all (by decide) (by decide)) hlisten (.nil .nil)) (.nil .nil))
      hnewline
  refine ⟨hfile, (nginx_roundTrip_iff hfile 900).mpr ⟨?_, by decide⟩⟩
  intro tree htree
  obtain rfl := List.mem_singleton.mp htree
  refine .block nofun fun inner hinner => ?_
  obtain rfl := List.mem_singleton.mp hinner
  refine .simple fun arg harg => ?_
  obtain rfl := List.mem_singleton.mp harg
  unfold IsStructure
  decide

end PqcReadiness.Config
