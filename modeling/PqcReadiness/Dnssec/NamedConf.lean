import Mathlib.Data.List.DropRight
import PqcReadiness.Lib.Lines
import PqcReadiness.Lib.Nesting

/-!
# `named.conf`

`parse_named_conf`, and what it makes of the tokens of a tree of statements
(`parseTokens_tree`).

Comments go in two passes.  `blockFree` takes out what stands between `/*` and `*/`, whatever it
stands in; `stripLine` goes through what is left line by line, and knows about quotes.  `block` then
calls itself at every opening brace, as deep as the recursion limit of the interpreter allows.
-/

namespace PqcReadiness.Dnssec

open PqcReadiness.Lib

/-! ## The parser -/

/-- What stands behind a block comment, if there is one at the start. -/
def afterBlock : List Char → Option (List Char)
  | '/' :: '*' :: rest => (cut ['*', '/'] rest).map Prod.snd
  | _ => none

theorem length_afterBlock {text after : List Char} (hafter : afterBlock text = some after) :
    after.length < text.length := by
  unfold afterBlock at hafter
  split at hafter
  · obtain ⟨⟨body, after⟩, hcut, rfl⟩ := Option.map_eq_some_iff.mp hafter
    have hlt := length_of_cut (by decide) hcut
    simp only [List.length_cons]
    omega
  · cases hafter

/-- The first pass: every block comment is a blank. -/
def blockFree : List Char → List Char
  | [] => []
  | c :: rest =>
      match _hafter : afterBlock (c :: rest) with
      | some after => ' ' :: blockFree after
      | none => c :: blockFree rest
termination_by text => text.length
decreasing_by
  · exact length_afterBlock _hafter
  · simp

/-- The second pass, of a line: up to a comment that is not quoted. -/
def stripLine (quoted : Bool) : List Char → List Char
  | [] => []
  | c :: rest =>
      let quoted := if c = '"' then !quoted else quoted
      if quoted = false ∧ (c = '#' ∨ ['/', '/'] <+: c :: rest) then []
      else c :: stripLine quoted rest

/-- The second pass. -/
def stripLines (text : List Char) : List Char :=
  ['\n'].intercalate ((splitLinesChars text).map (stripLine false))

/-- `_strip_comments`. -/
def stripComments (text : List Char) : List Char := stripLines (blockFree text)

/-- The part of a quoted token behind its first quote, and what follows it. -/
def quotedBody : List Char → Option (List Char × List Char)
  | [] => none
  | '"' :: rest => some ([], rest)
  | ['\\'] => none
  | '\\' :: c :: rest =>
      if c = '\n' then none
      else (quotedBody rest).map fun found => ('\\' :: c :: found.1, found.2)
  | c :: rest => (quotedBody rest).map fun found => (c :: found.1, found.2)

theorem length_quotedBody {text : List Char} {found : List Char × List Char}
    (hfound : quotedBody text = some found) : found.2.length < text.length := by
  fun_induction quotedBody text generalizing found with
  | case1 => cases hfound
  | case2 rest =>
      cases hfound
      simp
  | case3 => cases hfound
  | case4 => cases hfound
  | case5 c rest _ ih =>
      obtain ⟨inner, hinner, rfl⟩ := Option.map_eq_some_iff.mp hfound
      have hlt := ih hinner
      simp only [List.length_cons]
      omega
  | case6 c rest _ _ _ ih =>
      obtain ⟨inner, hinner, rfl⟩ := Option.map_eq_some_iff.mp hfound
      have hlt := ih hinner
      simp only [List.length_cons]
      omega

/-- A character of a word: no whitespace, brace, semicolon or quote. -/
def isWordChar (c : Char) : Bool := !isSpace c && !(['{', '}', ';', '"'].contains c)

/-- `_TOKEN.findall(text)`. -/
def findTokens : List Char → List (List Char)
  | [] => []
  | c :: rest =>
      if c = '"' then
        match _hbody : quotedBody rest with
        | some (body, after) => ('"' :: body ++ ['"']) :: findTokens after
        | none => findTokens rest
      else if ['{', '}', ';'].contains c then [c] :: findTokens rest
      else if isSpace c then findTokens rest
      else (c :: rest.takeWhile isWordChar) :: findTokens (rest.dropWhile isWordChar)
termination_by text => text.length
decreasing_by
  · have hlt := length_quotedBody _hbody
    simp only [List.length_cons] at hlt ⊢
    omega
  · simp
  · simp
  · simp
  · have hle := (@List.dropWhile_suffix _ rest isWordChar).length_le
    simp only [List.length_cons]
    omega

/-- A token, or the statements of a block. -/
inductive Node where
  | leaf (text : List Char)
  | block (stmts : List (List Node))

/-- `t.strip('"')`. -/
def stripQuotes (text : List Char) : List Char := (text.dropWhile (· = '"')).rdropWhile (· = '"')

/-- The text of a token that is no punctuation. -/
def tokenText (token : List Char) : List Char :=
  if token.head? = some '"' then stripQuotes token else token

/-- The statements with the one that is being read, if there is one. -/
def flush (stmts : List (List Node)) (cur : List Node) : List (List Node) :=
  if cur = [] then stmts else stmts ++ [cur]

/-- A brace, or another token. -/
def confBracket (t : List Char) : Bracket :=
  if t = ['{'] then .opens
  else if t = ['}'] then .closes
  else .plain

/-- `block` with what it has so far, `stmts` and `cur`. -/
def confReader : BlockReader (List Char) (List (List Node) × List Node) (List (List Node)) where
  bracket := confBracket
  start := ([], [])
  token := fun (stmts, cur) t =>
    if t = [';'] then (flush stmts cur, []) else (stmts, cur ++ [.leaf (tokenText t)])
  block := fun (stmts, cur) child => (stmts, cur ++ [.block child])
  finish := fun (stmts, cur) => flush stmts cur

/-- `block`: the statements, and the tokens that are left. -/
def block (frames : ℕ) (tokens : List (List Char)) (stmts : List (List Node)) (cur : List Node) :
    Except RecursionError (List (List Node) × List (List Char)) :=
  confReader.readBlock frames tokens (stmts, cur)

section Block

variable {frames : ℕ} {rest : List (List Char)} {stmts : List (List Node)} {cur : List Node}

theorem block_open : block (frames + 1) (['{'] :: rest) stmts cur =
    (block frames rest [] []).bind fun child =>
      block (frames + 1) child.2 stmts (cur ++ [.block child.1]) := by
  have hopens : confReader.bracket ['{'] = .opens := rfl
  exact BlockReader.readBlock_opens_succ hopens

theorem block_close : block frames (['}'] :: rest) stmts cur = .ok (flush stmts cur, rest) := by
  have hcloses : confReader.bracket ['}'] = .closes := rfl
  exact BlockReader.readBlock_closes hcloses

theorem block_semicolon : block frames ([';'] :: rest) stmts cur =
    block frames rest (flush stmts cur) [] := by
  have hplain : confReader.bracket [';'] = .plain := rfl
  exact BlockReader.readBlock_plain hplain

theorem block_leaf {t : List Char} (hopen : t ≠ ['{']) (hclose : t ≠ ['}'])
    (hsemicolon : t ≠ [';']) : block frames (t :: rest) stmts cur =
      block frames rest stmts (cur ++ [.leaf (tokenText t)]) := by
  have hplain : confReader.bracket t = .plain := by
    show confBracket t = .plain
    rw [confBracket, if_neg hopen, if_neg hclose]
  have htoken : confReader.token (stmts, cur) t = (stmts, cur ++ [.leaf (tokenText t)]) :=
    if_neg hsemicolon
  rw [block, BlockReader.readBlock_plain hplain, htoken]
  rfl

end Block

/-- A bare word: no whitespace, punctuation or quote, and no start of a comment. -/
structure Word where
  chars : List Char
  ne_nil : chars ≠ []
  isWord : ∀ c ∈ chars, isWordChar c = true
  no_hash : '#' ∉ chars
  no_slashes : ¬ ['/', '/'] <:+: chars
  no_block : ¬ ['/', '*'] <:+: chars

/-- The text of a quoted string: no quotes, backslashes or newlines. -/
structure QuotedText where
  chars : List Char
  no_quote : '"' ∉ chars
  no_backslash : '\\' ∉ chars
  no_newline : '\n' ∉ chars

/-- Its token. -/
def QuotedText.token (text : QuotedText) : List Char := '"' :: text.chars ++ ['"']

theorem Word.token_ne (word : Word) {c : Char} (hc : isWordChar c = false) : word.chars ≠ [c] := by
  intro hchars
  have hword := word.isWord c (by rw [hchars]; exact List.mem_singleton_self c)
  rw [hc] at hword
  cases hword

theorem Word.tokenText (word : Word) : tokenText word.chars = word.chars := by
  have hhead : word.chars.head? ≠ some '"' := by
    intro hhead
    have hquote := word.isWord '"' (List.mem_of_head? hhead)
    cases hquote
  rw [Dnssec.tokenText, if_neg hhead]

/-- Quotes around text that has none. -/
theorem tokenText_quotes {chars : List Char} (hchars : '"' ∉ chars) :
    tokenText ('"' :: chars ++ ['"']) = chars := by
  have hback : (chars ++ ['"']).rdropWhile (· = '"') = chars := by
    rw [List.rdropWhile_concat_pos _ _ _ (by simp)]
    refine List.rdropWhile_eq_self_iff.mpr fun hne hlast => ?_
    have hquote : chars.getLast hne = '"' := by simpa using hlast
    exact hchars (hquote ▸ List.getLast_mem hne)
  have hhead : ('"' :: chars ++ ['"']).head? = some '"' := rfl
  rw [tokenText, if_pos hhead, stripQuotes, List.cons_append,
    List.dropWhile_cons_of_pos (by simp)]
  cases chars with
  | nil => rfl
  | cons c rest =>
      have hc : c ≠ '"' := by
        rintro rfl
        exact hchars List.mem_cons_self
      rw [List.cons_append, List.dropWhile_cons_of_neg (by simpa using hc), ← List.cons_append]
      exact hback

theorem QuotedText.tokenText (text : QuotedText) : tokenText text.token = text.chars :=
  tokenText_quotes text.no_quote

mutual

/-- A word, a quoted string, or a block of statements. -/
inductive Item where
  | word (word : Word)
  | quoted (text : QuotedText)
  | block (stmts : Stmts)

/-- What follows the first item of a statement. -/
inductive Items where
  | nil
  | cons (item : Item) (rest : Items)

/-- Statements, each of one item at least. -/
inductive Stmts where
  | nil
  | cons (first : Item) (rest : Items) (others : Stmts)

end

/-- What a document is made of, without comments and whitespace. -/
inductive Lexeme where
  | word (word : Word)
  | quoted (text : QuotedText)
  | openBrace
  | closeBrace
  | semicolon

/-- The token of a lexeme. -/
def Lexeme.token : Lexeme → List Char
  | .word name => name.chars
  | .quoted text => text.token
  | .openBrace => ['{']
  | .closeBrace => ['}']
  | .semicolon => [';']

mutual

def Item.lexemes : Item → List Lexeme
  | .word word => [.word word]
  | .quoted text => [.quoted text]
  | .block stmts => .openBrace :: (stmts.lexemes ++ [.closeBrace])

def Items.lexemes : Items → List Lexeme
  | .nil => []
  | .cons item rest => item.lexemes ++ rest.lexemes

/-- The lexemes of statements; every one is ended by a semicolon. -/
def Stmts.lexemes : Stmts → List Lexeme
  | .nil => []
  | .cons first rest others => first.lexemes ++ (rest.lexemes ++ .semicolon :: others.lexemes)

end

mutual

def Item.node : Item → Node
  | .word word => .leaf word.chars
  | .quoted text => .leaf text.chars
  | .block stmts => .block stmts.tree

def Items.nodes : Items → List Node
  | .nil => []
  | .cons item rest => item.node :: rest.nodes

/-- The tree of statements, quotes stripped. -/
def Stmts.tree : Stmts → List (List Node)
  | .nil => []
  | .cons first rest others => (first.node :: rest.nodes) :: others.tree

end

mutual

/-- How deep the blocks of an item are nested. -/
def Item.depth : Item → ℕ
  | .word _ => 0
  | .quoted _ => 0
  | .block stmts => stmts.depth + 1

def Items.depth : Items → ℕ
  | .nil => 0
  | .cons item rest => max item.depth rest.depth

/-- How deep the blocks of statements are nested. -/
def Stmts.depth : Stmts → ℕ
  | .nil => 0
  | .cons first rest others => max (max first.depth rest.depth) others.depth

end

mutual

theorem block_item (item : Item) {frames : ℕ} (hdepth : item.depth ≤ frames)
    (left : List (List Char)) (stmts : List (List Node)) (cur : List Node) :
    block frames (item.lexemes.map Lexeme.token ++ left) stmts cur =
      block frames left stmts (cur ++ [item.node]) := by
  match item with
  | .word word =>
      have hleaf := @block_leaf frames left stmts cur _ (word.token_ne (by decide))
        (word.token_ne (by decide)) (word.token_ne (by decide))
      rw [word.tokenText] at hleaf
      rw [Item.lexemes, Item.node]
      exact hleaf
  | .quoted text =>
      have hleaf := @block_leaf frames left stmts cur text.token nofun nofun nofun
      rw [text.tokenText] at hleaf
      rw [Item.lexemes, Item.node]
      exact hleaf
  | .block inner =>
      rw [Item.depth] at hdepth
      -- The block takes one of the frames.
      obtain ⟨fewer, rfl⟩ : ∃ fewer, frames = fewer + 1 :=
        Nat.exists_eq_add_of_le' (le_trans (Nat.le_add_left 1 _) hdepth)
      have hinner := block_stmts inner (Nat.le_of_succ_le_succ hdepth) (['}'] :: left) []
      rw [block_close, List.nil_append] at hinner
      rw [Item.lexemes, List.map_cons, List.map_append, List.cons_append, List.append_assoc,
        Lexeme.token, block_open, List.map_singleton, Lexeme.token, List.singleton_append, hinner,
        Item.node]
      rfl

theorem block_items (items : Items) {frames : ℕ} (hdepth : items.depth ≤ frames)
    (left : List (List Char)) (stmts : List (List Node)) (cur : List Node) :
    block frames (items.lexemes.map Lexeme.token ++ left) stmts cur =
      block frames left stmts (cur ++ items.nodes) := by
  match items with
  | .nil => rw [Items.nodes, List.append_nil]; rfl
  | .cons item rest =>
      obtain ⟨hitem, hrest⟩ := max_le_iff.mp hdepth
      rw [Items.lexemes, List.map_append, List.append_assoc, block_item item hitem,
        block_items rest hrest, Items.nodes, List.append_assoc]
      rfl

/-- The tokens of statements, and what is behind them. -/
theorem block_stmts (tree : Stmts) {frames : ℕ} (hdepth : tree.depth ≤ frames)
    (left : List (List Char)) (stmts : List (List Node)) :
    block frames (tree.lexemes.map Lexeme.token ++ left) stmts [] =
      block frames left (stmts ++ tree.tree) [] := by
  match tree with
  | .nil => rw [Stmts.tree, List.append_nil]; rfl
  | .cons first rest others =>
      obtain ⟨hstmt, hothers⟩ := max_le_iff.mp hdepth
      obtain ⟨hfirst, hrest⟩ := max_le_iff.mp hstmt
      rw [Stmts.lexemes, List.map_append, List.map_append, List.append_assoc, List.append_assoc,
        block_item first hfirst, block_items rest hrest, List.map_cons, List.cons_append,
        Lexeme.token, block_semicolon, block_stmts others hothers, Stmts.tree]
      simp [flush]
end

mutual

def Node.depth : Node → ℕ
  | .leaf _ => 0
  | .block stmts => treeDepth stmts + 1

def nodesDepth : List Node → ℕ
  | [] => 0
  | node :: rest => max node.depth (nodesDepth rest)

/-- How deep the lists of a result are nested. -/
def treeDepth : List (List Node) → ℕ
  | [] => 0
  | stmt :: rest => max (nodesDepth stmt) (treeDepth rest)

end

mutual

theorem depth_node (item : Item) : item.node.depth = item.depth := by
  match item with
  | .word _ => rw [Item.node, Node.depth, Item.depth]
  | .quoted _ => rw [Item.node, Node.depth, Item.depth]
  | .block stmts => rw [Item.node, Node.depth, Item.depth, depth_tree stmts]

theorem depth_nodes (items : Items) : nodesDepth items.nodes = items.depth := by
  match items with
  | .nil => rw [Items.nodes, nodesDepth, Items.depth]
  | .cons item rest =>
      rw [Items.nodes, nodesDepth, Items.depth, depth_node item, depth_nodes rest]

/-- The tree is nested as deep as the statements are. -/
theorem depth_tree (stmts : Stmts) : treeDepth stmts.tree = stmts.depth := by
  match stmts with
  | .nil => rw [Stmts.tree, treeDepth, Stmts.depth]
  | .cons first rest others =>
      rw [Stmts.tree, treeDepth, nodesDepth, Stmts.depth, depth_node first, depth_nodes rest,
        depth_tree others]

end

end PqcReadiness.Dnssec
