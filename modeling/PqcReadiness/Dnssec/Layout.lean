import Mathlib.Data.List.Chain
import PqcReadiness.Dnssec.NamedConf

/-!
# Layout of `named.conf`

A document is a tree of statements with whitespace and comments between its lexemes.  If no quoted
string and no line comment in it spoils it, it comes back from `parse_named_conf` exactly if it is
nested no deeper than there are frames (`parseNamedConf_text`).

## Strategy

Both passes go through the pieces of a document one after the other: the first as long as no piece
leaves a block comment open (`blockFree_append`), the second as long as a piece is part of one line
(`stripLines_append`).  What is left of a line comment then has to be blank.
-/

namespace PqcReadiness.Dnssec

open PqcReadiness.Lib

/-! ## The first pass -/

section FirstPass

variable {text rest : List Char}

theorem blockFree_of_some {c : Char} {after : List Char}
    (hafter : afterBlock (c :: rest) = some after) : blockFree (c :: rest) = ' ' :: blockFree after := by
  rw [blockFree]
  split
  · next other hother => rw [Option.some.inj (hother.symm.trans hafter)]
  · next hnone => cases hnone.symm.trans hafter

theorem blockFree_of_none {c : Char} (hnone : afterBlock (c :: rest) = none) :
    blockFree (c :: rest) = c :: blockFree rest := by
  rw [blockFree]
  split
  · next other hother => cases hother.symm.trans hnone
  · rfl

/-- A text with a `/*` that it does not close. -/
def leavesOpen : List Char → Bool
  | [] => false
  | c :: rest =>
      match _hafter : afterBlock (c :: rest) with
      | some after => leavesOpen after
      | none => ['/', '*'].isPrefixOf (c :: rest) || leavesOpen rest
termination_by text => text.length
decreasing_by
  · exact length_afterBlock _hafter
  · simp

theorem afterBlock_append {after : List Char} (hafter : afterBlock text = some after) :
    afterBlock (text ++ rest) = some (after ++ rest) := by
  unfold afterBlock at hafter
  split at hafter
  · next inner =>
      obtain ⟨⟨body, after⟩, hcut, rfl⟩ := Option.map_eq_some_iff.mp hafter
      rw [List.cons_append, List.cons_append, afterBlock, cut_append_of_some rest hcut]
      rfl
  · cases hafter

theorem afterBlock_eq_none (hstart : ¬ ['/', '*'] <+: text) : afterBlock text = none := by
  unfold afterBlock
  split
  · next inner => exact absurd ⟨inner, rfl⟩ hstart
  · rfl

theorem suffix_of_afterBlock {after : List Char} (hafter : afterBlock text = some after) :
    after <:+ text := by
  unfold afterBlock at hafter
  split at hafter
  · next inner =>
      obtain ⟨⟨body, after⟩, hcut, rfl⟩ := Option.map_eq_some_iff.mp hafter
      refine ⟨'/' :: '*' :: (body ++ ['*', '/']), ?_⟩
      rw [eq_of_cut hcut]
      simp
  · cases hafter

/-- Two characters that do not begin a text, and do not stand where it meets what is behind it. -/
theorem not_pair_prefix_append {first second c : Char} (hnot : ¬ [first, second] <+: c :: text)
    (hseam : (c :: text).getLast? = some first → rest.head? ≠ some second) :
    ¬ [first, second] <+: c :: (text ++ rest) := by
  rintro ⟨tail, htail⟩
  obtain ⟨rfl, hbehind⟩ := List.cons.inj htail
  cases text with
  | nil =>
      refine hseam rfl ?_
      rw [List.nil_append] at hbehind
      rw [← hbehind]
      rfl
  | cons d text =>
      obtain ⟨rfl, _⟩ := List.cons.inj hbehind
      exact hnot ⟨text, rfl⟩

theorem getLast?_tail {c d : Char} (hlast : text.getLast? = some d) :
    (c :: text).getLast? = some d := by
  rw [← hlast]
  cases text with
  | nil => cases hlast
  | cons e text => exact List.getLast?_cons_cons

/-- A text that closes its block comments is gone through for itself, where it does not end in half
an opening that goes on behind it. -/
theorem blockFree_append (hclosed : leavesOpen text = false)
    (hseam : text.getLast? = some '/' → rest.head? ≠ some '*') :
    blockFree (text ++ rest) = blockFree text ++ blockFree rest := by
  fun_induction leavesOpen text with
  | case1 => simp [blockFree]
  | case2 c text after hafter ih =>
      have hlast : after.getLast? = some '/' → rest.head? ≠ some '*' := by
        intro hafterLast
        refine hseam ?_
        obtain ⟨before, hbefore⟩ := suffix_of_afterBlock hafter
        rw [← hbefore, List.getLast?_append, hafterLast]
        rfl
      have hwhole : afterBlock (c :: (text ++ rest)) = some (after ++ rest) :=
        afterBlock_append hafter
      rw [List.cons_append, blockFree_of_some hwhole, blockFree_of_some hafter, ih hclosed hlast,
        List.cons_append]
  | case3 c text hnone ih =>
      obtain ⟨hstart, hrest⟩ := Bool.or_eq_false_iff.mp hclosed
      have hopens : ¬ ['/', '*'] <+: c :: (text ++ rest) := not_pair_prefix_append
        (fun h => by cases hstart.symm.trans (List.isPrefixOf_iff_prefix.mpr h)) hseam
      have hlast : text.getLast? = some '/' → rest.head? ≠ some '*' := fun h =>
        hseam (getLast?_tail h)
      rw [List.cons_append, blockFree_of_none (afterBlock_eq_none hopens), blockFree_of_none hnone,
        ih hrest hlast, List.cons_append]

/-- A text without an opening is left as it is. -/
theorem closed_of_no_opening (hnone : ¬ ['/', '*'] <:+: text) :
    leavesOpen text = false ∧ blockFree text = text := by
  induction text with
  | nil => exact ⟨by rw [leavesOpen], by rw [blockFree]⟩
  | cons c text ih =>
      rw [List.infix_cons_iff, not_or] at hnone
      obtain ⟨hclosed, hsame⟩ := ih hnone.2
      have hafter := afterBlock_eq_none hnone.1
      constructor
      · rw [leavesOpen]
        split
        · next other hother => cases hother.symm.trans hafter
        · rw [hclosed, Bool.or_false]
          exact Bool.eq_false_iff.mpr fun h => hnone.1 (List.isPrefixOf_iff_prefix.mp h)
      · rw [blockFree_of_none hafter, hsame]

/-- A block comment. -/
theorem cut_block {body : List Char} (hbody : ¬ ['*', '/'] <:+: body) :
    cut ['*', '/'] (body ++ '*' :: '/' :: rest) = some (body, rest) := by
  induction body with
  | nil => rfl
  | cons c body ih =>
      rw [List.infix_cons_iff, not_or] at hbody
      have hstart : ¬ ['*', '/'].isPrefixOf (c :: (body ++ '*' :: '/' :: rest)) = true := by
        intro hstart
        obtain ⟨tail, htail⟩ := List.isPrefixOf_iff_prefix.mp hstart
        obtain ⟨rfl, hbehind⟩ := List.cons.inj htail
        cases body with
        | nil => cases hbehind
        | cons d body =>
            obtain ⟨rfl, _⟩ := List.cons.inj hbehind
            exact hbody.1 ⟨body, rfl⟩
      rw [List.cons_append, cut, if_neg hstart, ih hbody.2]
      rfl

theorem blockFree_block {body : List Char} (hbody : ¬ ['*', '/'] <:+: body) :
    blockFree ('/' :: '*' :: (body ++ '*' :: '/' :: rest)) = ' ' :: blockFree rest := by
  refine blockFree_of_some ?_
  rw [afterBlock, cut_block hbody]
  rfl

end FirstPass

/-! ## The second pass -/

section SecondPass

variable {text rest line : List Char}

theorem stripLines_nil : stripLines [] = [] := rfl

/-- Text of one line is gone through for itself, if it does not change how the line goes on. -/
theorem stripLines_append (hline : IsLine text) (hne : text ≠ []) {out : List Char}
    (hstrip : ∀ line, line <+: rest →
      stripLine false (text ++ line) = out ++ stripLine false line) :
    stripLines (text ++ rest) = out ++ stripLines rest := by
  rw [stripLines, stripLines, splitLinesChars_line_append hline hne]
  cases hlines : splitLinesChars rest with
  | nil =>
      have hempty := hstrip [] List.nil_prefix
      rw [List.append_nil] at hempty
      simpa [stripLine] using hempty
  | cons first lines =>
      have hfirst := hstrip first (prefix_of_splitLinesChars first (by rw [hlines]; rfl))
      cases lines with
      | nil => simpa using hfirst
      | cons second lines =>
          simp only [List.map_cons, List.intercalate_cons_cons, hfirst, List.append_assoc]

/-- A line break. -/
theorem stripLines_break {c : Char} (hc : isLineBreak c = true) :
    stripLines (c :: rest) = stripLines rest ∨
      stripLines (c :: rest) = '\n' :: stripLines rest := by
  by_cases hcrlf : c = '\r' ∧ rest.head? = some '\n'
  · obtain ⟨rfl, hhead⟩ := hcrlf
    cases rest with
    | nil => cases hhead
    | cons d rest =>
        obtain rfl : d = '\n' := Option.some.inj hhead
        exact .inl rfl
  · have hsplit := @splitLinesChars_break rest c hc fun hcr hhead => hcrlf ⟨hcr, hhead⟩
    rw [stripLines, stripLines, hsplit]
    cases splitLinesChars rest with
    | nil => exact .inl rfl
    | cons first lines => exact .inr (by simp [stripLine])

/-- What begins with a line break begins with a newline. -/
theorem head_stripLines_break {c : Char} (hc : isLineBreak c = true) :
    ∀ d ∈ (stripLines (c :: rest)).head?, d = '\n' := by
  obtain ⟨lines, hlines⟩ : ∃ lines, splitLinesChars (c :: rest) = [] :: lines := by
    by_cases hcrlf : c = '\r' ∧ rest.head? = some '\n'
    · obtain ⟨rfl, hhead⟩ := hcrlf
      cases rest with
      | nil => cases hhead
      | cons d rest =>
          obtain rfl : d = '\n' := Option.some.inj hhead
          exact ⟨_, rfl⟩
    · exact ⟨_, splitLinesChars_break hc fun hcr hhead => hcrlf ⟨hcr, hhead⟩⟩
  rw [stripLines, hlines]
  cases lines with
  | nil => nofun
  | cons line lines => exact fun d hd => (Option.some.inj hd).symm

/-- A line break behind some text. -/
theorem stripLines_append_newline (text rest : List Char) :
    ∃ breaks, (∀ c ∈ breaks, c = '\n') ∧ (rest ≠ [] → breaks ≠ []) ∧
      stripLines (text ++ '\n' :: rest) = stripLines text ++ (breaks ++ stripLines rest) := by
  obtain ⟨lines, hlines, hne, hsplit⟩ := splitLinesChars_append_newline text rest
  -- The lines of the text alone, with a newline behind them where an empty line was added.
  obtain ⟨added, hadded, hjoin⟩ : ∃ added, (∀ c ∈ added, c = '\n') ∧
      ['\n'].intercalate (lines.map (stripLine false)) = stripLines text ++ added := by
    rcases hlines with rfl | rfl
    · exact ⟨[], nofun, (List.append_nil _).symm⟩
    · rw [stripLines, List.map_append]
      cases hfirst : (splitLinesChars text).map (stripLine false) with
      | nil => exact ⟨[], nofun, rfl⟩
      | cons first more =>
          refine ⟨['\n'], by simp, ?_⟩
          exact intercalate_append (List.cons_ne_nil first more) (List.cons_ne_nil _ _)
  cases hrest : splitLinesChars rest with
  | nil =>
      obtain rfl := splitLinesChars_eq_nil_iff.mp hrest
      refine ⟨added, hadded, fun h => absurd rfl h, ?_⟩
      rw [stripLines, hsplit, hrest, List.append_nil, hjoin, stripLines_nil, List.append_nil]
  | cons first more =>
      refine ⟨added ++ ['\n'], ?_, fun _ => by simp, ?_⟩
      · intro c hc
        exact (List.mem_append.mp hc).elim (hadded c) List.mem_singleton.mp
      · rw [stripLines, hsplit, List.map_append, intercalate_append
          (by simpa using hne) (by rw [hrest]; simp), hjoin, List.append_assoc, List.append_assoc]
        rfl

theorem stripLine_cons {quoted : Bool} {c : Char} (hquote : c ≠ '"')
    (hcomment : quoted = false → c ≠ '#' ∧ ¬ ['/', '/'] <+: c :: line) :
    stripLine quoted (c :: line) = c :: stripLine quoted line := by
  rw [stripLine]
  simp only [if_neg hquote]
  refine if_neg ?_
  rintro ⟨hquoted, hhash | hslashes⟩
  · exact (hcomment hquoted).1 hhash
  · exact (hcomment hquoted).2 hslashes

/-- A line without comments and quotes. -/
theorem stripLine_plain (hquote : '"' ∉ text) (hhash : '#' ∉ text)
    (hslashes : ¬ ['/', '/'] <:+: text)
    (hseam : text.getLast? = some '/' → line.head? ≠ some '/') :
    stripLine false (text ++ line) = text ++ stripLine false line := by
  induction text with
  | nil => rfl
  | cons c text ih =>
      rw [List.mem_cons, not_or] at hquote hhash
      rw [List.infix_cons_iff, not_or] at hslashes
      have hlast : text.getLast? = some '/' → line.head? ≠ some '/' := fun h =>
        hseam (getLast?_tail h)
      have hstart : ¬ ['/', '/'] <+: c :: (text ++ line) :=
        not_pair_prefix_append hslashes.1 hseam
      rw [List.cons_append, stripLine_cons (Ne.symm hquote.1) fun _ => ⟨Ne.symm hhash.1, hstart⟩,
        ih hquote.2 hhash.2 hslashes.2 hlast, List.cons_append]

theorem stripLine_quote (quoted : Bool) (line : List Char) :
    stripLine quoted ('"' :: line) = '"' :: stripLine (!quoted) line := by
  rw [stripLine]
  simp only [if_true]
  refine if_neg ?_
  rintro ⟨_, hhash | hslashes⟩
  · cases hhash
  · obtain ⟨tail, htail⟩ := hslashes
    cases htail

/-- The inside of a quoted string. -/
theorem stripLine_quoted (hquote : '"' ∉ text) :
    stripLine true (text ++ line) = text ++ stripLine true line := by
  induction text with
  | nil => rfl
  | cons c text ih =>
      rw [List.mem_cons, not_or] at hquote
      rw [List.cons_append, stripLine_cons (Ne.symm hquote.1) (fun h => absurd h (by decide)),
        ih hquote.2, List.cons_append]

end SecondPass

/-! ## Tokens -/

section Tokens

variable {text rest : List Char}

theorem findTokens_space {c : Char} (hc : isSpace c = true) :
    findTokens (c :: rest) = findTokens rest := by
  have hquote : c ≠ '"' := by
    rintro rfl
    cases hc
  have hpunctuation : ['{', '}', ';'].contains c = false := by
    rw [Bool.eq_false_iff]
    intro hcontains
    have hmem : c = '{' ∨ c = '}' ∨ c = ';' := by simpa using hcontains
    rcases hmem with rfl | rfl | rfl <;> cases hc
  rw [findTokens, if_neg hquote, hpunctuation, if_neg (by decide), if_pos hc]

theorem findTokens_blank (hblank : ∀ c ∈ text, isSpace c = true) :
    findTokens (text ++ rest) = findTokens rest := by
  induction text with
  | nil => rfl
  | cons c text ih =>
      rw [List.cons_append, findTokens_space (hblank c List.mem_cons_self)]
      exact ih fun d hd => hblank d (List.mem_cons_of_mem c hd)

theorem findTokens_nil : findTokens [] = [] := by
  rw [findTokens]

/-- A word in front of something else. -/
theorem findTokens_word (hne : text ≠ []) (hword : ∀ c ∈ text, isWordChar c = true)
    (hrest : ∀ c ∈ rest.head?, isWordChar c = false) :
    findTokens (text ++ rest) = text :: findTokens rest := by
  cases text with
  | nil => exact absurd rfl hne
  | cons c text =>
      have hc := hword c List.mem_cons_self
      have htext : ∀ d ∈ text, isWordChar d = true := fun d hd =>
        hword d (List.mem_cons_of_mem c hd)
      rw [isWordChar, Bool.and_eq_true, Bool.not_eq_true', Bool.not_eq_true'] at hc
      obtain ⟨hspace, hmarks⟩ := hc
      have hquote : c ≠ '"' := by
        rintro rfl
        cases hmarks
      have hpunctuation : ['{', '}', ';'].contains c = false := by
        rw [Bool.eq_false_iff]
        intro hcontains
        have hmem : c = '{' ∨ c = '}' ∨ c = ';' := by simpa using hcontains
        rcases hmem with rfl | rfl | rfl <;> cases hmarks
      have hdrop : (text ++ rest).dropWhile isWordChar = rest := dropWhile_append_of htext hrest
      have htake : (text ++ rest).takeWhile isWordChar = text := by
        have hsplit := @List.takeWhile_append_dropWhile _ isWordChar (text ++ rest)
        rw [hdrop] at hsplit
        exact List.append_cancel_right hsplit
      rw [List.cons_append, findTokens, if_neg hquote, hpunctuation, if_neg (by decide), hspace,
        if_neg (by decide), htake, hdrop]

theorem quotedBody_append (hquote : '"' ∉ text) (hbackslash : '\\' ∉ text) :
    quotedBody (text ++ '"' :: rest) = some (text, rest) := by
  induction text with
  | nil => rfl
  | cons c text ih =>
      rw [List.mem_cons, not_or] at hquote hbackslash
      rw [List.cons_append, quotedBody, ih hquote.2 hbackslash.2]
      · rfl
      · exact fun h => hquote.1 h.symm
      · exact fun h => absurd h.symm hbackslash.1
      · exact fun _ _ h => absurd h.symm hbackslash.1

theorem findTokens_quoted (quoted : QuotedText) :
    findTokens (quoted.token ++ rest) = quoted.token :: findTokens rest := by
  have hbody := @quotedBody_append _ rest quoted.no_quote quoted.no_backslash
  have htext : quoted.token ++ rest = '"' :: (quoted.chars ++ '"' :: rest) := by
    simp [QuotedText.token]
  rw [htext, findTokens, if_pos rfl]
  split
  · next body after hfound =>
      obtain ⟨rfl, rfl⟩ := Prod.mk.inj (Option.some.inj (hfound.symm.trans hbody))
      rfl
  · next hnone => cases hnone.symm.trans hbody

end Tokens

/-! ## Documents -/

/-- How a line comment begins. -/
inductive Mark where
  | slashes
  | hash
  deriving DecidableEq

/-- Its characters. -/
def Mark.chars : Mark → List Char
  | slashes => ['/', '/']
  | hash => ['#']

/-- A line comment. -/
structure LineComment where
  mark : Mark
  text : List Char
  no_newline : '\n' ∉ text

/-- Its characters, up to the newline. -/
def LineComment.chars (comment : LineComment) : List Char := comment.mark.chars ++ comment.text

/-- The text of a block comment. -/
structure BlockText where
  chars : List Char
  no_end : ¬ ['*', '/'] <:+: chars

/-- A piece of a document. -/
inductive Piece where
  | lexeme (lexeme : Lexeme)
  | space (c : Char) (isSpace : isSpace c = true)
  | line (comment : LineComment)
  | comment (text : BlockText)

namespace Piece

/-- The characters of a piece. -/
def chars : Piece → List Char
  | .lexeme found => found.token
  | .space c _ => [c]
  | .line remark => remark.chars
  | .comment text => '/' :: '*' :: (text.chars ++ ['*', '/'])

/-- Its lexeme, if it is one. -/
def lexeme? : Piece → Option Lexeme
  | .lexeme found => some found
  | _ => none

/-- Whether it is a word. -/
def IsWord : Piece → Prop
  | .lexeme (.word _) => True
  | _ => False

/-- What may stand behind a piece.  Two words have something between them, and so has a word that
ends in `/` in front of `//`; a line comment goes on to the newline. -/
def MayPrecede : Piece → Piece → Prop
  | .lexeme (.word word), next =>
      ¬ next.IsWord ∧ (word.chars.getLast? = some '/' →
        ∀ remark, next = .line remark → remark.mark ≠ .slashes)
  | .line _, next => next.chars = ['\n']
  | _, _ => True

end Piece

/-- A tree of statements, and pieces that spell it. -/
structure Document where
  stmts : Stmts
  pieces : List Piece
  spells : pieces.filterMap Piece.lexeme? = stmts.lexemes
  separated : pieces.IsChain Piece.MayPrecede

/-- The text of a document. -/
def Document.text (doc : Document) : List Char := doc.pieces.flatMap Piece.chars

/-- A quoted string without `/*` and without line breaks of any kind. -/
structure QuotedText.Plain (text : QuotedText) : Prop where
  no_opening : ¬ ['/', '*'] <:+: text.chars
  isLine : IsLine text.chars

/-- A line comment that leaves no block comment open, and of which nothing is left to see. -/
structure LineComment.Hidden (comment : LineComment) : Prop where
  closed : leavesOpen comment.chars = false
  blank : ∀ c ∈ stripComments comment.chars, isSpace c = true

/-- A piece that spoils nothing. -/
def Piece.Harmless : Piece → Prop
  | .lexeme (.quoted text) => text.Plain
  | .line remark => remark.Hidden
  | _ => True

/-! ## Reading a document -/

section Pieces

variable {pieces : List Piece}

/-- The text of pieces after the first pass. -/
def firstPass (pieces : List Piece) : List Char := blockFree (pieces.flatMap Piece.chars)

/-- What the text of pieces begins with, if not with a word. -/
theorem head_flatMap {piece : Piece} (hword : ¬ piece.IsWord) :
    ∀ c ∈ (piece.chars ++ pieces.flatMap Piece.chars).head?, isWordChar c = false ∨
      c = '#' ∨ c = '/' := by
  cases piece with
  | lexeme found =>
      cases found with
      | word word => exact absurd trivial hword
      | quoted text => exact fun c hc => .inl (by obtain rfl : '"' = c := Option.some.inj hc; rfl)
      | openBrace => exact fun c hc => .inl (by obtain rfl : '{' = c := Option.some.inj hc; rfl)
      | closeBrace => exact fun c hc => .inl (by obtain rfl : '}' = c := Option.some.inj hc; rfl)
      | semicolon => exact fun c hc => .inl (by obtain rfl : ';' = c := Option.some.inj hc; rfl)
  | space d hd =>
      intro c hc
      obtain rfl : d = c := Option.some.inj hc
      exact .inl (by rw [isWordChar, hd]; rfl)
  | line remark =>
      intro c hc
      cases hmark : remark.mark with
      | slashes =>
          rw [Piece.chars, LineComment.chars, hmark] at hc
          exact .inr (.inr (Option.some.inj hc).symm)
      | hash =>
          rw [Piece.chars, LineComment.chars, hmark] at hc
          exact .inr (.inl (Option.some.inj hc).symm)
  | comment text => exact fun c hc => .inr (.inr (Option.some.inj hc).symm)

theorem firstPass_comment (text : BlockText) :
    firstPass (.comment text :: pieces) = ' ' :: firstPass pieces := by
  have htext : (Piece.comment text :: pieces).flatMap Piece.chars =
      '/' :: '*' :: (text.chars ++ '*' :: '/' :: pieces.flatMap Piece.chars) := by
    simp [Piece.chars]
  rw [firstPass, htext, blockFree_block text.no_end]
  rfl

/-- The text of a piece that begins no block comment. -/
theorem firstPass_cons {piece : Piece} (hclosed : leavesOpen piece.chars = false)
    (hseam : piece.chars.getLast? = some '/' → (pieces.flatMap Piece.chars).head? ≠ some '*') :
    firstPass (piece :: pieces) = blockFree piece.chars ++ firstPass pieces := by
  rw [firstPass, List.flatMap_cons, blockFree_append hclosed hseam]
  rfl

/-- What follows a word begins with something else. -/
theorem flatMap_head_ne_star (hnext : ∀ next ∈ pieces.head?, ¬ Piece.IsWord next) :
    (pieces.flatMap Piece.chars).head? ≠ some '*' := by
  cases pieces with
  | nil => nofun
  | cons next pieces =>
      intro hstar
      rcases head_flatMap (hnext next rfl) '*' hstar with h | h | h <;> cases h

theorem firstPass_word {word : Word} (hnext : ∀ next ∈ pieces.head?, ¬ Piece.IsWord next) :
    firstPass (.lexeme (.word word) :: pieces) = word.chars ++ firstPass pieces := by
  obtain ⟨hclosed, hsame⟩ := closed_of_no_opening word.no_block
  have hcons := @firstPass_cons pieces (.lexeme (.word word)) hclosed
    fun _ => flatMap_head_ne_star hnext
  rw [hcons]
  exact congrArg (· ++ firstPass pieces) hsame

theorem firstPass_quoted {text : QuotedText} (hplain : text.Plain) :
    firstPass (.lexeme (.quoted text) :: pieces) = text.token ++ firstPass pieces := by
  have hnone : ¬ ['/', '*'] <:+: text.token := by
    intro hoccurs
    have hquote : '"' ∉ ['/', '*'] := by decide
    rcases @infix_append_cons _ _ [] (text.chars ++ ['"']) _ hquote hoccurs with hinner | hinner
    · cases List.infix_nil.mp hinner
    · rcases @infix_append_cons _ _ text.chars [] _ hquote hinner with h | h
      · exact hplain.no_opening h
      · cases List.infix_nil.mp h
  obtain ⟨hclosed, hsame⟩ := closed_of_no_opening hnone
  have hlast : text.token.getLast? = some '"' := List.getLast?_concat
  have hcons := @firstPass_cons pieces (.lexeme (.quoted text)) hclosed fun hslash => by
    cases hlast.symm.trans hslash
  rw [hcons]
  exact congrArg (· ++ firstPass pieces) hsame

/-- A character that is no part of an opening. -/
theorem firstPass_single {piece : Piece} {c : Char} (hchars : piece.chars = [c]) (hc : c ≠ '/') :
    firstPass (piece :: pieces) = c :: firstPass pieces := by
  have hnone : ¬ ['/', '*'] <:+: [c] := by
    intro hoccurs
    exact hc (List.mem_singleton.mp (hoccurs.subset List.mem_cons_self)).symm
  obtain ⟨hclosed, hsame⟩ := closed_of_no_opening hnone
  rw [← hchars] at hclosed hsame
  rw [firstPass_cons hclosed fun hlast => ?_, hsame, hchars]
  · rfl
  · rw [hchars] at hlast
    exact absurd (Option.some.inj hlast) hc

theorem firstPass_line {remark : LineComment} (hclosed : leavesOpen remark.chars = false)
    (hnext : ∀ next ∈ pieces.head?, Piece.chars next = ['\n']) :
    firstPass (.line remark :: pieces) = blockFree remark.chars ++ firstPass pieces := by
  refine firstPass_cons hclosed fun _ => ?_
  cases pieces with
  | nil => nofun
  | cons next pieces =>
      rw [List.flatMap_cons, hnext next rfl]
      nofun

theorem blockFree_cons {c : Char} (hc : c ≠ '/') (text : List Char) :
    blockFree (c :: text) = c :: blockFree text := by
  refine blockFree_of_none (afterBlock_eq_none ?_)
  rintro ⟨tail, htail⟩
  exact hc (List.cons.inj htail).1.symm

/-- In front of `//` there is something after a word that ends in `/`. -/
theorem firstPass_head_ne_slash {word : Word} (hlast : word.chars.getLast? = some '/')
    (hnext : ∀ next ∈ pieces.head?, Piece.MayPrecede (.lexeme (.word word)) next) :
    (firstPass pieces).head? ≠ some '/' := by
  cases pieces with
  | nil => rw [firstPass, List.flatMap_nil, blockFree]; rintro ⟨⟩
  | cons next pieces =>
      obtain ⟨hword, hslashes⟩ := hnext next rfl
      cases next with
      | comment text => rw [firstPass_comment]; rintro ⟨⟩
      | line remark =>
          cases hmark : remark.mark with
          | slashes => exact absurd hmark (hslashes hlast remark rfl)
          | hash =>
              have htext : (Piece.line remark :: pieces).flatMap Piece.chars =
                  '#' :: (remark.text ++ pieces.flatMap Piece.chars) := by
                simp [Piece.chars, LineComment.chars, hmark, Mark.chars]
              rw [firstPass, htext, blockFree_cons (by decide)]
              rintro ⟨⟩
      | space c hc =>
          have hne : c ≠ '/' := by
            rintro rfl
            cases hc
          rw [firstPass_single rfl hne]
          exact fun h => hne (Option.some.inj h)
      | lexeme found =>
          cases found with
          | word other => exact absurd trivial hword
          | quoted text =>
              have htext : (Piece.lexeme (.quoted text) :: pieces).flatMap Piece.chars =
                  '"' :: (text.chars ++ '"' :: pieces.flatMap Piece.chars) := by
                simp [Piece.chars, Lexeme.token, QuotedText.token]
              rw [firstPass, htext, blockFree_cons (by decide)]
              rintro ⟨⟩
          | openBrace => rw [firstPass_single rfl (by decide)]; rintro ⟨⟩
          | closeBrace => rw [firstPass_single rfl (by decide)]; rintro ⟨⟩
          | semicolon => rw [firstPass_single rfl (by decide)]; rintro ⟨⟩

theorem Word.isLine (word : Word) : IsLine word.chars := by
  intro c hc
  have hword := word.isWord c hc
  by_contra hbreak
  rw [isWordChar, isSpace_of_isLineBreak (by simpa using hbreak)] at hword
  cases hword

theorem stripLines_word {word : Word} {rest : List Char}
    (hseam : word.chars.getLast? = some '/' → rest.head? ≠ some '/') :
    stripLines (word.chars ++ rest) = word.chars ++ stripLines rest := by
  have hquote : '"' ∉ word.chars := fun hmem => by cases word.isWord '"' hmem
  refine stripLines_append word.isLine word.ne_nil fun line hline => ?_
  refine stripLine_plain hquote word.no_hash word.no_slashes fun hlast hhead => ?_
  obtain ⟨tail, rfl⟩ := hline
  cases line with
  | nil => cases hhead
  | cons c line => exact hseam hlast hhead

theorem stripLines_quoted {text : QuotedText} (hplain : text.Plain) (rest : List Char) :
    stripLines (text.token ++ rest) = text.token ++ stripLines rest := by
  have hline : IsLine text.token := by
    intro c hc
    rcases List.mem_append.mp hc with hc | hc
    · rcases List.mem_cons.mp hc with rfl | hc
      · rfl
      · exact hplain.isLine c hc
    · obtain rfl := List.mem_singleton.mp hc
      rfl
  refine stripLines_append hline (by simp [QuotedText.token]) fun line _ => ?_
  have htoken : text.token ++ line = '"' :: (text.chars ++ '"' :: line) := by
    simp [QuotedText.token]
  rw [htoken, stripLine_quote, Bool.not_false, stripLine_quoted text.no_quote, stripLine_quote,
    Bool.not_true]
  simp [QuotedText.token]

/-- A character that is no part of a comment, a quote or a line break. -/
theorem stripLines_single {c : Char} (hbreak : isLineBreak c = false)
    (hother : c ≠ '"' ∧ c ≠ '#' ∧ c ≠ '/') (rest : List Char) :
    stripLines (c :: rest) = c :: stripLines rest := by
  have hline : IsLine [c] := by
    intro d hd
    rwa [List.mem_singleton.mp hd]
  refine @stripLines_append [c] rest hline (List.cons_ne_nil c []) [c] fun line _ => ?_
  refine stripLine_cons hother.1 fun _ => ⟨hother.2.1, ?_⟩
  rintro ⟨tail, htail⟩
  exact hother.2.2 (List.cons.inj htail).1.symm

/-- What both passes leave of pieces. -/
def secondPass (pieces : List Piece) : List Char := stripLines (firstPass pieces)

/-- The tokens of pieces, and whether a word in front of them goes on in them. -/
structure Reads (pieces : List Piece) : Prop where
  tokens : findTokens (secondPass pieces) =
    (pieces.filterMap Piece.lexeme?).map Lexeme.token
  head : (∀ next ∈ pieces.head?, ¬ Piece.IsWord next) →
    ∀ c ∈ (secondPass pieces).head?, isWordChar c = false

theorem isWordChar_of_isSpace {c : Char} (hc : isSpace c = true) : isWordChar c = false := by
  rw [isWordChar, hc]
  rfl

theorem Reads.nil : Reads [] := by
  have hempty : secondPass [] = [] := by
    rw [secondPass, firstPass, List.flatMap_nil, blockFree]
    rfl
  constructor
  · rw [hempty, findTokens_nil]
    rfl
  · rw [hempty]
    rintro _ _ ⟨⟩

/-- A blank in front. -/
theorem Reads.blank {c : Char} {piece : Piece} (hreads : Reads pieces) (hc : isSpace c = true)
    (hpass : firstPass (piece :: pieces) = c :: firstPass pieces) (hnone : piece.lexeme? = none) :
    Reads (piece :: pieces) := by
  have hboth : findTokens (secondPass (piece :: pieces)) = findTokens (secondPass pieces) ∧
      ∀ d ∈ (secondPass (piece :: pieces)).head?, isSpace d = true := by
    rw [secondPass, secondPass, hpass]
    cases hbreak : isLineBreak c with
    | true =>
        refine ⟨?_, fun d hd => by rw [head_stripLines_break hbreak d hd]; rfl⟩
        rcases @stripLines_break (firstPass pieces) c hbreak with h | h
        · rw [h]
        · rw [h, findTokens_space (by decide)]
    | false =>
        have hother : c ≠ '"' ∧ c ≠ '#' ∧ c ≠ '/' := by
          refine ⟨?_, ?_, ?_⟩ <;> rintro rfl <;> cases hc
        rw [stripLines_single hbreak hother]
        exact ⟨findTokens_space hc, fun d hd => by rwa [← Option.some.inj hd]⟩
  constructor
  · rw [hboth.1, hreads.tokens, List.filterMap_cons_none hnone]
  · exact fun _ d hd => isWordChar_of_isSpace (hboth.2 d hd)

/-- A lexeme in front, once it is known what is read of it. -/
theorem Reads.lexeme {found : Lexeme} {piece : Piece} (hreads : Reads pieces)
    (hpass : secondPass (piece :: pieces) = found.token ++ secondPass pieces)
    (htokens : findTokens (found.token ++ secondPass pieces) =
      found.token :: findTokens (secondPass pieces))
    (hpiece : piece.lexeme? = some found)
    (hhead : ¬ piece.IsWord → ∃ c rest, found.token = c :: rest ∧ isWordChar c = false) :
    Reads (piece :: pieces) := by
  constructor
  · rw [hpass, htokens, hreads.tokens, List.filterMap_cons_some hpiece, List.map_cons]
  · intro hword c hc
    obtain ⟨first, rest, htoken, hfirst⟩ := hhead (hword piece rfl)
    rw [hpass, htoken] at hc
    rwa [← Option.some.inj hc]

/-- A word in front. -/
theorem Reads.word {word : Word} (hreads : Reads pieces)
    (hnext : ∀ next ∈ pieces.head?, Piece.MayPrecede (.lexeme (.word word)) next) :
    Reads (.lexeme (.word word) :: pieces) := by
  have hothers : ∀ next ∈ pieces.head?, ¬ Piece.IsWord next := fun next h => (hnext next h).1
  refine @Reads.lexeme pieces (.word word) _ hreads ?_ ?_ rfl fun h => absurd trivial h
  · rw [secondPass, firstPass_word hothers]
    exact stripLines_word fun hlast => firstPass_head_ne_slash hlast hnext
  · exact findTokens_word word.ne_nil word.isWord (hreads.head hothers)

/-- A quoted string in front. -/
theorem Reads.quoted {text : QuotedText} (hreads : Reads pieces) (hplain : text.Plain) :
    Reads (.lexeme (.quoted text) :: pieces) := by
  refine @Reads.lexeme pieces (.quoted text) _ hreads ?_ (findTokens_quoted text) rfl
    fun _ => ⟨'"', _, rfl, rfl⟩
  rw [secondPass, firstPass_quoted hplain]
  exact stripLines_quoted hplain _

/-- A line comment in front. -/
theorem Reads.line {remark : LineComment} (hreads : Reads pieces) (hhidden : remark.Hidden)
    (hnext : ∀ next ∈ pieces.head?, Piece.chars next = ['\n']) :
    Reads (.line remark :: pieces) := by
  have hblank : ∀ c ∈ stripLines (blockFree remark.chars), isSpace c = true := hhidden.blank
  have hpass : secondPass (.line remark :: pieces) =
      stripLines (blockFree remark.chars ++ firstPass pieces) := by
    rw [secondPass, firstPass_line hhidden.closed hnext]
  cases pieces with
  | nil =>
      have hempty : firstPass [] = [] := by rw [firstPass, List.flatMap_nil, blockFree]
      rw [hempty, List.append_nil] at hpass
      constructor
      · have htokens := @findTokens_blank _ [] hblank
        rw [List.append_nil, findTokens_nil] at htokens
        rw [hpass, htokens]
        rfl
      · intro _ c hc
        rw [hpass] at hc
        exact isWordChar_of_isSpace (hblank c (List.mem_of_mem_head? hc))
  | cons next pieces =>
      have hnewline : firstPass (next :: pieces) = '\n' :: firstPass pieces :=
        firstPass_single (hnext next rfl) (by decide)
      obtain ⟨breaks, hbreaks, hne, hstrip⟩ :=
        stripLines_append_newline (blockFree remark.chars) (firstPass pieces)
      have hspaces : ∀ c ∈ breaks, isSpace c = true := fun c hc => by rw [hbreaks c hc]; rfl
      rw [hnewline, hstrip] at hpass
      have hsame : findTokens (secondPass (next :: pieces)) =
          findTokens (stripLines (firstPass pieces)) := by
        rw [secondPass, hnewline]
        rcases @stripLines_break (firstPass pieces) '\n' rfl with h | h
        · rw [h]
        · rw [h, findTokens_space (by decide)]
      constructor
      · rw [hpass, findTokens_blank hblank, findTokens_blank hspaces, ← hsame, hreads.tokens]
        rfl
      · intro _ c hc
        rw [hpass] at hc
        cases hfirst : stripLines (blockFree remark.chars) with
        | cons d rest =>
            rw [hfirst] at hc hblank
            obtain rfl : d = c := Option.some.inj hc
            exact isWordChar_of_isSpace (hblank d List.mem_cons_self)
        | nil =>
            cases breaks with
            | cons d rest =>
                rw [hfirst] at hc
                obtain rfl : d = c := Option.some.inj hc
                exact isWordChar_of_isSpace (hspaces d List.mem_cons_self)
            | nil =>
                -- Nothing follows the newline.
                have hempty : firstPass pieces = [] := by
                  by_contra hmore
                  exact hne hmore rfl
                rw [hfirst, hempty, stripLines_nil] at hc
                cases hc

end Pieces

end PqcReadiness.Dnssec
