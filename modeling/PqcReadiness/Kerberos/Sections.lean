import PqcReadiness.Kerberos.Profile

/-!
# What a file says

The lines of a profile as events: a relation with its value, or a subsection that is opened, under
its section and the tags around it.  `parseProfile_leaves` reads the sections that `parse_profile`
builds back from the events of the file: a path has a subsection if one is opened there, and
otherwise the value that it is given first.
-/

namespace PqcReadiness.Kerberos

open PqcReadiness.Lib

/-! ## Events -/

/-- A relation with its value, or a subsection that is opened. -/
structure Event where
  (section' : Chars)
  /-- The tags from the outside in, with its own. -/
  tags : List Chars
  value : Option Chars

/-- What a line says, or the files in its place. -/
inductive Piece where
  | event (event : Event)
  | directive (directive : Directive)
  | file (path : String)

/-- Where a line stands. -/
structure Place where
  (section' : Option Chars := none)
  stack : List Chars := []

/-- A line that is no directive: what it says, and the place behind it. -/
def sectionPiece (place : Place) (line : Chars) : Place × Option Event :=
  match sectionOf line with
  | some name => (⟨some name, []⟩, none)
  | none =>
      match place.section' with
      | none => (place, none)
      | some name =>
          if line.head? = some '}' then (⟨some name, place.stack.dropLast⟩, none)
          else
            match relationOf line with
            | none => (place, none)
            | some (tag, value) =>
                if value = ['{'] then
                  (⟨some name, place.stack ++ [tag]⟩, some ⟨name, place.stack ++ [tag], none⟩)
                else (place, some ⟨name, place.stack ++ [tag], some value⟩)

/-- Is the line a directive? -/
def asDirective (raw : Chars) : Option Directive :=
  if isIgnored (stripChars raw) then none else directiveOf (stripChars raw)

/-- The place behind a line. -/
def nextPlace (place : Place) (raw : Chars) : Place :=
  if isIgnored (stripChars raw) then place
  else if (asDirective raw).isSome then place
  else (sectionPiece place (stripChars raw)).1

/-- What a line says. -/
def pieceOf (place : Place) (raw : Chars) : Option Piece :=
  if isIgnored (stripChars raw) then none
  else
    match asDirective raw with
    | some directive => some (.directive directive)
    | none => (sectionPiece place (stripChars raw)).2.map .event

/-- What lines say. -/
def piecesFrom (place : Place) : List Chars → List Piece
  | [] => []
  | raw :: rest => (pieceOf place raw).toList ++ piecesFrom (nextPlace place raw) rest

/-- What a file says; it begins outside any section. -/
def pieces (text : Chars) : List Piece := piecesFrom {} (splitLinesChars text)

/-- The event of a piece. -/
def Piece.event? : Piece → Option Event
  | .event e => some e
  | _ => none

/-- The directive of a piece. -/
def Piece.directive? : Piece → Option Directive
  | .directive d => some d
  | _ => none

/-- The events of a file. -/
def eventsOf (text : Chars) : List Event := (pieces text).filterMap Piece.event?

/-- The directives stand outside subsections. -/
def OutsideFrom (place : Place) : List Chars → Prop
  | [] => True
  | raw :: rest =>
      ((asDirective raw).isSome → place.stack = []) ∧ OutsideFrom (nextPlace place raw) rest

instance decidableOutsideFrom : (place : Place) → (lines : List Chars) →
    Decidable (OutsideFrom place lines)
  | _, [] => inferInstanceAs (Decidable True)
  | place, raw :: rest =>
      have := decidableOutsideFrom (nextPlace place raw) rest
      inferInstanceAs (Decidable (((asDirective raw).isSome → place.stack = []) ∧
        OutsideFrom (nextPlace place raw) rest))

/-- The directives of a file stand outside subsections. -/
def DirectivesOutside (text : Chars) : Prop := OutsideFrom {} (splitLinesChars text)

instance (text : Chars) : Decidable (DirectivesOutside text) :=
  inferInstanceAs (Decidable (OutsideFrom {} (splitLinesChars text)))

/-- The event with the tags that the parser makes of its own. -/
def Event.lowered (lower : Chars → Chars) (event : Event) : Event :=
  { event with tags := event.tags.map lower }

/-- The value that some events give a relation first. -/
def firstValue (events : List Event) (name : Chars) (tags : List Chars) : Option Chars :=
  events.findSome? fun event =>
    if event.section' = name ∧ event.tags = tags then event.value else none

/-- Is a subsection opened here? -/
def isOpened (events : List Event) (name : Chars) (tags : List Chars) : Bool :=
  events.any fun event => event.section' = name && event.tags = tags && event.value.isNone

/-- What the events leave at a path: nothing, a subsection, or a value. -/
def leaves (events : List Event) (name : Chars) (tags : List Chars) : Option (Option Chars) :=
  if isOpened events name tags then some none else (firstValue events name tags).map some

/-- The value of a node, of which a subsection has none. -/
def Node.text? : Node → Option Chars
  | .value text => some text
  | .sub _ => none

/-- What stands at a path: nothing, a subsection, or a value. -/
def view (relations : Relations) (tags : List Chars) : Option (Option Chars) :=
  (lookup tags relations).map Node.text?

/-- The relations of a section. -/
def Profile.relations (profile : Profile) (name : Chars) : Relations :=
  (profile.get? name).getD []

/-! ## Changing subsections -/

section Trees

variable {relations : Relations} {tag : Chars} {tags path : List Chars}

theorem lookup_cons (htags : tags ≠ []) : lookup (tag :: tags) relations =
    (find tag relations).bind fun node =>
      match node with
      | .sub inner => lookup tags inner
      | .value _ => none := by
  cases tags with
  | nil => exact absurd rfl htags
  | cons next rest =>
      rw [lookup]
      · cases find tag relations with
        | none => rfl
        | some node => cases node <;> rfl
      · exact htags

/-- A path of subsections. -/
def Resolves : List Chars → Relations → Prop
  | [], _ => True
  | tag :: rest, relations =>
      ∃ inner, find tag relations = some (.sub inner) ∧ Resolves rest inner

/-- A path resolves if each of its beginnings has a subsection. -/
theorem resolves_iff : Resolves path relations ↔
    ∀ n < path.length, view relations (path.take (n + 1)) = some none := by
  induction path generalizing relations with
  | nil => exact iff_of_true trivial nofun
  | cons tag rest ih =>
      constructor
      · rintro ⟨inner, hfind, hrest⟩ n hn
        cases n with
        | zero =>
            rw [List.take_succ_cons, List.take_zero, view, lookup, hfind]
            rfl
        | succ n =>
            have hn : n < rest.length := Nat.lt_of_succ_lt_succ hn
            have htake : rest.take (n + 1) ≠ [] := by
              intro hnil
              have hlength := congrArg List.length hnil
              rw [List.length_take, List.length_nil] at hlength
              omega
            rw [List.take_succ_cons, view, lookup_cons htake, hfind]
            exact ih.mp hrest n hn
      · intro hall
        have hhead := hall 0 (Nat.zero_lt_succ _)
        rw [List.take_succ_cons, List.take_zero, view, lookup] at hhead
        cases hfind : find tag relations with
        | none => rw [hfind] at hhead; cases hhead
        | some node =>
            rw [hfind] at hhead
            cases node with
            | value text => cases hhead
            | sub inner =>
                refine ⟨inner, hfind, ih.mpr fun n hn => ?_⟩
                have htail := hall (n + 1) (Nat.succ_lt_succ hn)
                have htake : rest.take (n + 1) ≠ [] := by
                  intro hnil
                  have hlength := congrArg List.length hnil
                  rw [List.length_take, List.length_nil] at hlength
                  omega
                rw [List.take_succ_cons, view, lookup_cons htake, hfind] at htail
                exact htail

/-- A change at the top that turns what stands under one tag into something else. -/
structure ChangesAt (change : Relations → Relations) (tag : Chars)
    (now : Option (Option Chars) → Option (Option Chars)) : Prop where
  here : ∀ relations, view (change relations) [tag] = now (view relations [tag])
  elsewhere : ∀ relations tags, tags ≠ [] → tags ≠ [tag] →
    view (change relations) tags = view relations tags

theorem addValue_changesAt (tag value : Chars) :
    ChangesAt (addValue tag value) tag fun old => some (old.getD (some value)) where
  here relations := by
    rw [view, view, lookup, lookup, addValue, find_updateEntries, if_pos rfl]
    cases find tag relations <;> rfl
  elsewhere relations tags htags hne := by
    cases tags with
    | nil => exact absurd rfl htags
    | cons other rest =>
        by_cases hother : other = tag
        · subst hother
          have hrest : rest ≠ [] := by
            rintro rfl
            exact hne rfl
          rw [view, view, lookup_cons hrest, lookup_cons hrest, addValue, find_updateEntries,
            if_pos rfl]
          cases find other relations <;> rfl
        · cases rest with
          | nil => rw [view, view, lookup, lookup, addValue, find_updateEntries, if_neg hother]
          | cons next rest =>
              have hrest : next :: rest ≠ [] := List.cons_ne_nil _ _
              rw [view, view, lookup_cons hrest, lookup_cons hrest, addValue, find_updateEntries,
                if_neg hother]

theorem openSub_changesAt (tag : Chars) : ChangesAt (openSub tag) tag fun _ => some none where
  here relations := by
    rw [view, lookup, openSub, find_updateEntries, if_pos rfl]
    split <;> rfl
  elsewhere relations tags htags hne := by
    cases tags with
    | nil => exact absurd rfl htags
    | cons other rest =>
        by_cases hother : other = tag
        · subst hother
          have hrest : rest ≠ [] := by
            rintro rfl
            exact hne rfl
          rw [view, view, lookup_cons hrest, lookup_cons hrest, openSub, find_updateEntries,
            if_pos rfl]
          cases find other relations with
          | none =>
              obtain ⟨next, rest, rfl⟩ := List.exists_cons_of_ne_nil hrest
              cases rest <;> rfl
          | some node =>
              cases node with
              | value text =>
                  obtain ⟨next, rest, rfl⟩ := List.exists_cons_of_ne_nil hrest
                  cases rest <;> rfl
              | sub inner => rfl
        · cases rest with
          | nil => rw [view, view, lookup, lookup, openSub, find_updateEntries, if_neg hother]
          | cons next rest =>
              have hrest : next :: rest ≠ [] := List.cons_ne_nil _ _
              rw [view, view, lookup_cons hrest, lookup_cons hrest, openSub, find_updateEntries,
                if_neg hother]

/-- The same change at the end of a path. -/
theorem view_changeAt {change : Relations → Relations}
    {now : Option (Option Chars) → Option (Option Chars)} (hchange : ChangesAt change tag now)
    (hpath : Resolves path relations) (htags : tags ≠ []) :
    view (changeAt path change relations) tags =
      if tags = path ++ [tag] then now (view relations tags) else view relations tags := by
  induction path generalizing relations tags with
  | nil =>
      rw [changeAt, List.nil_append]
      split
      · next hsame => rw [hsame, hchange.here]
      · next hne => exact hchange.elsewhere relations tags htags hne
  | cons first path ih =>
      obtain ⟨inner, hfind, hinner⟩ := hpath
      rw [changeAt, hfind]
      obtain ⟨other, rest, rfl⟩ := List.exists_cons_of_ne_nil htags
      by_cases hrest : rest = []
      · subst hrest
        rw [if_neg (by simp), view, view, lookup, lookup, find_updateEntries]
        split
        · next hsame => rw [hsame, hfind]; rfl
        · rfl
      · rw [view, view, lookup_cons hrest, lookup_cons hrest, find_updateEntries]
        by_cases hother : other = first
        · subst hother
          rw [if_pos rfl, hfind]
          have hstep := ih hinner hrest
          simp only [List.cons_append, List.cons.injEq, true_and]
          exact hstep
        · rw [if_neg hother, if_neg]
          intro hsame
          exact hother (List.cons.inj hsame).1

end Trees

/-! ## One event more -/

section Events

variable {events : List Event} {event : Event} {name : Chars} {tags : List Chars}

theorem firstValue_concat : firstValue (events ++ [event]) name tags =
    (firstValue events name tags).or
      (if event.section' = name ∧ event.tags = tags then event.value else none) := by
  rw [firstValue, firstValue, List.findSome?_append, List.findSome?_singleton]

theorem isOpened_concat : isOpened (events ++ [event]) name tags =
    (isOpened events name tags ||
      (event.section' = name && event.tags = tags && event.value.isNone)) := by
  rw [isOpened, isOpened, List.any_append, List.any_cons, List.any_nil, Bool.or_false]

theorem leaves_concat_other (hother : ¬ (event.section' = name ∧ event.tags = tags)) :
    leaves (events ++ [event]) name tags = leaves events name tags := by
  have hnot : (event.section' = name && event.tags = tags) = false := by
    simpa using hother
  rw [leaves, leaves, isOpened_concat, firstValue_concat, if_neg hother, Option.or_none, hnot,
    Bool.false_and, Bool.or_false]

theorem leaves_concat_opened (hevent : event.value = none) :
    leaves (events ++ [event]) event.section' event.tags = some none := by
  have hopened : isOpened (events ++ [event]) event.section' event.tags = true := by
    rw [isOpened_concat, hevent]
    simp
  rw [leaves, if_pos hopened]

theorem leaves_concat_value {value : Chars} (hevent : event.value = some value) :
    leaves (events ++ [event]) event.section' event.tags =
      some ((leaves events event.section' event.tags).getD (some value)) := by
  have hopened : isOpened (events ++ [event]) event.section' event.tags =
      isOpened events event.section' event.tags := by
    rw [isOpened_concat, hevent]
    simp
  have hfirst : firstValue (events ++ [event]) event.section' event.tags =
      (firstValue events event.section' event.tags).or (some value) := by
    rw [firstValue_concat, if_pos ⟨rfl, rfl⟩, hevent]
  rw [leaves, leaves, hopened, hfirst]
  split
  · rfl
  · cases firstValue events event.section' event.tags <;> rfl

end Events

/-! ## Reading a file -/

section Reading

variable {lower : Chars → Chars} {state : ProfileState} {place : Place} {events : List Event}
  {name line : Chars} {tags : List Chars}

theorem relations_update (profile : Profile) (name other : Chars)
    (change : Option Relations → Relations) :
    Profile.relations (profile.update name change) other =
      if other = name then change (profile.get? name) else profile.relations other := by
  rw [Profile.relations, Profile.relations, Dict.get?_update]
  split <;> rfl

/-- The parser is where the lines are, and has built what their events leave. -/
structure Reads (lower : Chars → Chars) (state : ProfileState) (place : Place)
    (events : List Event) : Prop where
  current : state.current = place.section'
  stack : state.stack = place.stack.map lower
  view : ∀ name tags, tags ≠ [] →
    view (state.sections.relations name) tags = leaves events name tags
  /-- The subsections of the stack have been opened. -/
  opened : ∀ name, place.section' = some name → ∀ n < state.stack.length,
    leaves events name (state.stack.take (n + 1)) = some none

theorem Reads.resolves (hreads : Reads lower state place events)
    (hname : place.section' = some name) :
    Resolves state.stack (state.sections.relations name) := by
  rw [resolves_iff]
  intro n hn
  rw [hreads.view name _ fun hnil => ?_, hreads.opened name hname n hn]
  have hlength := congrArg List.length hnil
  rw [List.length_take, List.length_nil] at hlength
  omega

/-- A change of the innermost subsection that does what one more event says. -/
theorem Reads.view_change (hreads : Reads lower state place events)
    (hname : place.section' = some name) {tag : Chars} {value : Option Chars}
    {change : Relations → Relations} {now : Option (Option Chars) → Option (Option Chars)}
    (hchange : ChangesAt change tag now)
    (hnow : leaves (events ++ [⟨name, state.stack ++ [tag], value⟩]) name (state.stack ++ [tag]) =
      now (leaves events name (state.stack ++ [tag]))) (other : Chars) (htags : tags ≠ []) :
    Kerberos.view (Profile.relations (state.change name change) other) tags =
      leaves (events ++ [⟨name, state.stack ++ [tag], value⟩]) other tags := by
  rw [ProfileState.change, relations_update]
  split
  · next hsame =>
      subst hsame
      refine (view_changeAt hchange (hreads.resolves hname) htags).trans ?_
      rw [hreads.view other tags htags]
      split
      · next hhere => rw [hhere, hnow]
      · next hother =>
          rw [leaves_concat_other]
          rintro ⟨-, hsame⟩
          exact hother hsame.symm
  · next hother =>
      rw [hreads.view other tags htags, leaves_concat_other]
      rintro ⟨hsame, -⟩
      exact hother hsame.symm

/-- An event under the open subsections leaves them open. -/
theorem Reads.opened_concat (hreads : Reads lower state place events)
    (hname : place.section' = some name) (tag : Chars) (value : Option Chars) {n : ℕ}
    (hn : n < state.stack.length) :
    leaves (events ++ [⟨name, state.stack ++ [tag], value⟩]) name (state.stack.take (n + 1)) =
      some none := by
  rw [leaves_concat_other, hreads.opened name hname n hn]
  rintro ⟨-, hsame⟩
  have hlength := congrArg List.length hsame
  simp only [List.length_append, List.length_take, List.length_cons, List.length_nil] at hlength
  omega

theorem sectionLine_reads (hreads : Reads lower state place events) (line : Chars) :
    Reads lower (sectionLine lower state line) (sectionPiece place line).1
      (events ++ ((sectionPiece place line).2.map (Event.lowered lower)).toList) := by
  unfold sectionLine sectionPiece
  cases sectionOf line with
  | some header =>
      dsimp only [Option.map_none, Option.toList_none]
      rw [List.append_nil]
      refine ⟨rfl, rfl, fun name tags htags => ?_, fun name _ n hn => absurd hn (Nat.not_lt_zero n)⟩
      rw [relations_update]
      split
      · next hsame =>
          rw [← hreads.view name tags htags, hsame]
          rfl
      · exact hreads.view name tags htags
  | none =>
      dsimp only
      cases hsection : place.section' with
      | none =>
          rw [hreads.current.trans hsection]
          dsimp only [Option.map_none, Option.toList_none]
          rwa [List.append_nil]
      | some name =>
          rw [hreads.current.trans hsection]
          dsimp only
          split
          · -- A subsection ends.
            dsimp only [Option.map_none, Option.toList_none]
            rw [List.append_nil]
            refine ⟨rfl, ?_, hreads.view, fun other hother n hn => ?_⟩
            · rw [hreads.stack, List.map_dropLast]
            · rw [List.length_dropLast] at hn
              rw [List.dropLast_eq_take, List.take_take, Nat.min_eq_left (by omega)]
              exact hreads.opened other (hsection.trans hother) n (by omega)
          · cases relationOf line with
            | none =>
                dsimp only [Option.map_none, Option.toList_none]
                rwa [List.append_nil]
            | some relation =>
                obtain ⟨tag, value⟩ := relation
                dsimp only
                have htags : (place.stack ++ [tag]).map lower = state.stack ++ [lower tag] := by
                  rw [List.map_append, ← hreads.stack]
                  rfl
                split
                · -- A subsection begins.
                  dsimp only [Option.map_some, Option.toList_some, Event.lowered]
                  rw [htags]
                  refine ⟨rfl, htags.symm, fun other tags hne => ?_,
                    fun other hother n hn => ?_⟩
                  · exact hreads.view_change hsection (openSub_changesAt (lower tag))
                      (leaves_concat_opened rfl) other hne
                  · obtain rfl := Option.some.inj hother
                    rw [List.length_append, List.length_singleton] at hn
                    rcases Nat.lt_succ_iff_lt_or_eq.mp hn with hn | rfl
                    · rw [List.take_append_of_le_length hn]
                      exact hreads.opened_concat hsection (lower tag) none hn
                    · rw [List.take_of_length_le (by simp)]
                      exact leaves_concat_opened rfl
                · dsimp only [Option.map_some, Option.toList_some, Event.lowered]
                  rw [htags]
                  refine ⟨hsection.symm, hreads.stack, fun other tags hne => ?_,
                    fun other hother n hn => ?_⟩
                  · exact hreads.view_change hsection (addValue_changesAt (lower tag) value)
                      (leaves_concat_value rfl) other hne
                  · obtain rfl := Option.some.inj (hsection.symm.trans hother)
                    exact hreads.opened_concat hsection (lower tag) (some value) hn

/-- The events of a piece, as the parser reads them. -/
def loweredEvents (lower : Chars → Chars) (pieces : List Piece) : List Event :=
  (pieces.filterMap Piece.event?).map (Event.lowered lower)

theorem profileLine_reads (hreads : Reads lower state place events) {raw : Chars}
    (houtside : (asDirective raw).isSome → place.stack = []) :
    Reads lower (profileLine lower state raw) (nextPlace place raw)
        (events ++ loweredEvents lower (pieceOf place raw).toList) ∧
      (profileLine lower state raw).directives =
        state.directives ++ (pieceOf place raw).toList.filterMap Piece.directive? := by
  unfold profileLine nextPlace pieceOf
  dsimp only
  by_cases hignored : isIgnored (stripChars raw) = true
  · rw [if_pos hignored, if_pos hignored, if_pos hignored]
    exact ⟨by simpa [loweredEvents] using hreads, by simp⟩
  · have hdirective : asDirective raw = directiveOf (stripChars raw) := if_neg hignored
    rw [if_neg hignored, if_neg hignored, if_neg hignored]
    cases hline : directiveOf (stripChars raw) with
    | some directive =>
        rw [hline] at hdirective
        have hstack : state.stack = [] := by
          rw [hreads.stack, houtside (by rw [hdirective]; rfl), List.map_nil]
        rw [hdirective, if_pos (Option.isSome_some)]
        dsimp only
        have hnone : loweredEvents lower (some (Piece.directive directive)).toList = [] := rfl
        rw [if_pos hstack, hnone, List.append_nil]
        exact ⟨⟨hreads.current, hreads.stack, hreads.view, hreads.opened⟩, rfl⟩
    | none =>
        rw [hline] at hdirective
        rw [hdirective, if_neg (by decide)]
        have hstep := sectionLine_reads hreads (stripChars raw)
        constructor
        · cases hevent : (sectionPiece place (stripChars raw)).2 with
          | none =>
              rw [hevent] at hstep
              exact hstep
          | some event =>
              rw [hevent] at hstep
              exact hstep
        · have hkeep : (sectionLine lower state (stripChars raw)).directives = state.directives := by
            unfold sectionLine
            split
            · rfl
            · split
              · rfl
              · split
                · rfl
                · split
                  · rfl
                  · split <;> rfl
          rw [hkeep]
          cases (sectionPiece place (stripChars raw)).2 <;> simp [Piece.directive?]

theorem foldl_profileLine (lines : List Chars) (hreads : Reads lower state place events)
    (houtside : OutsideFrom place lines) :
    ∃ last, Reads lower (lines.foldl (profileLine lower) state) last
        (events ++ loweredEvents lower (piecesFrom place lines)) ∧
      (lines.foldl (profileLine lower) state).directives =
        state.directives ++ (piecesFrom place lines).filterMap Piece.directive? := by
  induction lines generalizing state place events with
  | nil => exact ⟨place, by simpa [piecesFrom, loweredEvents] using hreads, by simp [piecesFrom]⟩
  | cons raw rest ih =>
      obtain ⟨hstep, hdirectives⟩ := profileLine_reads hreads houtside.1
      obtain ⟨last, hlast, hall⟩ := ih hstep houtside.2
      refine ⟨last, ?_, ?_⟩
      · rw [List.foldl_cons, piecesFrom]
        simpa [loweredEvents, List.append_assoc] using hlast
      · rw [List.foldl_cons, hall, hdirectives, piecesFrom, List.filterMap_append,
          List.append_assoc]

theorem reads_nil : Reads lower {} {} [] where
  current := rfl
  stack := rfl
  view name tags htags := by
    cases tags with
    | nil => exact absurd rfl htags
    | cons tag rest => cases rest <;> rfl
  opened name _ n hn := absurd hn (Nat.not_lt_zero n)

/-- The sections that are built are those that the events leave. -/
theorem parseProfile_leaves {text : Chars} (houtside : DirectivesOutside text)
    (htags : tags ≠ []) :
    view ((parseProfile lower text).1.relations name) tags =
      leaves ((eventsOf text).map (Event.lowered lower)) name tags := by
  obtain ⟨last, hlast, -⟩ := foldl_profileLine _ (@reads_nil lower) houtside
  have hview := hlast.view name tags htags
  rwa [List.nil_append] at hview

/-- The directives are those of the text, in their order. -/
theorem parseProfile_directives {text : Chars} (houtside : DirectivesOutside text) :
    (parseProfile lower text).2 = (pieces text).filterMap Piece.directive? := by
  obtain ⟨last, -, hdirectives⟩ := foldl_profileLine _ (@reads_nil lower) houtside
  exact hdirectives

end Reading

end PqcReadiness.Kerberos
