import PqcReadiness.Kerberos.Sections
import PqcReadiness.Lib.Breadth

/-!
# Which file wins

MIT krb5 reads an included file where its directive stands, and a relation has the value that it is
given first.  `read_krb5_conf` reads the files level by level, each whole, and keeps of every section
the tags that are not there yet: of two files with the same top-level tag, the one on the higher
level wins, with everything that it has below the tag.

The two agree exactly if, for every relation, the file that wins gives it the same value first, and
opens no subsection of its name (`readKrb5Conf_iff`).

Tags are compared as MIT krb5 does on the side of the text, and in lower case on that of the code.
-/

namespace PqcReadiness.Kerberos

open PqcReadiness.Lib

/-! ## The expanded text -/

/-- The events of pieces in which files and directives are replaced by what they name, with the
files that are read on the way.  There is such a list exactly if no file includes itself. -/
inductive Expands (host : KerberosHost) : List Piece → List Event → List String → Prop where
  | nil : Expands host [] [] []
  | event {event : Event} {rest : List Piece} {events : List Event} {files : List String}
      (hrest : Expands host rest events files) :
      Expands host (.event event :: rest) (event :: events) files
  | directive {directive : Directive} {rest : List Piece} {events : List Event}
      {files : List String}
      (hrest : Expands host ((included host directive).map .file ++ rest) events files) :
      Expands host (.directive directive :: rest) events files
  | file {path : String} {text : Chars} {rest : List Piece} {events : List Event}
      {files : List String} (hread : host.read path = some text)
      (hrest : Expands host (pieces text ++ rest) events files) :
      Expands host (.file path :: rest) events (path :: files)
  | unreadable {path : String} {rest : List Piece} {events : List Event} {files : List String}
      (hread : host.read path = none) (hrest : Expands host rest events files) :
      Expands host (.file path :: rest) events files

/-! ## What is reported -/

/-- The value of a relation in the profile that is returned. -/
def reported (profile : Profile) (name : Chars) (tags : List Chars) : Option Chars :=
  (view (profile.relations name) tags).join

variable (lower : Chars → Chars) (host : KerberosHost)

/-- The files that a file includes. -/
def includes (path : String) : Option (List String) :=
  (host.read path).map fun text => (parseProfile lower text).2.flatMap (included host)

/-- Does a file have a top-level tag of a section, as a relation or as a subsection? -/
def mentions (name top : Chars) (path : String) : Bool :=
  (host.read path).any fun text =>
    (eventsOf text).any fun event => event.section' = name && event.tags.map lower = [lower top]

/-- The first file, by its depth and then from left to right, with a top-level tag of a section. -/
def Wins (root : String) (name top : Chars) (path : String) : Prop :=
  FirstInLevels (includes lower host) [root] (mentions lower host name top) path

/-- A file gives a relation its value first, and opens no subsection of its name. -/
structure Gives (name : Chars) (tags : List Chars) (value : Chars) (path : String) : Prop where
  exists_text : ∃ text, host.read path = some text ∧
    firstValue ((eventsOf text).map (Event.lowered lower)) name (tags.map lower) = some value ∧
      isOpened ((eventsOf text).map (Event.lowered lower)) name (tags.map lower) = false

/-! ## Merging -/

section Merging

variable {name tag : Chars}

theorem find_mergeSection (dest new : Relations) :
    find tag (mergeSection dest new) = (find tag dest).or (find tag new) := by
  unfold mergeSection
  induction new generalizing dest with
  | nil => exact Option.or_none.symm
  | cons entry rest ih =>
      obtain ⟨other, node⟩ := entry
      rw [List.foldl_cons, ih, find_updateEntries, find]
      by_cases hother : tag = other
      · rw [if_pos hother, if_pos hother.symm, hother]
        cases find other dest <;> rfl
      · rw [if_neg hother, if_neg (Ne.symm hother)]

/-- The relations of a section in a list of sections. -/
theorem findSome?_sections {entries : List (Chars × Relations)}
    (hnodup : (entries.map Prod.fst).Nodup) :
    (entries.findSome? fun entry => if entry.1 = name then find tag entry.2 else none) =
      find tag ((find name entries).getD []) := by
  induction entries with
  | nil => rfl
  | cons entry rest ih =>
      obtain ⟨other, relations⟩ := entry
      rw [List.map_cons, List.nodup_cons] at hnodup
      rw [List.findSome?_cons, ih hnodup.2, find]
      by_cases hother : other = name
      · subst hother
        rw [if_pos rfl, if_pos rfl, find_eq_none_iff.mpr hnodup.1]
        cases hfind : find tag relations with
        | none => exact hfind.symm
        | some node => exact hfind.symm
      · rw [if_neg hother, if_neg hother]

theorem find_merge (into new : Profile) : find tag ((merge into new).relations name) =
    (find tag (into.relations name)).or (find tag (new.relations name)) := by
  rw [Profile.relations.eq_def new, Dict.get?, ← findSome?_sections new.nodup]
  unfold merge
  generalize new.entries = entries
  induction entries generalizing into with
  | nil => exact Option.or_none.symm
  | cons entry rest ih =>
      obtain ⟨other, relations⟩ := entry
      rw [List.foldl_cons, ih, relations_update, List.findSome?_cons]
      by_cases hother : name = other
      · subst hother
        rw [if_pos rfl, if_pos rfl, find_mergeSection, Option.or_assoc]
        have hthis : find tag ((into.get? name).getD []) = find tag (into.relations name) := rfl
        rw [hthis]
        cases find tag relations <;> rfl
      · rw [if_neg hother, if_neg (Ne.symm hother)]

/-- What a file adds to the profile. -/
def mergeFile (merged : Profile) (path : String) : Profile :=
  match host.read path with
  | none => merged
  | some text => merge merged (parseProfile lower text).1

/-- What a file has under a top-level tag. -/
def topNode (name tag : Chars) (path : String) : Option Node :=
  (host.read path).bind fun text => find tag ((parseProfile lower text).1.relations name)

theorem find_foldl_mergeFile (into : Profile) (files : List String) :
    find tag ((files.foldl (mergeFile lower host) into).relations name) =
      (find tag (into.relations name)).or (files.findSome? (topNode lower host name tag)) := by
  induction files generalizing into with
  | nil => exact Option.or_none.symm
  | cons path rest ih =>
      rw [List.foldl_cons, ih, List.findSome?_cons, mergeFile, topNode]
      cases host.read path with
      | none => rfl
      | some text =>
          dsimp only [Option.bind_some]
          rw [find_merge, Option.or_assoc]
          cases find tag ((parseProfile lower text).1.relations name) <;> rfl

/-- The files are read in the order of a visit. -/
theorem readLoop_eq (files queue : List String) :
    readLoop lower host (files.foldl (mergeFile lower host) .empty) files queue =
      ((visit (includes lower host) maxIncludes files queue).foldl (mergeFile lower host) .empty,
        visit (includes lower host) maxIncludes files queue) := by
  induction files, queue using visit.induct (includes lower host) maxIncludes with
  | case1 files => rw [readLoop, visit]
  | case2 files path queue hlimit hmem ih =>
      rw [readLoop, if_pos hlimit, if_pos hmem, visit_seen hlimit hmem, ih]
  | case3 files path queue hlimit hfresh hclosed ih =>
      have hread : host.read path = none := Option.map_eq_none_iff.mp hclosed
      rw [readLoop, if_pos hlimit, if_neg hfresh, hread, visit_closed hlimit hclosed]
      exact ih
  | case4 files path queue hlimit hfresh children hchildren ih =>
      obtain ⟨text, hread, hincluded⟩ := Option.map_eq_some_iff.mp hchildren
      rw [readLoop, if_pos hlimit, if_neg hfresh, hread, visit_open hlimit hfresh hchildren]
      dsimp only
      rw [hincluded, ← ih, List.foldl_append, List.foldl_cons, List.foldl_nil, mergeFile, hread]
  | case5 files path queue hlimit => rw [readLoop, if_neg hlimit, visit_full hlimit]

end Merging

/-! ## Every file is read -/

section Closed

variable {lower host}

/-- Every file that is named, in the pieces or in a file that is read, is read. -/
structure Closed (host : KerberosHost) (pieces' : List Piece) (files : List String) : Prop where
  named : ∀ path, .file path ∈ pieces' → (host.read path).isSome → path ∈ files
  directives : ∀ directive, .directive directive ∈ pieces' → ∀ path ∈ included host directive,
    (host.read path).isSome → path ∈ files
  files : ∀ path ∈ files, ∀ text, host.read path = some text →
    ∀ directive, .directive directive ∈ pieces text → ∀ other ∈ included host directive,
      (host.read other).isSome → other ∈ files

theorem Expands.closed {pieces' : List Piece} {events : List Event} {files : List String}
    (hexpands : Expands host pieces' events files) : Closed host pieces' files := by
  induction hexpands with
  | nil => exact ⟨nofun, nofun, nofun⟩
  | event hrest ih =>
      refine ⟨fun path hpath => ?_, fun directive hdirective => ?_, ih.files⟩
      · exact ih.named path ((List.mem_cons.mp hpath).resolve_left nofun)
      · exact ih.directives directive ((List.mem_cons.mp hdirective).resolve_left nofun)
  | directive hrest ih =>
      refine ⟨fun path hpath => ?_, fun other hother => ?_, ih.files⟩
      · have hpath := (List.mem_cons.mp hpath).resolve_left nofun
        exact ih.named path (List.mem_append_right _ hpath)
      · rcases List.mem_cons.mp hother with hsame | hother
        · obtain rfl := Piece.directive.inj hsame
          intro path hpath
          exact ih.named path (List.mem_append_left _ (List.mem_map_of_mem hpath))
        · exact ih.directives other (List.mem_append_right _ hother)
  | @file path text rest events files hread hrest ih =>
      refine ⟨fun other hother hsome => ?_, fun directive hdirective other hother hsome => ?_,
        fun first hfirst text' hread' directive hdirective other hother hsome => ?_⟩
      · rcases List.mem_cons.mp hother with hsame | hother
        · obtain rfl := Piece.file.inj hsame
          exact List.mem_cons_self
        · exact List.mem_cons_of_mem _ (ih.named other (List.mem_append_right _ hother) hsome)
      · have hdirective := (List.mem_cons.mp hdirective).resolve_left nofun
        exact List.mem_cons_of_mem _
          (ih.directives directive (List.mem_append_right _ hdirective) other hother hsome)
      · rcases List.mem_cons.mp hfirst with rfl | hfirst
        · obtain rfl := Option.some.inj (hread.symm.trans hread')
          exact List.mem_cons_of_mem _
            (ih.directives directive (List.mem_append_left _ hdirective) other hother hsome)
        · exact List.mem_cons_of_mem _
            (ih.files first hfirst text' hread' directive hdirective other hother hsome)
  | @unreadable path rest events files hread hrest ih =>
      refine ⟨fun other hother hsome => ?_, fun directive hdirective => ?_, ih.files⟩
      · rcases List.mem_cons.mp hother with hsame | hother
        · obtain rfl := Piece.file.inj hsame
          rw [hread] at hsome
          cases hsome
        · exact ih.named other hother hsome
      · exact ih.directives directive ((List.mem_cons.mp hdirective).resolve_left nofun)

variable {root : String} {events : List Event} {files : List String}

theorem mem_files_of_visit (hexpands : Expands host [.file root] events files)
    (houtside : ∀ path ∈ files, ∀ text, host.read path = some text → DirectivesOutside text) :
    ∀ path ∈ visit (includes lower host) maxIncludes [] [root], path ∈ files := by
  have hclosed := hexpands.closed
  have hkept : ∃ rest : List String,
      (∀ path ∈ visit (includes lower host) maxIncludes [] [root], path ∈ files) ∧
        ∀ path ∈ rest, (host.read path).isSome → path ∈ files := by
    refine visit_keeps (fun seen queue => (∀ path ∈ seen, path ∈ files) ∧
      ∀ path ∈ queue, (host.read path).isSome → path ∈ files) ⟨nofun, ?_⟩
      (fun h => ⟨h.1, fun path hpath => h.2 path (List.mem_cons_of_mem _ hpath)⟩) ?_
    · intro path hpath hsome
      obtain rfl := List.mem_singleton.mp hpath
      exact hclosed.named path List.mem_cons_self hsome
    · intro seen queue path children h _ hchildren
      obtain ⟨text, hread, rfl⟩ := Option.map_eq_some_iff.mp hchildren
      have hpath : path ∈ files := h.2 path List.mem_cons_self (by rw [hread]; rfl)
      constructor
      · intro other hother
        rcases List.mem_append.mp hother with hother | hother
        · exact h.1 other hother
        · rwa [List.mem_singleton.mp hother]
      · intro other hother hsome
        rcases List.mem_append.mp hother with hother | hother
        · exact h.2 other (List.mem_cons_of_mem _ hother) hsome
        · rw [parseProfile_directives (houtside path hpath text hread)] at hother
          obtain ⟨directive, hdirective, hother⟩ := List.mem_flatMap.mp hother
          obtain ⟨piece, hpiece, hsame⟩ := List.mem_filterMap.mp hdirective
          cases piece with
          | event event => cases hsame
          | file path => cases hsame
          | directive found =>
              obtain rfl := Option.some.inj hsame
              exact hclosed.files path hpath text hread found hpiece other hother hsome
  exact hkept.elim fun _ hresult => hresult.1

theorem length_visit_lt (hexpands : Expands host [.file root] events files)
    (houtside : ∀ path ∈ files, ∀ text, host.read path = some text → DirectivesOutside text)
    (hfew : files.dedup.length < maxIncludes) :
    (visit (includes lower host) maxIncludes [] [root]).length < maxIncludes := by
  have hsub : visit (includes lower host) maxIncludes [] [root] ⊆ files.dedup := fun path hpath =>
    List.mem_dedup.mpr (mem_files_of_visit hexpands houtside path hpath)
  exact Nat.lt_of_le_of_lt ((nodup_visit List.nodup_nil).subperm hsub).length_le hfew

end Closed

/-! ## The file that wins -/

section Winner

variable {lower host} {root path : String} {text name top value : Chars} {below : List Chars}
  {events : List Event} {files : List String}

theorem view_congr {first second : Relations} (hsame : find top first = find top second) :
    view first (top :: below) = view second (top :: below) := by
  by_cases hbelow : below = []
  · subst hbelow
    rw [view, view, lookup, lookup, hsame]
  · rw [view, view, lookup_cons hbelow, lookup_cons hbelow, hsame]

theorem view_eq_none {relations : Relations} (hnone : find top relations = none) :
    view relations (top :: below) = none := by
  have hempty : find top ([] : Relations) = none := rfl
  rw [view_congr (hnone.trans hempty.symm)]
  cases below <;> rfl

theorem leaves_isSome {events : List Event} {tags : List Chars} : (leaves events name tags).isSome ↔
    ∃ event ∈ events, event.section' = name ∧ event.tags = tags := by
  unfold leaves isOpened firstValue
  constructor
  · intro hsome
    split at hsome
    · next hopened =>
        obtain ⟨event, hmem, hevent⟩ := List.any_eq_true.mp hopened
        simp only [Bool.and_eq_true, decide_eq_true_eq] at hevent
        exact ⟨event, hmem, hevent.1⟩
    · rw [Option.isSome_map, List.findSome?_isSome_iff] at hsome
      obtain ⟨event, hmem, hevent⟩ := hsome
      split at hevent
      · next hhere => exact ⟨event, hmem, hhere⟩
      · cases hevent
  · rintro ⟨event, hmem, hname, htags⟩
    split
    · rfl
    · next hnot =>
        rw [Option.isSome_map, List.findSome?_isSome_iff]
        refine ⟨event, hmem, ?_⟩
        rw [if_pos ⟨hname, htags⟩]
        by_contra hvalue
        rw [Bool.not_eq_true, Option.isSome_eq_false_iff] at hvalue
        apply hnot
        refine List.any_eq_true.mpr ⟨event, hmem, ?_⟩
        simp [hname, htags, hvalue]

/-- A file has a top-level tag exactly if the parser finds something under it. -/
theorem isSome_topNode (hread : host.read path = some text) (houtside : DirectivesOutside text) :
    (topNode lower host name (lower top) path).isSome = mentions lower host name top path := by
  have hview : (find (lower top) ((parseProfile lower text).1.relations name)).isSome =
      (leaves ((eventsOf text).map (Event.lowered lower)) name [lower top]).isSome := by
    rw [← parseProfile_leaves houtside (List.cons_ne_nil _ _), view, lookup, Option.isSome_map]
  have htop : topNode lower host name (lower top) path =
      find (lower top) ((parseProfile lower text).1.relations name) := by
    rw [topNode, hread, Option.bind_some]
  rw [htop, hview, mentions, hread, Option.any_some, Bool.eq_iff_iff, leaves_isSome,
    List.any_eq_true]
  simp only [Bool.and_eq_true, decide_eq_true_eq]
  constructor
  · rintro ⟨lowered, hmem, hname, htags⟩
    obtain ⟨event, hevent, rfl⟩ := List.mem_map.mp hmem
    exact ⟨event, hevent, hname, htags⟩
  · rintro ⟨event, hevent, hname, htags⟩
    exact ⟨event.lowered lower, List.mem_map_of_mem hevent, hname, htags⟩

/-- What the parser makes of a file, under a path. -/
theorem gives_iff {tags : List Chars} (hread : host.read path = some text)
    (houtside : DirectivesOutside text) (htags : tags ≠ []) :
    reported (parseProfile lower text).1 name (tags.map lower) = some value ↔
      Gives lower host name tags value path := by
  have hne : tags.map lower ≠ [] := fun hnil => htags (List.map_eq_nil_iff.mp hnil)
  rw [reported, parseProfile_leaves houtside hne, leaves]
  constructor
  · intro hvalue
    refine ⟨text, hread, ?_⟩
    split at hvalue
    · cases hvalue
    · next hopened =>
        have hjoin : ∀ value : Option Chars, (value.map some).join = value := by
          rintro (_ | value) <;> rfl
        rw [hjoin] at hvalue
        exact ⟨hvalue, Bool.eq_false_of_not_eq_true hopened⟩
  · rintro ⟨other, hother, hvalue, hopened⟩
    obtain rfl := Option.some.inj (hread.symm.trans hother)
    rw [hopened, if_neg Bool.false_ne_true, hvalue]
    rfl

theorem findSome?_eq_find? {α β : Type*} {f : α → Option β} {p : α → Bool} {xs : List α}
    (hsame : ∀ x ∈ xs, (f x).isSome = p x) : xs.findSome? f = (xs.find? p).bind f := by
  induction xs with
  | nil => rfl
  | cons x rest ih =>
      have hrest := ih fun y hy => hsame y (List.mem_cons_of_mem _ hy)
      have hx := hsame x List.mem_cons_self
      rw [List.findSome?_cons, List.find?_cons, ← hx]
      cases hf : f x with
      | none => exact hrest
      | some y => exact hf.symm

/-- What a profile reports is what the file that wins gives. -/
theorem reported_iff (hexpands : Expands host [.file root] events files)
    (hfew : files.dedup.length < maxIncludes)
    (houtside : ∀ path ∈ files, ∀ text, host.read path = some text → DirectivesOutside text) :
    reported (readKrb5Conf lower host root).1 name ((top :: below).map lower) = some value ↔
      ∃ path, Wins lower host root name top path ∧
        Gives lower host name (top :: below) value path := by
  have hlimit := @length_visit_lt lower _ _ _ _ hexpands houtside hfew
  have hopen : ∀ path, mentions lower host name top path = true →
      (includes lower host path).isSome := by
    intro path hmentions
    rw [mentions] at hmentions
    rw [includes, Option.isSome_map]
    cases hread : host.read path with
    | none => rw [hread] at hmentions; cases hmentions
    | some text => rfl
  -- What the profile has under the top-level tag.
  have hprofile : (readKrb5Conf lower host root).1 =
      (visit (includes lower host) maxIncludes [] [root]).foldl (mergeFile lower host) .empty :=
    congrArg Prod.fst (readLoop_eq lower host [] [root])
  have htop : find (lower top) ((readKrb5Conf lower host root).1.relations name) =
      ((visit (includes lower host) maxIncludes [] [root]).find?
        (mentions lower host name top)).bind (topNode lower host name (lower top)) := by
    rw [hprofile, find_foldl_mergeFile]
    refine Option.none_or.trans (findSome?_eq_find? fun path hpath => ?_)
    obtain ⟨hread, -⟩ := mem_level_of_visit hpath
    rw [includes, Option.isSome_map] at hread
    obtain ⟨text, hread⟩ := Option.isSome_iff_exists.mp hread
    exact isSome_topNode hread
      (houtside path (mem_files_of_visit hexpands houtside path hpath) text hread)
  have hwins : ∀ path, (visit (includes lower host) maxIncludes [] [root]).find?
      (mentions lower host name top) = some path ↔ Wins lower host root name top path :=
    fun path => find?_visit hlimit hopen
  -- The file that wins has the same under the tag as the profile.
  have hfile : ∀ path, Wins lower host root name top path →
      (reported (readKrb5Conf lower host root).1 name ((top :: below).map lower) = some value ↔
        Gives lower host name (top :: below) value path) := by
    intro path hpath
    have hfind := (hwins path).mpr hpath
    have hmem := List.mem_of_find?_eq_some hfind
    obtain ⟨hread, -⟩ := mem_level_of_visit hmem
    rw [includes, Option.isSome_map] at hread
    obtain ⟨text, hread⟩ := Option.isSome_iff_exists.mp hread
    rw [hfind, Option.bind_some, topNode, hread, Option.bind_some] at htop
    rw [← gives_iff hread (houtside path (mem_files_of_visit hexpands houtside path hmem) text hread)
      (List.cons_ne_nil _ _), reported, reported, List.map_cons, view_congr htop]
  constructor
  · intro hvalue
    cases hfind : (visit (includes lower host) maxIncludes [] [root]).find?
        (mentions lower host name top) with
    | none =>
        rw [hfind, Option.bind_none] at htop
        rw [reported, List.map_cons, view_eq_none htop] at hvalue
        cases hvalue
    | some path =>
        have hpath := (hwins path).mp hfind
        exact ⟨path, hpath, (hfile path hpath).mp hvalue⟩
  · rintro ⟨path, hpath, hgives⟩
    exact (hfile path hpath).mpr hgives

/-- The profile has what MIT krb5 reads exactly if, for each relation, the file that wins gives it
the value of its first occurrence. -/
theorem readKrb5Conf_iff (lower : Chars → Chars) {host : KerberosHost} {root : String}
    {events : List Event} {files : List String} (hexpands : Expands host [.file root] events files)
    (hfew : files.dedup.length < maxIncludes)
    (houtside : ∀ path ∈ files, ∀ text, host.read path = some text → DirectivesOutside text) :
    (∀ name top below value, firstValue events name (top :: below) = some value →
        reported (readKrb5Conf lower host root).1 name ((top :: below).map lower) = some value) ↔
      ∀ name top below value, firstValue events name (top :: below) = some value →
        ∃ path, Wins lower host root name top path ∧
          Gives lower host name (top :: below) value path := by
  refine forall₄_congr fun name top below value => imp_congr_right fun _ => ?_
  exact reported_iff hexpands hfew houtside

end Winner

/-! ## The layout of a distribution -/

/-- `str.lower`, for ASCII. -/
def lowerAscii (s : Chars) : Chars := s.map Char.toLower

/-- `/etc/krb5.conf` with an `includedir` above its own section, and one file in the directory. -/
def stockHost (realm dropIn : String) : KerberosHost where
  read path :=
    if path = "/etc/krb5.conf" then
      some ("includedir /d/\n[libdefaults]\ndefault_realm = " ++ realm).toList
    else if path = "/d/a.conf" then some ("[libdefaults]\ndefault_realm = " ++ dropIn).toList
    else none
  listDir path := if path = "/d/" then some ["a.conf"] else none

/-- A value of the default realm. -/
def defaultRealm (realm : String) : Event :=
  ⟨"libdefaults".toList, ["default_realm".toList], some realm.toList⟩

/-- The text of `/etc/krb5.conf`. -/
def stockText : Chars := "includedir /d/\n[libdefaults]\ndefault_realm = A".toList

/-- The text of the file in the directory. -/
def dropInText (realm : String) : Chars := ("[libdefaults]\ndefault_realm = " ++ realm).toList

theorem read_stockHost {dropIn path : String} {text : Chars}
    (hread : (stockHost "A" dropIn).read path = some text) :
    path = "/etc/krb5.conf" ∧ text = stockText ∨ path = "/d/a.conf" ∧ text = dropInText dropIn := by
  unfold stockHost at hread
  dsimp only at hread
  split at hread
  · next hpath => exact Or.inl ⟨hpath, (Option.some.inj hread).symm⟩
  · split at hread
    · next hpath => exact Or.inr ⟨hpath, (Option.some.inj hread).symm⟩
    · cases hread

theorem stockHost_expands {dropIn : String}
    (hpieces : pieces (dropInText dropIn) = [.event (defaultRealm dropIn)]) :
    Expands (stockHost "A" dropIn) [.file "/etc/krb5.conf"]
      [defaultRealm dropIn, defaultRealm "A"] ["/etc/krb5.conf", "/d/a.conf"] := by
  have hmain : pieces stockText =
      [.directive ⟨.includedir, "/d/"⟩, .event (defaultRealm "A")] := by rfl
  have hnames : included (stockHost "A" dropIn) ⟨.includedir, "/d/"⟩ = ["/d/a.conf"] := by rfl
  have hread : (stockHost "A" dropIn).read "/etc/krb5.conf" = some stockText := by rfl
  have hreadDropIn : (stockHost "A" dropIn).read "/d/a.conf" = some (dropInText dropIn) := by rfl
  refine .file hread ?_
  rw [hmain]
  refine .directive ?_
  rw [hnames]
  refine .file hreadDropIn ?_
  rw [hpieces]
  exact .event (.event .nil)

/-- Both files give the same value. -/
theorem readKrb5Conf_stock :
    reported (readKrb5Conf lowerAscii (stockHost "A" "A") "/etc/krb5.conf").1 "libdefaults".toList
      (["default_realm".toList].map lowerAscii) = some "A".toList := by
  have hpieces : pieces (dropInText "A") = [.event (defaultRealm "A")] := by rfl
  have hvalue : firstValue [defaultRealm "A", defaultRealm "A"] "libdefaults".toList
      ["default_realm".toList] = some "A".toList := by rfl
  refine (readKrb5Conf_iff lowerAscii (stockHost_expands hpieces) (by decide) ?_).mpr ?_ _ _ _ _
    hvalue
  · intro path _ text hread
    rcases read_stockHost hread with ⟨-, rfl⟩ | ⟨-, rfl⟩
    · decide
    · decide
  · intro name top below value hfirst
    have hhere : (defaultRealm "A").section' = name ∧
        (defaultRealm "A").tags = top :: below := by
      by_contra hother
      have hnone : firstValue [defaultRealm "A", defaultRealm "A"] name (top :: below) = none := by
        rw [firstValue, List.findSome?_cons, if_neg hother]
        exact (List.findSome?_cons ..).trans (by rw [if_neg hother]; rfl)
      rw [hnone] at hfirst
      cases hfirst
    obtain ⟨rfl, htags⟩ := hhere
    obtain ⟨rfl, rfl⟩ := List.cons.inj htags
    obtain rfl : "A".toList = value := Option.some.inj hfirst
    exact ⟨"/etc/krb5.conf", ⟨0, by rintro _ ⟨⟩, by decide⟩,
      ⟨stockText, by rfl, by decide, by decide⟩⟩

/-- The file of the directory is read first, and the other one wins. -/
theorem not_first_stock :
    Expands (stockHost "A" "B") [.file "/etc/krb5.conf"]
        [defaultRealm "B", defaultRealm "A"] ["/etc/krb5.conf", "/d/a.conf"] ∧
      (∀ path text, (stockHost "A" "B").read path = some text → DirectivesOutside text) ∧
      firstValue [defaultRealm "B", defaultRealm "A"] "libdefaults".toList
        ["default_realm".toList] = some "B".toList ∧
      reported (readKrb5Conf lowerAscii (stockHost "A" "B") "/etc/krb5.conf").1
        "libdefaults".toList ["default_realm".toList] = some "A".toList := by
  have hpieces : pieces (dropInText "B") = [.event (defaultRealm "B")] := by rfl
  have hexpands := stockHost_expands hpieces
  have houtside : ∀ path text, (stockHost "A" "B").read path = some text →
      DirectivesOutside text := by
    intro path text hread
    rcases read_stockHost hread with ⟨-, rfl⟩ | ⟨-, rfl⟩
    · decide
    · decide
  have hreported : reported (readKrb5Conf lowerAscii (stockHost "A" "B") "/etc/krb5.conf").1
      "libdefaults".toList (["default_realm".toList].map lowerAscii) = some "A".toList := by
    refine (reported_iff hexpands (by decide) fun path _ text hread =>
      houtside path text hread).mpr ?_
    exact ⟨"/etc/krb5.conf", ⟨0, nofun, by decide⟩, ⟨stockText, by rfl, by decide, by decide⟩⟩
  exact ⟨hexpands, houtside, by decide, hreported⟩

end PqcReadiness.Kerberos
