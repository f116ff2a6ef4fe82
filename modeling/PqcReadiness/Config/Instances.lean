import PqcReadiness.Config.Stunnel
import PqcReadiness.Lib.PrefixFree

/-!
# Instances of stunnel

When the files of several instances of stunnel, read together, give the endpoints that each gives
by itself, read as one text: `independent_iff`.

An instance has one file, which includes others as if their text stood in it.  `parse_stunnel` reads
all files into one list of sections, keeps the options of a file apart from those of the file that
includes it, and takes what stands in front of the headers of any file for global.

## Strategy

The lines of a file in the order of the text, with those of the files that it includes
(`stunnelItems`), determine the sections: a header has the options that follow it in its own file
(`fileOptions`), while in the text it has those that follow it there (`optionsAbove`).
`loadStunnel_sections` says that these are the sections of `load`.  An endpoint tells the place of
its header, so lists of endpoints are compared a header at a time.
-/

namespace PqcReadiness.Config

open PqcReadiness.Lib
open Nginx (NginxHost nginxMaxIncludeDepth)

/-! ## Lines in the order of the text -/

/-- A file that begins, or a line; whether `include` is followed in the file. -/
inductive StunnelItem where
  | file (path : String) (followed : Bool)
  | line (path : String) (number : ℕ) (raw : Chars) (followed : Bool)

/-- The files that a line includes. -/
def includedBy (host : NginxHost) (raw : Chars) : Option (List String) :=
  match stunnelKind raw with
  | .option key value =>
      if key = "include".toList then some (stunnelIncludes host value) else none
  | _ => none

section Items

variable (host : NginxHost)

/-- A line, or the lines of the files that it includes. -/
def lineItems (below : Option (String → List StunnelItem)) (path : String) (line : ℕ × Chars) :
    List StunnelItem :=
  match below, includedBy host line.2 with
  | some load, some paths => paths.flatMap load
  | some _, none => [.line path line.1 line.2 true]
  | none, _ => [.line path line.1 line.2 false]

/-- A file with those that it includes, where so many levels of includes are left. -/
def stunnelItems : ℕ → String → List StunnelItem
  | left, path =>
      match host.reader path with
      | none => []
      | some text =>
          let below : Option (String → List StunnelItem) :=
            match left with
            | 0 => none
            | left + 1 => some (stunnelItems left)
          .file path below.isSome :: (numbered text).flatMap (lineItems host below path)

/-- The lines of a main file. -/
def mainItems (path : String) : List StunnelItem := stunnelItems host nginxMaxIncludeDepth path

end Items

/-- The files that an instance reads. -/
def instanceFiles (host : NginxHost) (path : String) : List String :=
  (mainItems host path).filterMap fun item =>
    match item with
    | .file path _ => some path
    | .line .. => none

/-! ## Options -/

/-- The options in front of the next header. -/
def optionsAbove : List StunnelKind → List (Chars × Chars)
  | [] => []
  | .skip :: rest => optionsAbove rest
  | .header _ :: _ => []
  | .option key value :: rest => (key, value) :: optionsAbove rest

/-- A dictionary of options: the last one counts. -/
def optionDict (options : List (Chars × Chars)) : Dict Chars Chars :=
  options.foldl (fun opts entry => opts.update entry.1 fun _ => entry.2) .empty

/-- What an item is. -/
def itemKind : StunnelItem → StunnelKind
  | .file .. => .skip
  | .line _ _ raw _ => stunnelKind raw

/-- What a line of a file is to this file: nothing, if it includes others. -/
def fileKind (followed : Bool) (raw : Chars) : StunnelKind :=
  match stunnelKind raw with
  | .option key value =>
      if followed = true ∧ key = "include".toList then .skip else .option key value
  | other => other

/-- The options in a file behind this line. -/
def fileOptions (host : NginxHost) (path : String) (number : ℕ) (followed : Bool) :
    List (Chars × Chars) :=
  optionsAbove (((numbered ((host.reader path).getD [])).drop number).map fun line =>
    fileKind followed line.2)

/-- A header, and what follows it in the text. -/
structure StunnelHeader where
  path : String
  number : ℕ
  name : Chars
  followed : Bool
  rest : List StunnelItem

/-- The headers of a text. -/
def headersOf : List StunnelItem → List StunnelHeader
  | [] => []
  | .file .. :: rest => headersOf rest
  | .line path number raw followed :: rest =>
      match stunnelKind raw with
      | .header name => ⟨path, number, name, followed, rest⟩ :: headersOf rest
      | _ => headersOf rest

namespace StunnelHeader

variable (header : StunnelHeader)

/-- Its section with the options in its file. -/
def inFile (host : NginxHost) : StunnelSection :=
  ⟨header.path, header.number, header.name,
    optionDict (fileOptions host header.path header.number header.followed)⟩

/-- Its section with the options in the text. -/
def inText : StunnelSection :=
  ⟨header.path, header.number, header.name, optionDict (optionsAbove (header.rest.map itemKind))⟩

end StunnelHeader

/-- The options in front of the headers of all files, or behind headers without a name. -/
def fileGlobals (host : NginxHost) (items : List StunnelItem) : Dict Chars Chars :=
  items.foldl (fun glob item =>
    match item with
    | .file path followed => (optionDict (fileOptions host path 0 followed)).override glob
    | .line path number raw followed =>
        match stunnelKind raw with
        | .header [] => (optionDict (fileOptions host path number followed)).override glob
        | _ => glob) .empty

/-- The options in front of the first header of a text. -/
def textGlobals (items : List StunnelItem) : Dict Chars Chars :=
  optionDict (optionsAbove (items.map itemKind))

/-! ## Instances on their own -/

section Independent

variable (host : NginxHost) (defaultCurves : Option (List Chars))

/-- The endpoints of an instance, read as one text. -/
def textEndpoints (path : String) : List Endpoint :=
  (headersOf (mainItems host path)).flatMap fun header =>
    stunnelEndpoint defaultCurves (textGlobals (mainItems host path)) header.inText

/-- Instances do not influence each other, and each is read as one text. -/
def Independent (paths : List String) : Prop :=
  (parseStunnel host defaultCurves paths).endpoints =
      paths.flatMap (fun path => (parseStunnel host defaultCurves [path]).endpoints) ∧
    ∀ path ∈ paths,
      (parseStunnel host defaultCurves [path]).endpoints = textEndpoints host defaultCurves path

end Independent

/-- Values of the options of which a service reports the same. -/
structure SameService (first second : Chars → Option Chars) : Prop where
  port : (first "accept".toList).bind portOf = (second "accept".toList).bind portOf
  client : stunnelClient first = stunnelClient second
  groups : splitGroups (stunnelCurves first) = splitGroups (stunnelCurves second)
  setting : (truthy (stunnelCurves first)).isSome = (truthy (stunnelCurves second)).isSome
  protocols : stunnelProtocols first = stunnelProtocols second
  raw : ∀ name ∈ ["sslversionmin".toList, "sslversionmax".toList, "ciphers".toList,
    "ciphersuites".toList], first name = second name
  cert : truthy (first "cert".toList) = truthy (second "cert".toList)

/-- A section is a service. -/
def StunnelSection.IsService (sect : StunnelSection) : Prop :=
  sect.name ≠ [] ∧ (sect.opts.get? "accept".toList).isSome

instance (sect : StunnelSection) : Decidable sect.IsService :=
  inferInstanceAs (Decidable (_ ∧ _))

/-- A header for which the options that are global in other files count nothing. -/
def Alone (host : NginxHost) (paths : List String) (path : String) (header : StunnelHeader) :
    Prop :=
  (header.inFile host).IsService →
    SameService
      ((header.inFile host).opts.override (fileGlobals host (paths.flatMap (mainItems host)))).get?
      ((header.inFile host).opts.override (fileGlobals host (mainItems host path))).get?

/-- A header for which the options in its file and those in the text count the same. -/
def InPlace (host : NginxHost) (path : String) (header : StunnelHeader) : Prop :=
  ((header.inFile host).IsService ↔ header.inText.IsService) ∧
    (header.inText.IsService →
      SameService
        ((header.inFile host).opts.override (fileGlobals host (mainItems host path))).get?
        (header.inText.opts.override (textGlobals (mainItems host path))).get?)

/-! ## What `load` reads -/

/-- The section that an item begins. -/
def sectionOf (host : NginxHost) : StunnelItem → Option StunnelSection
  | .file path followed => some ⟨path, 1, [], optionDict (fileOptions host path 0 followed)⟩
  | .line path number raw followed =>
      match stunnelKind raw with
      | .header name =>
          some ⟨path, number, name, optionDict (fileOptions host path number followed)⟩
      | _ => none

/-- More options for a section. -/
def StunnelSection.setAll (options : List (Chars × Chars)) (sect : StunnelSection) :
    StunnelSection :=
  { sect with
    opts := options.foldl (fun opts entry => opts.update entry.1 fun _ => entry.2) sect.opts }

theorem setAll_nil : StunnelSection.setAll [] = id := rfl

theorem setAll_cons (key value : Chars) (options : List (Chars × Chars)) :
    StunnelSection.setAll ((key, value) :: options) =
      StunnelSection.setAll options ∘ StunnelSection.set key value := rfl

theorem modify_append_of_lt {α : Type} {f : α → α} {first second : List α} {n : ℕ}
    (hn : n < first.length) : (first ++ second).modify n f = first.modify n f ++ second := by
  rw [List.modify_eq_take_cons_drop (by rw [List.length_append]; omega),
    List.modify_eq_take_cons_drop hn, List.take_append_of_le_length hn.le,
    List.drop_append_of_le_length hn, List.getElem_append_left hn, List.append_assoc]
  rfl

theorem modify_length_append {α : Type} (f : α → α) (first : List α) (x : α) :
    (first ++ [x]).modify first.length f = first ++ [f x] := by
  rw [List.modify_eq_take_cons_drop (by rw [List.length_append]; simp)]
  simp

/-- Numbers count from one. -/
theorem numbered_drop {text : Chars} {n number : ℕ} {raw : Chars} {rest : List (ℕ × Chars)}
    (hdrop : (numbered text).drop n = (number, raw) :: rest) :
    number = n + 1 ∧ rest = (numbered text).drop number := by
  have hlt : n < (numbered text).length := by
    by_contra hge
    rw [List.drop_eq_nil_of_le (Nat.le_of_not_lt hge)] at hdrop
    cases hdrop
  rw [List.drop_eq_getElem_cons hlt] at hdrop
  obtain ⟨hfirst, hrest⟩ := List.cons.inj hdrop
  have hnumber : number = n + 1 := by
    have hget : (numbered text)[n].1 = 1 + n := by
      simp only [numbered, List.getElem_zip, List.getElem_range', one_mul]
    rw [hfirst] at hget
    omega
  exact ⟨hnumber, hnumber ▸ hrest.symm⟩

section Load

variable {host : NginxHost} {text : Chars} {path : String}

/-- A line that includes nothing. -/
theorem lineItems_of_none {raw : Chars} (hraw : includedBy host raw = none)
    (items : Option (String → List StunnelItem)) (number : ℕ) :
    lineItems host items path (number, raw) = [.line path number raw items.isSome] := by
  cases items <;> simp only [lineItems, hraw, Option.isSome_some, Option.isSome_none]

/-- The items that the included files make, and the sections that `load` adds for them. -/
def BelowAgree (host : NginxHost) (below : StunnelBelow)
    (items : Option (String → List StunnelItem)) : Prop :=
  match below, items with
  | some load, some itemsOf => ∀ state path,
      (load state path).sections = state.sections ++ (itemsOf path).filterMap (sectionOf host)
  | none, none => True
  | _, _ => False

theorem foldl_load {load : StunnelFiles → String → StunnelFiles}
    {itemsOf : String → List StunnelItem}
    (hload : ∀ state path,
      (load state path).sections = state.sections ++ (itemsOf path).filterMap (sectionOf host))
    (paths : List String) (state : StunnelFiles) :
    (paths.foldl load state).sections =
      state.sections ++ (paths.flatMap itemsOf).filterMap (sectionOf host) := by
  induction paths generalizing state with
  | nil => exact (List.append_nil _).symm
  | cons path rest ih =>
      rw [List.foldl_cons, ih, hload, List.flatMap_cons, List.filterMap_append, List.append_assoc]

/-- **The lines of a file**: options go to the section of the file, and headers and included files
add sections. -/
theorem foldl_stunnelLine {below : StunnelBelow} {items : Option (String → List StunnelItem)}
    (hbelow : BelowAgree host below items) (htext : host.reader path = some text) {n : ℕ}
    {lines : List (ℕ × Chars)} (hlines : (numbered text).drop n = lines) (loaded : StunnelFiles)
    {cur : ℕ} (hcur : cur < loaded.sections.length) :
    (lines.foldl (stunnelLine host below path) (loaded, cur)).1.sections =
      loaded.sections.modify cur
          (.setAll (optionsAbove (lines.map fun line => fileKind items.isSome line.2))) ++
        (lines.flatMap (lineItems host items path)).filterMap (sectionOf host) := by
  induction lines generalizing n loaded cur with
  | nil =>
      rw [List.map_nil, optionsAbove, setAll_nil, List.modify_id, List.flatMap_nil,
        List.filterMap_nil, List.append_nil]
      rfl
  | cons line rest ih =>
      obtain ⟨number, raw⟩ := line
      obtain ⟨_, hrest⟩ := numbered_drop hlines
      rw [List.foldl_cons, List.map_cons, List.flatMap_cons, List.filterMap_append]
      have hbehind : optionsAbove ((rest.map fun line => fileKind items.isSome line.2)) =
          fileOptions host path number items.isSome := by
        rw [fileOptions, htext, hrest]
        rfl
      cases hkind : stunnelKind raw with
      | skip =>
          have hnone : includedBy host raw = none := by rw [includedBy, hkind]
          have hskip : fileKind items.isSome raw = .skip := by rw [fileKind, hkind]
          rw [lineItems_of_none hnone, stunnelLine, hskip, optionsAbove]
          simp only [hkind]
          rw [ih hrest.symm loaded hcur]
          simp only [sectionOf, hkind, List.filterMap_cons, List.filterMap_nil, List.nil_append]
      | header name =>
          have hnone : includedBy host raw = none := by rw [includedBy, hkind]
          have hheader : fileKind items.isSome raw = .header name := by rw [fileKind, hkind]
          rw [lineItems_of_none hnone, stunnelLine, hheader, optionsAbove, setAll_nil,
            List.modify_id]
          simp only [hkind]
          rw [ih hrest.symm _ (by rw [List.length_append]; exact Nat.lt_succ_self _),
            modify_length_append, hbehind, List.append_assoc]
          simp only [sectionOf, hkind, List.filterMap_cons, List.filterMap_nil]
          rfl
      | option key value =>
          -- An option that is set in the section of the file.
          have hset : ∀ followed, (followed = true → key ≠ "include".toList) →
              items.isSome = followed →
              stunnelLine host below path (loaded, cur) (number, raw) =
                ({ loaded with sections := loaded.sections.modify cur (.set key value) }, cur) →
              lineItems host items path (number, raw) = [.line path number raw followed] →
              (rest.foldl (stunnelLine host below path)
                  (stunnelLine host below path (loaded, cur) (number, raw))).1.sections =
                loaded.sections.modify cur (.setAll (optionsAbove (fileKind items.isSome raw ::
                    rest.map fun line => fileKind items.isSome line.2))) ++
                  ((lineItems host items path (number, raw)).filterMap (sectionOf host) ++
                    (rest.flatMap (lineItems host items path)).filterMap (sectionOf host)) := by
            intro followed hkey hfollowed hstep hitems
            have hoption : fileKind items.isSome raw = .option key value := by
              rw [fileKind, hkind, hfollowed]
              exact if_neg fun h => hkey h.1 h.2
            rw [hstep, ih hrest.symm _ (by rw [List.length_modify]; exact hcur), hitems, hoption,
              optionsAbove, setAll_cons, List.modify_modify_eq]
            simp only [sectionOf, hkind, List.filterMap_cons, List.filterMap_nil, List.nil_append]
          cases below with
          | none =>
              cases items with
              | some itemsOf => exact hbelow.elim
              | none =>
                  refine hset false nofun rfl ?_ ?_
                  · simp only [stunnelLine, hkind]
                  · simp only [lineItems]
          | some load =>
              cases items with
              | none => exact hbelow.elim
              | some itemsOf =>
                  by_cases hkey : key = "include".toList
                  · have hpaths : includedBy host raw = some (stunnelIncludes host value) := by
                      rw [includedBy, hkind]
                      exact if_pos hkey
                    have hskip : fileKind true raw = .skip := by
                      rw [fileKind, hkind]
                      exact if_pos ⟨rfl, hkey⟩
                    have hitems : lineItems host (some itemsOf) path (number, raw) =
                        (stunnelIncludes host value).flatMap itemsOf := by
                      simp only [lineItems, hpaths]
                    have hstep : stunnelLine host (some load) path (loaded, cur) (number, raw) =
                        ((stunnelIncludes host value).foldl load loaded, cur) := by
                      simp only [stunnelLine, hkind]
                      exact if_pos hkey
                    have hsections := foldl_load hbelow (stunnelIncludes host value) loaded
                    rw [hstep, ih hrest.symm _ (by rw [hsections, List.length_append]; omega),
                      hsections, modify_append_of_lt hcur, hitems, Option.isSome_some, hskip,
                      optionsAbove, List.append_assoc]
                  · have hnone : includedBy host raw = none := by
                      rw [includedBy, hkind]
                      exact if_neg hkey
                    refine hset true (fun _ => hkey) rfl ?_ (lineItems_of_none hnone _ _)
                    simp only [stunnelLine, hkind]
                    exact if_neg hkey

/-- A file, where the files that it includes are loaded as their items say. -/
theorem load_text {below : StunnelBelow} {items : Option (String → List StunnelItem)}
    (hbelow : BelowAgree host below items) (htext : host.reader path = some text)
    (state : StunnelFiles) :
    ((numbered text).foldl (stunnelLine host below path)
        ({ state with
            files := state.files ++ [path]
            sections := state.sections ++ [⟨path, 1, [], .empty⟩] },
          state.sections.length)).1.sections =
      state.sections ++ (.file path items.isSome ::
        (numbered text).flatMap (lineItems host items path)).filterMap (sectionOf host) := by
  have hall : (numbered text).drop 0 = numbered text := rfl
  rw [foldl_stunnelLine hbelow htext hall _
    (by rw [List.length_append]; exact Nat.lt_succ_self _), modify_length_append]
  have hfile : fileOptions host path 0 items.isSome =
      optionsAbove ((numbered text).map fun line => fileKind items.isSome line.2) := by
    rw [fileOptions, htext]
    rfl
  rw [List.filterMap_cons, sectionOf, hfile, List.append_assoc]
  rfl

/-- **The sections that `load` reads**, in the order of the text. -/
theorem loadStunnel_sections (left : ℕ) (state : StunnelFiles) :
    (loadStunnel host left state path).sections =
      state.sections ++ (stunnelItems host left path).filterMap (sectionOf host) := by
  induction left generalizing state path with
  | zero =>
      rw [loadStunnel, stunnelItems]
      cases htext : host.reader path with
      | none => exact (List.append_nil _).symm
      | some text => exact @load_text host text path none none trivial htext state
  | succ left ih =>
      rw [loadStunnel, stunnelItems]
      cases htext : host.reader path with
      | none => exact (List.append_nil _).symm
      | some text =>
          exact @load_text host text path (some (loadStunnel host left))
            (some (stunnelItems host left)) (fun state _ => ih state) htext state

end Load

/-! ## Endpoints -/

section Endpoints

variable {host : NginxHost} {defaultCurves : Option (List Chars)}

theorem stunnelGlobals_eq (items : List StunnelItem) :
    stunnelGlobals (items.filterMap (sectionOf host)) = fileGlobals host items := by
  have hstep : ∀ (glob : Dict Chars Chars) (item : StunnelItem),
      (match sectionOf host item with
        | some sect => if sect.name = [] then sect.opts.override glob else glob
        | none => glob) =
      match item with
        | .file path followed => (optionDict (fileOptions host path 0 followed)).override glob
        | .line path number raw followed =>
            match stunnelKind raw with
            | .header [] => (optionDict (fileOptions host path number followed)).override glob
            | _ => glob := by
    intro glob item
    cases item with
    | file path followed => rfl
    | line path number raw followed =>
        simp only [sectionOf]
        cases stunnelKind raw with
        | skip => rfl
        | option key value => rfl
        | header name => cases name <;> rfl
  have hfold : ∀ (items : List StunnelItem) (glob : Dict Chars Chars),
      (items.filterMap (sectionOf host)).foldl
          (fun glob sect => if sect.name = [] then sect.opts.override glob else glob) glob =
        items.foldl (fun glob item =>
          match item with
          | .file path followed => (optionDict (fileOptions host path 0 followed)).override glob
          | .line path number raw followed =>
              match stunnelKind raw with
              | .header [] => (optionDict (fileOptions host path number followed)).override glob
              | _ => glob) glob := by
    intro items
    induction items with
    | nil => exact fun _ => rfl
    | cons item rest ih =>
        intro glob
        rw [List.foldl_cons, ← hstep, ← ih, List.filterMap_cons]
        cases sectionOf host item <;> rfl
  exact hfold items .empty

/-- Sections with a name are those of headers. -/
theorem flatMap_stunnelEndpoint (glob : Dict Chars Chars) (items : List StunnelItem) :
    (items.filterMap (sectionOf host)).flatMap (stunnelEndpoint defaultCurves glob) =
      (headersOf items).flatMap fun header =>
        stunnelEndpoint defaultCurves glob (header.inFile host) := by
  induction items with
  | nil => rfl
  | cons item rest ih =>
      rw [List.filterMap_cons]
      cases item with
      | file path followed =>
          rw [sectionOf, headersOf, List.flatMap_cons, ← ih]
          exact congrArg (· ++ _) (if_pos (Or.inl rfl))
      | line path number raw followed =>
          rw [sectionOf, headersOf]
          cases stunnelKind raw with
          | skip => exact ih
          | option key value => exact ih
          | header name => exact congrArg (_ ++ ·) ih

/-- **The endpoints of some files.** -/
theorem parseStunnel_endpoints (paths : List String) :
    (parseStunnel host defaultCurves paths).endpoints =
      paths.flatMap fun path => (headersOf (mainItems host path)).flatMap fun header =>
        stunnelEndpoint defaultCurves (fileGlobals host (paths.flatMap (mainItems host)))
          (header.inFile host) := by
  have hsections : (paths.foldl (loadStunnel host nginxMaxIncludeDepth) {}).sections =
      (paths.flatMap (mainItems host)).filterMap (sectionOf host) := by
    have hload : ∀ state path, (loadStunnel host nginxMaxIncludeDepth state path).sections =
        state.sections ++ (mainItems host path).filterMap (sectionOf host) :=
      fun state _ => loadStunnel_sections nginxMaxIncludeDepth state
    exact foldl_load hload paths {}
  rw [parseStunnel]
  simp only [hsections, stunnelGlobals_eq]
  rw [List.filterMap_flatMap, List.flatMap_assoc]
  exact List.flatMap_congr fun path _ => flatMap_stunnelEndpoint _ _

/-! ## What a service reports -/

theorem sortedBy_toList (port : Option ℕ) : sortedBy id port.toList.dedup = port.toList := by
  cases port with
  | none => rfl
  | some port =>
      have hsingle : (some port).toList.dedup = [port] := rfl
      rw [hsingle]
      exact List.perm_singleton.mp (sortedBy_perm id [port])

/-- The source of the groups tells whether they are configured. -/
theorem groups_eq (settings : EndpointSettings) : settings.groups =
    if (effectiveGroups settings).2 = "config" then (effectiveGroups settings).1 else none := by
  rw [effectiveGroups]
  cases settings.groups with
  | some groups => exact (if_pos rfl).symm
  | none =>
      have hservice : "service default" ≠ "config" := by decide
      have hlibrary : "library default" ≠ "config" := by decide
      cases settings.serviceDefaultGroups with
      | none => exact (if_neg hlibrary).symm
      | some groups => exact (if_neg hservice).symm

/-- **A service reports the same if and only if its options say the same.** -/
theorem makeEndpoint_stunnelSettings_iff (file : String) (line : ℕ) (name : Chars)
    (first second : Chars → Option Chars) :
    makeEndpoint (stunnelSettings first defaultCurves file line name) =
        makeEndpoint (stunnelSettings second defaultCurves file line name) ↔
      SameService first second := by
  have hof : Function.Injective String.ofList := fun _ _ => String.ofList_injective
  constructor
  · intro hsame
    refine ⟨?_, ?_, ?_, ?_, congrArg Endpoint.protocols hsame, ?_, ?_⟩
    · have hports : sortedBy id ((first "accept".toList).bind portOf).toList.dedup =
          sortedBy id ((second "accept".toList).bind portOf).toList.dedup :=
        congrArg Endpoint.ports hsame
      rw [sortedBy_toList, sortedBy_toList] at hports
      have hhead := congrArg List.head? hports
      rwa [Option.head?_toList, Option.head?_toList] at hhead
    · have hrole : (if stunnelClient first then "client" else "server") =
          if stunnelClient second then "client" else "server" := congrArg Endpoint.role hsame
      revert hrole
      cases stunnelClient first <;> cases stunnelClient second <;> decide
    · have hgroups : effectiveGroups (stunnelSettings first defaultCurves file line name) =
          effectiveGroups (stunnelSettings second defaultCurves file line name) :=
        Prod.ext (congrArg Endpoint.groups hsame) (congrArg Endpoint.groupsSource hsame)
      have hfirst := groups_eq (stunnelSettings first defaultCurves file line name)
      rw [hgroups] at hfirst
      exact hfirst.trans (groups_eq _).symm
    · have hsetting : (if (truthy (stunnelCurves first)).isSome then some "curves" else none) =
          if (truthy (stunnelCurves second)).isSome then some "curves" else none :=
        congrArg Endpoint.groupsSetting hsame
      revert hsetting
      cases (truthy (stunnelCurves first)).isSome <;>
        cases (truthy (stunnelCurves second)).isSome <;> decide
    · intro option hoption
      simp only [List.mem_cons, List.not_mem_nil, or_false] at hoption
      rcases hoption with rfl | rfl | rfl | rfl
      · exact congrArg Endpoint.minProtocol hsame
      · exact congrArg Endpoint.maxProtocol hsame
      · exact Option.map_injective hof (congrArg Endpoint.ciphers hsame)
      · exact Option.map_injective hof (congrArg Endpoint.ciphersuites hsame)
    · have hcert : ((truthy (first "cert".toList)).map String.ofList).toList =
          ((truthy (second "cert".toList)).map String.ofList).toList :=
        congrArg Endpoint.certificates hsame
      have hhead := congrArg List.head? hcert
      rw [Option.head?_toList, Option.head?_toList] at hhead
      exact Option.map_injective hof hhead
  · intro hsame
    have hsettings : stunnelSettings first defaultCurves file line name =
        stunnelSettings second defaultCurves file line name := by
      rw [stunnelSettings, stunnelSettings, hsame.port, hsame.client, hsame.groups, hsame.setting,
        hsame.protocols, hsame.cert, hsame.raw _ (by decide), hsame.raw _ (by decide),
        hsame.raw _ (by decide), hsame.raw _ (by decide)]
    rw [hsettings]

theorem SameService.refl (options : Chars → Option Chars) : SameService options options :=
  ⟨rfl, rfl, rfl, rfl, rfl, fun _ _ => rfl, rfl⟩

/-- The endpoint of a section, if it is a service. -/
theorem stunnelEndpoint_eq (glob : Dict Chars Chars) (sect : StunnelSection) :
    stunnelEndpoint defaultCurves glob sect = if sect.IsService then
      [makeEndpoint (stunnelSettings (sect.opts.override glob).get? defaultCurves sect.path
        sect.line sect.name)] else [] := by
  rw [stunnelEndpoint]
  by_cases hservice : sect.IsService
  · rw [if_pos hservice, if_neg]
    rintro (hname | hnone)
    · exact hservice.1 hname
    · rw [StunnelSection.IsService, hnone] at hservice
      exact absurd hservice.2 Bool.false_ne_true
  · rw [if_neg hservice, if_pos]
    by_contra hnot
    rw [not_or] at hnot
    exact hservice ⟨hnot.1, Option.isSome_iff_ne_none.mpr hnot.2⟩

/-- Two sections of one header. -/
theorem stunnelEndpoint_eq_iff {first second : StunnelSection} (hpath : first.path = second.path)
    (hline : first.line = second.line) (hname : first.name = second.name)
    (glob other : Dict Chars Chars) :
    stunnelEndpoint defaultCurves glob first = stunnelEndpoint defaultCurves other second ↔
      (first.IsService ↔ second.IsService) ∧ (second.IsService →
        SameService (first.opts.override glob).get? (second.opts.override other).get?) := by
  rw [stunnelEndpoint_eq, stunnelEndpoint_eq, hpath, hline, hname,
    ← @makeEndpoint_stunnelSettings_iff defaultCurves second.path second.line second.name]
  by_cases hfirst : first.IsService <;> by_cases hsecond : second.IsService <;>
    simp [hfirst, hsecond]

/-- What an endpoint tells of its header. -/
def Endpoint.place (endpoint : Endpoint) : String × Option ℕ × Option String :=
  (endpoint.file, endpoint.line, endpoint.context)

/-- The same for a header. -/
def StunnelHeader.place (header : StunnelHeader) : String × Option ℕ × Option String :=
  (header.path, some header.number, some ("[" ++ String.ofList header.name ++ "]"))

theorem place_of_mem {glob : Dict Chars Chars} {sect : StunnelSection} {endpoint : Endpoint}
    (hmem : endpoint ∈ stunnelEndpoint defaultCurves glob sect) :
    Endpoint.place endpoint =
      (sect.path, some sect.line, some ("[" ++ String.ofList sect.name ++ "]")) := by
  rw [stunnelEndpoint] at hmem
  split at hmem
  · cases hmem
  · obtain rfl := List.mem_singleton.mp hmem
    rfl

theorem length_stunnelEndpoint (glob : Dict Chars Chars) (sect : StunnelSection) :
    (stunnelEndpoint defaultCurves glob sect).length ≤ 1 := by
  rw [stunnelEndpoint]
  split
  · exact Nat.zero_le 1
  · exact le_rfl

theorem get?_optionDict (options : List (Chars × Chars)) (key : Chars) :
    (optionDict options).get? key =
      ((options.filter (·.1 = key)).getLast?).map Prod.snd := by
  induction options using List.reverseRecOn with
  | nil => rfl
  | append_singleton options entry ih =>
      have hstep : optionDict (options ++ [entry]) =
          (optionDict options).update entry.1 fun _ => entry.2 := List.foldl_append
      rw [hstep, Dict.get?_update, List.filter_append, List.filter_singleton]
      by_cases hkey : entry.1 = key
      · rw [if_pos hkey.symm, decide_eq_true hkey, cond_true, List.getLast?_concat]
        rfl
      · rw [if_neg (Ne.symm hkey), decide_eq_false hkey, ih, cond_false, List.append_nil]

/-- Whether `include` is followed counts for no other option. -/
theorem filter_optionsAbove {key : Chars} (hkey : key ≠ "include".toList) (followed : Bool)
    (lines : List (ℕ × Chars)) :
    (optionsAbove (lines.map fun line => fileKind followed line.2)).filter (·.1 = key) =
      (optionsAbove (lines.map fun line => stunnelKind line.2)).filter (·.1 = key) := by
  induction lines with
  | nil => rfl
  | cons line rest ih =>
      rw [List.map_cons, List.map_cons, fileKind]
      cases stunnelKind line.2 with
      | skip => exact ih
      | header name => rfl
      | option other value =>
          rw [optionsAbove, List.filter_cons]
          by_cases hinclude : followed = true ∧ other = "include".toList
          · simp only [if_pos hinclude]
            rw [optionsAbove, ih, if_neg]
            rw [decide_eq_true_eq]
            exact fun h => hkey (h.symm.trans hinclude.2)
          · simp only [if_neg hinclude]
            rw [optionsAbove, List.filter_cons, ih]

/-- Two headers at one place are both services or both not. -/
theorem isService_of_place {one other : StunnelHeader} (hplace : one.place = other.place)
    (hservice : (one.inFile host).IsService) : (other.inFile host).IsService := by
  obtain ⟨hpath, hrest⟩ := Prod.ext_iff.mp hplace
  obtain ⟨hnumber, hcontext⟩ := Prod.ext_iff.mp hrest
  have hname : one.name = other.name := by
    have htext : ("[" ++ String.ofList one.name ++ "]").toList =
        ("[" ++ String.ofList other.name ++ "]").toList :=
      congrArg String.toList (Option.some.inj hcontext)
    simp only [String.toList_append, String.toList_ofList] at htext
    exact List.append_cancel_left (List.append_cancel_right htext)
  have haccept : ∀ header : StunnelHeader,
      (header.inFile host).opts.get? "accept".toList =
        (optionDict (optionsAbove (((numbered ((host.reader header.path).getD [])).drop
          header.number).map fun line => stunnelKind line.2))).get? "accept".toList := by
    intro header
    rw [StunnelHeader.inFile, fileOptions, get?_optionDict,
      filter_optionsAbove (by decide), ← get?_optionDict]
  obtain ⟨hnonempty, hsome⟩ := hservice
  refine ⟨?_, ?_⟩
  · exact fun h => hnonempty (hname.trans h)
  · rw [haccept, show one.path = other.path from hpath,
      show one.number = other.number from Option.some.inj hnumber] at hsome
    rwa [haccept]

/-- The endpoints of an instance in file and in text. -/
theorem textual_iff (path : String) :
    (parseStunnel host defaultCurves [path]).endpoints = textEndpoints host defaultCurves path ↔
      ∀ header ∈ headersOf (mainItems host path), InPlace host path header := by
  have htags : (headersOf (mainItems host path)).flatMap (fun header =>
        stunnelEndpoint defaultCurves (fileGlobals host (mainItems host path))
          (header.inFile host)) =
      (headersOf (mainItems host path)).flatMap (fun header =>
        stunnelEndpoint defaultCurves (textGlobals (mainItems host path)) header.inText) ↔
      ∀ header ∈ headersOf (mainItems host path),
        stunnelEndpoint defaultCurves (fileGlobals host (mainItems host path))
            (header.inFile host) =
          stunnelEndpoint defaultCurves (textGlobals (mainItems host path)) header.inText := by
    refine flatMap_eq_iff_of_tag Endpoint.place StunnelHeader.place
      (fun header _ endpoint => ?_) (fun header _ endpoint => ?_)
      (fun header _ => length_stunnelEndpoint _ _) ?_
    · exact place_of_mem
    · exact place_of_mem
    · intro one _ other _ hplace hnonempty
      rw [stunnelEndpoint_eq] at hnonempty ⊢
      have hone : (one.inFile host).IsService := by
        by_contra hnot
        rw [if_neg hnot] at hnonempty
        exact hnonempty rfl
      rw [if_pos (isService_of_place hplace hone)]
      exact List.cons_ne_nil _ _
  rw [parseStunnel_endpoints, List.flatMap_singleton, List.flatMap_singleton, textEndpoints, htags]
  exact forall₂_congr fun header _ => @stunnelEndpoint_eq_iff defaultCurves (header.inFile host)
    header.inText rfl rfl rfl _ _

/-- The endpoints of several instances together and each by itself. -/
theorem separate_iff (paths : List String) :
    (parseStunnel host defaultCurves paths).endpoints =
        paths.flatMap (fun path => (parseStunnel host defaultCurves [path]).endpoints) ↔
      ∀ path ∈ paths, ∀ header ∈ headersOf (mainItems host path),
        Alone host paths path header := by
  have hsingle : ∀ path, (parseStunnel host defaultCurves [path]).endpoints =
      (headersOf (mainItems host path)).flatMap fun header =>
        stunnelEndpoint defaultCurves (fileGlobals host (mainItems host path))
          (header.inFile host) := by
    intro path
    rw [parseStunnel_endpoints, List.flatMap_singleton, List.flatMap_singleton]
  have hpairs : ∀ f : String → StunnelHeader → List Endpoint,
      paths.flatMap (fun path => (headersOf (mainItems host path)).flatMap (f path)) =
        (paths.flatMap fun path => (headersOf (mainItems host path)).map (path, ·)).flatMap
          fun pair => f pair.1 pair.2 := by
    intro f
    rw [List.flatMap_assoc]
    exact List.flatMap_congr fun path _ => by rw [List.flatMap_map]
  have halone : ∀ path header, stunnelEndpoint defaultCurves
      (fileGlobals host (paths.flatMap (mainItems host))) (header.inFile host) =
        stunnelEndpoint defaultCurves (fileGlobals host (mainItems host path))
          (header.inFile host) ↔ Alone host paths path header := by
    intro path header
    rw [@stunnelEndpoint_eq_iff defaultCurves (header.inFile host) (header.inFile host) rfl rfl rfl]
    exact and_iff_right Iff.rfl
  rw [parseStunnel_endpoints, List.flatMap_congr fun path _ => hsingle path, hpairs, hpairs,
    flatMap_eq_iff_of_length_le]
  · simp only [halone, List.mem_flatMap, List.mem_map]
    constructor
    · intro hall path hpath header hheader
      exact hall (path, header) ⟨path, hpath, header, hheader, rfl⟩
    · rintro hall _ ⟨path, hpath, header, hheader, rfl⟩
      exact hall path hpath header hheader
  · intro pair _
    rw [stunnelEndpoint_eq, stunnelEndpoint_eq]
    split <;> rfl

/-- **Instances do not influence each other, and each is read as its text, if and only if global
options of other files count nothing for a service, and its own options and the global ones of its
file are those of the text.** -/
theorem independent_iff (host : NginxHost) (defaultCurves : Option (List Chars))
    (paths : List String) :
    Independent host defaultCurves paths ↔
      ∀ path ∈ paths, ∀ header ∈ headersOf (mainItems host path),
        Alone host paths path header ∧ InPlace host path header := by
  rw [Independent, separate_iff]
  have htextual : (∀ path ∈ paths, (parseStunnel host defaultCurves [path]).endpoints =
      textEndpoints host defaultCurves path) ↔
      ∀ path ∈ paths, ∀ header ∈ headersOf (mainItems host path), InPlace host path header :=
    forall₂_congr fun path _ => textual_iff path
  rw [htextual]
  constructor
  · rintro ⟨halone, hplace⟩ path hpath header hheader
    exact ⟨halone path hpath header hheader, hplace path hpath header hheader⟩
  · intro hall
    exact ⟨fun path hpath header hheader => (hall path hpath header hheader).1,
      fun path hpath header hheader => (hall path hpath header hheader).2⟩

end Endpoints

/-- Two instances without includes, of which the first is a client. -/
def twoInstances : NginxHost where
  reader path :=
    if path = "/etc/stunnel/a.conf" then some "client = yes\n[out]\naccept = 8080\n".toList
    else some "[in]\naccept = 443\n".toList
  lister _ := []

/-- The second is reported as a client, too. -/
theorem not_independent_twoInstances :
    (∀ file ∈ instanceFiles twoInstances "/etc/stunnel/a.conf",
        file ∉ instanceFiles twoInstances "/etc/stunnel/b.conf") ∧
      ¬ Independent twoInstances none ["/etc/stunnel/a.conf", "/etc/stunnel/b.conf"] := by
  constructor
  · decide +kernel
  · rintro ⟨hseparate, _⟩
    have hroles := congrArg (List.map Endpoint.role) hseparate
    exact absurd hroles (by decide +kernel)

end PqcReadiness.Config
