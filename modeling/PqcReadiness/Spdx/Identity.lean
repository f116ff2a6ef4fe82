import PqcReadiness.Bom.Assets
import PqcReadiness.Spdx.Document

/-!
# Identity and reference in the SPDX document

Every id that an element of the document refers to is the id of one of its elements, every finding
has its vulnerability with a relationship to the host, and no two elements share an id exactly if no
two assets do after their keys are made safe for a URN (`renderSpdx_identity`).
-/

namespace PqcReadiness.Spdx

open Lib Gap Findings

/-! ## Parts of an id -/

/-- The parts of an id. -/
def idParts (id : String) : List String := split ':' id

theorem idParts_append (first second : String) :
    idParts (first ++ (":" ++ second)) = idParts first ++ idParts second := by
  rw [idParts, split, String.toList_append, String.toList_append,
    show ":".toList = [':'] from rfl, List.singleton_append, splitChars_append, List.map_append]
  rfl

theorem idParts_of_clean {part : String} (hpart : ':' ∉ part.toList) : idParts part = [part] := by
  rw [idParts, split, splitChars_of_not_mem hpart, List.map_singleton, String.ofList_toList]

theorem not_mem_dashed (inRun : Bool) (s : List Char) : ':' ∉ dashed inRun s := by
  induction s generalizing inRun with
  | nil => exact List.not_mem_nil
  | cons c rest ih =>
      rw [dashed]
      split
      · next hsafe =>
          rw [List.mem_cons, not_or]
          refine ⟨?_, ih false⟩
          rintro rfl
          exact absurd hsafe (by decide)
      · split
        · exact ih true
        · rw [List.mem_cons, not_or]
          exact ⟨by decide, ih true⟩

theorem not_mem_spdxSafe (s : String) : ':' ∉ (spdxSafe s).toList := by
  rw [spdxSafe]
  split
  · decide
  · rw [String.toList_ofList, List.mem_reverse]
    intro hmem
    have hkept := List.mem_reverse.mp ((List.dropWhile_suffix _).subset hmem)
    exact not_mem_dashed false s.toList ((List.dropWhile_suffix _).subset hkept)

theorem not_mem_zeroPadded (width n : ℕ) : ':' ∉ (zeroPadded width n).toList := by
  rw [zeroPadded]
  rw [String.toList_append, String.toList_ofList, List.mem_append, List.mem_replicate]
  rintro (⟨-, h⟩ | h)
  · exact absurd h (by decide)
  · exact absurd (isDigit_of_mem_toString h) (by decide)

theorem ofDigitChars_zeros (k : ℕ) (digits : List Char) :
    Nat.ofDigitChars 10 (List.replicate k '0' ++ digits) 0 = Nat.ofDigitChars 10 digits 0 := by
  induction k with
  | zero => rfl
  | succ k ih => exact ih

theorem zeroPadded_injective (width : ℕ) : Function.Injective (zeroPadded width) := by
  have hread : ∀ n, Nat.ofDigitChars 10 (zeroPadded width n).toList 0 = n := by
    intro n
    rw [zeroPadded, String.toList_append, String.toList_ofList, ofDigitChars_zeros,
      Nat.toString_eq_ofList_toDigits, String.toList_ofList, Nat.ofDigitChars_ten_toDigits]
  intro m n hsame
  rw [← hread m, hsame, hread n]

section Ids

variable (host : Host)

/-- What the ids of a host have behind its name. -/
theorem idParts_namespace (rest : String) :
    idParts (namespaceOf host ++ (":" ++ rest)) =
      ["urn", "pqc-readiness", spdxSafe (orElse host.hostname "unknown-host")] ++ idParts rest := by
  rw [idParts_append, namespaceOf, String.append_assoc, idParts_append,
    idParts_of_clean (not_mem_spdxSafe _)]
  rfl

/-- The part of an id that tells what it is the id of. -/
def kindOf (id : String) : Option String := (idParts id)[3]?

theorem kindOf_namespace {kind : String} (hkind : ':' ∉ kind.toList) (rest : String) :
    kindOf (namespaceOf host ++ (":" ++ (kind ++ (":" ++ rest)))) = some kind := by
  rw [kindOf, idParts_namespace, idParts_append, idParts_of_clean hkind]
  rfl

theorem kindOf_last {kind : String} (hkind : ':' ∉ kind.toList) :
    kindOf (namespaceOf host ++ (":" ++ kind)) = some kind := by
  rw [kindOf, idParts_namespace, idParts_of_clean hkind]
  rfl

theorem assetId_eq (asset : CryptoAsset) :
    assetId (namespaceOf host) asset =
      namespaceOf host ++ (":" ++ ("asset" ++ (":" ++ spdxSafe asset.key))) := by
  rw [assetId, String.append_assoc]
  rfl

theorem findingId_eq (idx : ℕ) (ruleId : String) :
    findingId (namespaceOf host) idx ruleId = namespaceOf host ++ (":" ++ ("finding" ++ (":" ++
      (zeroPadded 4 idx ++ (":" ++ spdxSafe ruleId))))) := by
  simp only [findingId, String.append_assoc]
  rfl

theorem vexId_eq (idx : ℕ) :
    vexId (namespaceOf host) idx =
      namespaceOf host ++ (":" ++ ("vex" ++ (":" ++ zeroPadded 4 idx))) := by
  rw [vexId, String.append_assoc]
  rfl

theorem kindOf_creatorId : kindOf creatorId = some "2.4.0" := by decide

theorem kindOf_hostId : kindOf (hostId host) = some "host" := by
  rw [hostId, show ":host" = ":" ++ "host" from rfl]
  exact kindOf_last host (by decide)

theorem kindOf_sbomId : kindOf (sbomId host) = some "sbom" := by
  rw [sbomId, show ":sbom" = ":" ++ "sbom" from rfl]
  exact kindOf_last host (by decide)

theorem kindOf_docId (uuid : String) : kindOf (docId host uuid) = some "document" := by
  rw [docId, String.append_assoc, show ":document:" = ":" ++ ("document" ++ ":") from rfl]
  simp only [String.append_assoc]
  exact kindOf_namespace host (by decide) uuid

theorem kindOf_assetId (asset : CryptoAsset) :
    kindOf (assetId (namespaceOf host) asset) = some "asset" := by
  rw [assetId_eq]
  exact kindOf_namespace host (by decide) _

theorem kindOf_findingId (idx : ℕ) (ruleId : String) :
    kindOf (findingId (namespaceOf host) idx ruleId) = some "finding" := by
  rw [findingId_eq]
  exact kindOf_namespace host (by decide) _

theorem kindOf_vexId (idx : ℕ) : kindOf (vexId (namespaceOf host) idx) = some "vex" := by
  rw [vexId_eq]
  exact kindOf_namespace host (by decide) _

theorem assetId_inj {one other : CryptoAsset} :
    assetId (namespaceOf host) one = assetId (namespaceOf host) other ↔
      spdxSafe one.key = spdxSafe other.key :=
  String.append_right_inj _

/-- The place of a finding is told by the id of its vulnerability. -/
theorem findingId_inj {m n : ℕ} {first second : String}
    (hsame : findingId (namespaceOf host) m first = findingId (namespaceOf host) n second) :
    m = n := by
  have hparts := congrArg idParts hsame
  rw [findingId_eq, findingId_eq, idParts_namespace, idParts_namespace, idParts_append,
    idParts_append, idParts_append, idParts_append, idParts_of_clean (not_mem_zeroPadded 4 m),
    idParts_of_clean (not_mem_zeroPadded 4 n)] at hparts
  have hplace := congrArg (fun parts : List String => parts[4]?) hparts
  exact zeroPadded_injective 4 (Option.some_inj.mp hplace)

theorem vexId_inj {m n : ℕ} (hsame : vexId (namespaceOf host) m = vexId (namespaceOf host) n) :
    m = n :=
  zeroPadded_injective 4 (String.append_right_inj _ |>.mp hsame)

end Ids

/-! ## The ids of the elements -/

section Graph

variable (host : Host) (assets : List CryptoAsset) (findings : List Finding)
  (specs : List RuleSpec) (uuid now : String)

/-- The ids of the vulnerabilities. -/
def vulnIds : List String :=
  (knownFindings findings specs).map fun entry =>
    findingId (namespaceOf host) entry.2.1 entry.2.2.id

/-- The ids of the relationships. -/
def vexIds : List String :=
  (knownFindings findings specs).map fun entry => vexId (namespaceOf host) entry.2.1

/-- The ids of the elements that every document has. -/
def frontIds : List String := [creatorId, docId host uuid, sbomId host, hostId host]

/-- The ids of a document. -/
def graphIds : List String :=
  frontIds host uuid ++ assets.map (assetId (namespaceOf host)) ++ vulnIds host findings specs ++
    vexIds host findings specs

theorem map_idOf_graph :
    (graph host assets findings specs uuid now).map idOf =
      (graphIds host assets findings specs uuid).map Json.str := by
  rw [graph, assetPkgs, vulns, vexRels, graphIds, frontIds, vulnIds, vexIds]
  simp only [List.map_append, List.map_cons, List.map_map, List.cons_append, List.nil_append,
    List.append_assoc]
  rfl

/-- The places of the findings that are known are all different. -/
theorem nodup_places_knownFindings :
    ((knownFindings findings specs).map fun entry => entry.2.1).Nodup := by
  have hsub : ((knownFindings findings specs).map fun entry => entry.2.1).Sublist
      (findings.zipIdx.map Prod.snd) := by
    rw [knownFindings]
    induction findings.zipIdx with
    | nil => exact List.Sublist.refl _
    | cons entry entries ih =>
        rw [List.filterMap_cons, List.map_cons]
        cases specOf specs entry.1.ruleId with
        | none => exact ih.cons _
        | some spec => exact ih.cons_cons _
  refine hsub.nodup ?_
  rw [List.zipIdx_map_snd]
  exact List.nodup_range'

theorem kindOf_frontIds : ∀ id ∈ frontIds host uuid,
    kindOf id ∈ [some "2.4.0", some "document", some "sbom", some "host"] := by
  simp only [frontIds, List.forall_mem_cons, kindOf_creatorId, kindOf_docId, kindOf_sbomId,
    kindOf_hostId]
  decide

theorem nodup_frontIds : (frontIds host uuid).Nodup := by
  refine List.Nodup.of_map kindOf ?_
  rw [frontIds, List.map_cons, List.map_cons, List.map_cons, List.map_singleton, kindOf_creatorId,
    kindOf_docId, kindOf_sbomId, kindOf_hostId]
  decide

theorem kindOf_vulnIds : ∀ id ∈ vulnIds host findings specs, kindOf id ∈ [some "finding"] := by
  intro id hid
  obtain ⟨entry, -, rfl⟩ := List.mem_map.mp hid
  exact List.mem_singleton.mpr (kindOf_findingId host _ _)

theorem kindOf_vexIds : ∀ id ∈ vexIds host findings specs, kindOf id ∈ [some "vex"] := by
  intro id hid
  obtain ⟨entry, -, rfl⟩ := List.mem_map.mp hid
  exact List.mem_singleton.mpr (kindOf_vexId host _)

theorem nodup_vulnIds : (vulnIds host findings specs).Nodup := by
  refine List.pairwise_map.mpr ((List.pairwise_map.mp
    (nodup_places_knownFindings findings specs)).imp ?_)
  intro one other hne hsame
  exact hne (findingId_inj host hsame)

theorem nodup_vexIds : (vexIds host findings specs).Nodup := by
  refine List.pairwise_map.mpr ((List.pairwise_map.mp
    (nodup_places_knownFindings findings specs)).imp ?_)
  intro one other hne hsame
  exact hne (vexId_inj host hsame)

theorem nodup_assetIds_iff : (assets.map (assetId (namespaceOf host))).Nodup ↔
    (assets.map fun asset => spdxSafe asset.key).Nodup := by
  simp only [List.Nodup, List.pairwise_map, ne_eq, assetId_inj]

/-- No two ids are the same exactly if no two assets have the same safe key. -/
theorem nodup_graphIds_iff :
    (graphIds host assets findings specs uuid).Nodup ↔
      (assets.map fun asset => spdxSafe asset.key).Nodup := by
  have hassets := kind_append kindOf (kindOf_frontIds host uuid)
    (kind_map kindOf (kindOf_assetId host) assets)
  have hvulns := kind_append kindOf hassets (kindOf_vulnIds host findings specs)
  rw [graphIds, nodup_append_iff_of_kind kindOf hvulns (kindOf_vexIds host findings specs)
      (by decide), nodup_append_iff_of_kind kindOf hassets (kindOf_vulnIds host findings specs)
      (by decide), nodup_append_iff_of_kind kindOf (kindOf_frontIds host uuid)
      (kind_map kindOf (kindOf_assetId host) assets) (by decide), nodup_assetIds_iff]
  simp only [nodup_frontIds, nodup_vulnIds, nodup_vexIds, true_and, and_true]

/-! ## What elements refer to -/

/-- The members of an element that refer to elements, beside its creator. -/
def referenceFields : List String := ["element", "rootElement", "from", "to",
  "security_assessedElement"]

/-- The ids that a member names. -/
def named : Json → List Json
  | .null => []
  | .arr items => items
  | value => [value]

/-- The creators that an element names. -/
def creators (element : Element) : List Json :=
  match Json.get element "creationInfo" with
  | .obj members => named (Json.get members "createdBy")
  | _ => []

/-- The ids that an element refers to. -/
def references (element : Element) : List Json :=
  creators element ++ referenceFields.flatMap fun field => named (Json.get element field)

end Graph

/-- The members of an element that refer to no element, and its creation. -/
def plainKeys : List String :=
  ["type", "spdxId", "creationInfo", "name", "summary", "description", "comment",
    "software_primaryPurpose", "software_packageVersion", "security_publishedTime",
    "externalIdentifier", "externalRef"]

/-- An element that refers to nothing but its creator. -/
def Plain (element : Element) : Prop := ∀ key ∈ element.map Prod.fst, key ∈ plainKeys

theorem Plain.append {first second : Element} (hfirst : Plain first) (hsecond : Plain second) :
    Plain (first ++ second) := by
  intro key hkey
  rw [List.map_append, List.mem_append] at hkey
  rcases hkey with h | h
  · exact hfirst key h
  · exact hsecond key h

theorem plain_memberIf {key : String} (hkey : key ∈ plainKeys) (text : String) :
    Plain (memberIf key text) := by
  rw [memberIf]
  split
  · rintro other ⟨⟩
  · intro other hother
    rwa [List.mem_singleton.mp hother]

theorem plain_elementBase (runTime spdxId typeName name creatorId : String) :
    Plain (spdxElementBase runTime spdxId typeName name creatorId) := by
  show ∀ key ∈ ["type", "spdxId", "creationInfo", "name"], key ∈ plainKeys
  decide

theorem Plain.get_eq_null {element : Element} (hplain : Plain element) {key : String}
    (hkey : key ∉ plainKeys) : Json.get element key = .null := by
  have hnone : find key element = none :=
    find_eq_none_iff.mpr fun hmem => hkey (hplain key hmem)
  rw [Json.get, hnone, Option.getD_none]

theorem Plain.references_eq {element : Element} (hplain : Plain element) :
    references element = creators element := by
  have hnone : ∀ field ∈ referenceFields, named (Json.get element field) = [] := by
    have hapart : ∀ field ∈ referenceFields, field ∉ plainKeys := by decide
    intro field hfield
    rw [hplain.get_eq_null (hapart field hfield)]
    rfl
  rw [references, List.flatMap_eq_nil_iff.mpr hnone, List.append_nil]

/-- What a relationship says about a finding. -/
def statement (element : Element) : Option String :=
  (Json.get element "security_actionStatement").asStr

theorem Plain.statement_eq {element : Element} (hplain : Plain element) :
    statement element = none := by
  rw [statement, hplain.get_eq_null (by decide)]
  rfl

theorem plain_creatorAgent (runTime spdxId : String) : Plain (spdxCreatorAgent runTime spdxId) := by
  refine (plain_elementBase _ _ _ _ _).append ?_
  show ∀ key ∈ ["description"], key ∈ plainKeys
  decide

theorem plain_hostPackage (runTime spdxId creatorId : String) (host : Host) :
    Plain (spdxHostPackage runTime spdxId creatorId host) := by
  refine (((plain_elementBase _ _ _ _ _).append (plain_memberIf (by decide) _)).append ?_).append
    (plain_memberIf (by decide) _)
  show ∀ key ∈ ["software_primaryPurpose"], key ∈ plainKeys
  decide

theorem plain_assetPackage (runTime : String) (asset : CryptoAsset) (ns creatorId : String) :
    Plain (spdxAssetPackage runTime asset ns creatorId) := by
  refine (((plain_elementBase _ _ _ _ _).append ?_).append (plain_memberIf (by decide) _)).append ?_
  · show ∀ key ∈ ["summary", "software_primaryPurpose", "description"], key ∈ plainKeys
    decide
  · cases asset.nistCategory with
    | none => rintro key ⟨⟩
    | some number =>
        show ∀ key ∈ ["externalIdentifier"], key ∈ plainKeys
        decide

theorem plain_vulnerability (runTime : String) (finding : Finding) (spec : RuleSpec)
    (ns creatorId : String) (idx : ℕ) :
    Plain (spdxVulnerability runTime finding spec ns creatorId idx) := by
  refine (plain_elementBase _ _ _ _ _).append ?_
  show ∀ key ∈ ["summary", "description", "comment", "security_publishedTime",
    "externalIdentifier", "externalRef"], key ∈ plainKeys
  decide

section References

variable (host : Host) (assets : List CryptoAsset) (findings : List Finding)
  (specs : List RuleSpec) (uuid now : String)

theorem references_creatorAgent (runTime spdxId : String) :
    references (spdxCreatorAgent runTime spdxId) = [.str spdxId] :=
  (plain_creatorAgent runTime spdxId).references_eq

theorem references_hostPackage (runTime spdxId creatorId : String) :
    references (spdxHostPackage runTime spdxId creatorId host) = [.str creatorId] :=
  (plain_hostPackage runTime spdxId creatorId host).references_eq

theorem references_assetPackage (runTime : String) (asset : CryptoAsset) (ns creatorId : String) :
    references (spdxAssetPackage runTime asset ns creatorId) = [.str creatorId] :=
  (plain_assetPackage runTime asset ns creatorId).references_eq

theorem references_vulnerability (runTime : String) (finding : Finding) (spec : RuleSpec)
    (ns creatorId : String) (idx : ℕ) :
    references (spdxVulnerability runTime finding spec ns creatorId idx) = [.str creatorId] :=
  (plain_vulnerability runTime finding spec ns creatorId idx).references_eq

theorem references_vexAffects (runTime vulnId targetId ns creatorId : String) (idx : ℕ)
    (actionStatement : String) :
    references (spdxVexAffects runTime vulnId targetId ns creatorId idx actionStatement) =
      [.str creatorId, .str vulnId, .str targetId, .str targetId] := rfl

theorem references_document :
    references (document host assets findings specs uuid now) =
      .str creatorId :: (.str (sbomId host) :: memberIds host assets findings specs now ++
        [.str creatorId]) ++ [.str (sbomId host)] := rfl

theorem references_sbom :
    references (sbom host assets findings specs now) =
      .str creatorId :: memberIds host assets findings specs now ++ [.str (hostId host)] := rfl

theorem mem_map_idOf_graph {id : Json} :
    id ∈ (graph host assets findings specs uuid now).map idOf ↔
      id ∈ [.str creatorId, .str (docId host uuid), .str (sbomId host)] ∨
        id ∈ memberIds host assets findings specs now := by
  have hfront : [spdxCreatorAgent (timestamp host now) creatorId,
      document host assets findings specs uuid now, sbom host assets findings specs now,
      spdxHostPackage (timestamp host now) (hostId host) creatorId host].map idOf =
      [.str creatorId, .str (docId host uuid), .str (sbomId host), .str (hostId host)] := rfl
  rw [graph, List.map_append, List.map_append, List.map_append, hfront, memberIds]
  simp only [List.mem_append, List.mem_cons, List.not_mem_nil, or_false, or_assoc]

/-- Each id that an element refers to is the id of an element. -/
theorem references_declared {element : Element}
    (helement : element ∈ graph host assets findings specs uuid now) {id : Json}
    (hid : id ∈ references element) :
    id ∈ (graph host assets findings specs uuid now).map idOf := by
  rw [mem_map_idOf_graph]
  have hcreator : Json.str creatorId ∈
      [.str creatorId, .str (docId host uuid), .str (sbomId host)] := List.mem_cons_self
  have hsbom : Json.str (sbomId host) ∈
      [.str creatorId, .str (docId host uuid), .str (sbomId host)] := by simp
  have hhost : Json.str (hostId host) ∈ memberIds host assets findings specs now := by
    simp [memberIds]
  simp only [graph, List.mem_append, List.mem_cons, List.not_mem_nil, or_false] at helement
  rcases helement with (((rfl | rfl | rfl | rfl) | h) | h) | h
  · rw [references_creatorAgent, List.mem_singleton] at hid
    rw [hid]
    exact .inl hcreator
  · rw [references_document] at hid
    simp only [List.mem_append, List.mem_cons, List.not_mem_nil, or_false] at hid
    rcases hid with (rfl | (rfl | h) | rfl) | rfl
    · exact .inl hcreator
    · exact .inl hsbom
    · exact .inr h
    · exact .inl hcreator
    · exact .inl hsbom
  · rw [references_sbom] at hid
    simp only [List.mem_append, List.mem_cons, List.not_mem_nil, or_false] at hid
    rcases hid with (rfl | h) | rfl
    · exact .inl hcreator
    · exact .inr h
    · exact .inr hhost
  · rw [references_hostPackage, List.mem_singleton] at hid
    rw [hid]
    exact .inl hcreator
  · obtain ⟨asset, -, rfl⟩ := List.mem_map.mp h
    rw [references_assetPackage, List.mem_singleton] at hid
    rw [hid]
    exact .inl hcreator
  · obtain ⟨entry, -, rfl⟩ := List.mem_map.mp h
    rw [references_vulnerability, List.mem_singleton] at hid
    rw [hid]
    exact .inl hcreator
  · obtain ⟨entry, hentry, rfl⟩ := List.mem_map.mp h
    rw [references_vexAffects] at hid
    simp only [List.mem_cons, List.not_mem_nil, or_false] at hid
    rcases hid with rfl | rfl | rfl | rfl
    · exact .inl hcreator
    · have hvuln : Json.str (findingId (namespaceOf host) entry.2.1 entry.2.2.id) ∈
          (vulns host findings specs now).map idOf :=
        List.mem_map.mpr ⟨_, List.mem_map_of_mem hentry, rfl⟩
      exact .inr (List.mem_append_left _ (List.mem_append_right _ hvuln))
    · exact .inr hhost
    · exact .inr hhost

end References

/-! ## Findings -/

section Findings

variable (host : Host) (assets : List CryptoAsset) (r : HostReport) (specs : List RuleSpec)
  (uuid now : String)

theorem id_of_specOf {ruleId : String} {spec : RuleSpec}
    (hspec : specOf specs ruleId = some spec) : spec.id = ruleId := by
  have hid := List.find?_some hspec
  exact of_decide_eq_true hid

theorem exists_specOf (hspecs : specs.map RuleSpec.id = ruleIds) {ruleId : String}
    (hrule : ruleId ∈ ruleIds) : ∃ spec, specOf specs ruleId = some spec := by
  rw [← hspecs] at hrule
  obtain ⟨spec, hspec, rfl⟩ := List.mem_map.mp hrule
  rw [← Option.isSome_iff_exists, specOf, List.find?_isSome]
  exact ⟨spec, List.mem_reverse.mpr hspec, decide_eq_true rfl⟩

/-- If each finding is about a known rule, each of them is written. -/
theorem map_knownFindings {findings : List Finding}
    (hknown : ∀ finding ∈ findings, ∃ spec, specOf specs finding.ruleId = some spec) :
    (knownFindings findings specs).map Prod.fst = findings := by
  have hentries : ∀ entries : List (Finding × ℕ),
      (∀ entry ∈ entries, ∃ spec, specOf specs entry.1.ruleId = some spec) →
      (entries.filterMap fun entry =>
        (specOf specs entry.1.ruleId).map fun spec => (entry.1, entry.2, spec)).map Prod.fst =
      entries.map Prod.fst := by
    intro entries hall
    induction entries with
    | nil => rfl
    | cons entry entries ih =>
        obtain ⟨⟨spec, hspec⟩, hrest⟩ := List.forall_mem_cons.mp hall
        rw [List.filterMap_cons, hspec, Option.map_some, List.map_cons, List.map_cons, ih hrest]
  rw [knownFindings, hentries, List.zipIdx_map_fst]
  intro entry hentry
  exact hknown entry.1 (List.fst_mem_of_mem_zipIdx hentry)

theorem filterMap_statement_graph (findings : List Finding) :
    (graph host assets findings specs uuid now).filterMap statement =
      ((knownFindings findings specs).map Prod.fst).map Finding.message := by
  have hfront : [spdxCreatorAgent (timestamp host now) creatorId,
      document host assets findings specs uuid now, sbom host assets findings specs now,
      spdxHostPackage (timestamp host now) (hostId host) creatorId host].filterMap statement =
      [] := by
    rw [List.filterMap_eq_nil_iff]
    simp only [List.forall_mem_cons, List.not_mem_nil, false_implies, implies_true, and_true]
    exact ⟨(plain_creatorAgent _ _).statement_eq, rfl, rfl,
      (plain_hostPackage _ _ _ _).statement_eq⟩
  have hassets : (assetPkgs host assets now).filterMap statement = [] := by
    rw [List.filterMap_eq_nil_iff]
    intro element helement
    obtain ⟨asset, -, rfl⟩ := List.mem_map.mp helement
    exact (plain_assetPackage _ _ _ _).statement_eq
  have hvulns : (vulns host findings specs now).filterMap statement = [] := by
    rw [List.filterMap_eq_nil_iff]
    intro element helement
    obtain ⟨entry, -, rfl⟩ := List.mem_map.mp helement
    exact (plain_vulnerability _ _ _ _ _ _).statement_eq
  have hvex : (vexRels host findings specs now).filterMap statement =
      ((knownFindings findings specs).map Prod.fst).map Finding.message := by
    rw [vexRels, List.filterMap_map, List.map_map, ← List.filterMap_eq_map]
    exact List.filterMap_congr fun entry _ => rfl
  rw [graph, List.filterMap_append, List.filterMap_append, List.filterMap_append, hfront, hassets,
    hvulns, hvex]
  rfl

/-- The rule of a vulnerability. -/
def vulnerabilityRule (element : Element) : Option String :=
  if (Json.get element "type").asStr = some "security_Vulnerability" then
    (Json.get element "name").asStr
  else none

theorem filterMap_vulnerabilityRule_graph (findings : List Finding) :
    (graph host assets findings specs uuid now).filterMap vulnerabilityRule =
      (knownFindings findings specs).map fun entry => entry.2.2.id := by
  have hassets : (assetPkgs host assets now).filterMap vulnerabilityRule = [] := by
    rw [List.filterMap_eq_nil_iff]
    intro element helement
    obtain ⟨asset, -, rfl⟩ := List.mem_map.mp helement
    rfl
  have hvulns : (vulns host findings specs now).filterMap vulnerabilityRule =
      (knownFindings findings specs).map fun entry => entry.2.2.id := by
    rw [vulns, List.filterMap_map, ← List.filterMap_eq_map]
    exact List.filterMap_congr fun entry _ => rfl
  have hvex : (vexRels host findings specs now).filterMap vulnerabilityRule = [] := by
    rw [List.filterMap_eq_nil_iff]
    intro element helement
    obtain ⟨entry, -, rfl⟩ := List.mem_map.mp helement
    rfl
  rw [graph, List.filterMap_append, List.filterMap_append, List.filterMap_append, hassets, hvulns,
    hvex, List.append_nil]
  rfl

/-- The specs of the known findings are those of their rules. -/
theorem map_specs_knownFindings (findings : List Finding) :
    (knownFindings findings specs).map (fun entry => entry.2.2.id) =
      ((knownFindings findings specs).map Prod.fst).map Finding.ruleId := by
  rw [List.map_map]
  apply List.map_congr_left
  intro entry hentry
  obtain ⟨place, -, hplace⟩ := List.mem_filterMap.mp hentry
  obtain ⟨spec, hspec, rfl⟩ := Option.map_eq_some_iff.mp hplace
  exact id_of_specOf specs hspec

theorem nodup_idOf_graph_iff (findings : List Finding) :
    ((graph host assets findings specs uuid now).map idOf).Nodup ↔
      (assets.map fun asset => spdxSafe asset.key).Nodup := by
  rw [map_idOf_graph, List.nodup_map_iff fun _ _ hsame => Json.str.inj hsame]
  exact nodup_graphIds_iff host assets findings specs uuid

/-- **Each finding of a report has its vulnerability and its relationship to the host, and only one
of each, each id that is referred to is one of an element, and no two elements share an id exactly if
no two assets have one safe key.** -/
theorem renderSpdx_identity (hspecs : specs.map RuleSpec.id = ruleIds) :
    (((graph host assets (buildFindings r) specs uuid now).map idOf).Nodup ↔
      (assets.map fun asset => spdxSafe asset.key).Nodup) ∧
    (∀ element ∈ graph host assets (buildFindings r) specs uuid now, ∀ id ∈ references element,
      id ∈ (graph host assets (buildFindings r) specs uuid now).map idOf) ∧
    (graph host assets (buildFindings r) specs uuid now).filterMap statement =
      (buildFindings r).map Finding.message ∧
    (graph host assets (buildFindings r) specs uuid now).filterMap vulnerabilityRule =
      (buildFindings r).map Finding.ruleId ∧
    ∀ finding ∈ buildFindings r,
      ∃ vuln ∈ graph host assets (buildFindings r) specs uuid now,
      ∃ vex ∈ graph host assets (buildFindings r) specs uuid now,
        (Json.get vuln "name").asStr = some finding.ruleId ∧
          statement vex = some finding.message ∧
          named (Json.get vex "from") = [idOf vuln] ∧
          named (Json.get vex "to") = [.str (hostId host)] := by
  have hknown : ∀ finding ∈ buildFindings r, ∃ spec, specOf specs finding.ruleId = some spec :=
    fun finding hfinding => exists_specOf specs hspecs
      (mem_ruleIds r ((mem_buildFindings_iff r).mp hfinding))
  refine ⟨nodup_idOf_graph_iff host assets specs uuid now _, fun element helement id hid => ?_, ?_,
    ?_, fun finding hfinding => ?_⟩
  · exact references_declared host assets (buildFindings r) specs uuid now helement hid
  · rw [filterMap_statement_graph, map_knownFindings specs hknown]
  · rw [filterMap_vulnerabilityRule_graph, map_specs_knownFindings,
      map_knownFindings specs hknown]
  · rw [← map_knownFindings specs hknown] at hfinding
    obtain ⟨entry, hentry, rfl⟩ := List.mem_map.mp hfinding
    refine ⟨_, List.mem_append_left _ (List.mem_append_right _ (List.mem_map_of_mem hentry)), _,
      List.mem_append_right _ (List.mem_map_of_mem hentry), ?_, rfl, rfl, rfl⟩
    obtain ⟨place, -, hplace⟩ := List.mem_filterMap.mp hentry
    obtain ⟨spec, hspec, rfl⟩ := Option.map_eq_some_iff.mp hplace
    exact congrArg some (id_of_specOf specs hspec)

/-- Two assets whose keys differ in a character that does not stay. -/
def slashAssets : List CryptoAsset :=
  [⟨"openssl/kem/ML-KEM-768", "ML-KEM-768", "openssl_kem", "algorithm", "kem", "", "", "", "",
      "768", some 3, "openssl@3.5.0", []⟩,
    ⟨"openssl/kem ML-KEM-768", "ML-KEM-768", "openssl_kem", "algorithm", "kem", "", "", "", "",
      "768", some 3, "openssl@3.5.0", []⟩]

/-- The document of a host with these assets and two findings. -/
theorem identity_slashAssets :
    let document := graph { hostname := "web" } slashAssets (buildFindings oldTree)
      (ruleIds.map fun id => ⟨id, "", "", ""⟩) "00000000" "2026-04-28T12:00:00Z"
    ¬ (document.map idOf).Nodup ∧
      document.filterMap vulnerabilityRule =
        ["pqc-004-classical-only-trust-store", opensslRule] := by
  have hspecs : (ruleIds.map fun id => RuleSpec.mk id "" "" "").map RuleSpec.id = ruleIds := by
    decide
  obtain ⟨hids, -, -, hvulns, -⟩ := renderSpdx_identity { hostname := "web" } slashAssets oldTree _
    "00000000" "2026-04-28T12:00:00Z" hspecs
  intro document
  refine ⟨fun hnodup => absurd (hids.mp hnodup) (by decide), ?_⟩
  rw [hvulns]
  decide +kernel

end Findings

end PqcReadiness.Spdx
