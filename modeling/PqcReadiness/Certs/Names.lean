import PqcReadiness.Lib.Escape
import PqcReadiness.Lib.WideText
import PqcReadiness.Lib.Utf8
import PqcReadiness.Certs.Agreement
import PqcReadiness.Certs.RoundTrip

/-!
# Names

An X.501 name in its own terms is a sequence of relative distinguished names, each a nonempty
sequence of attributes whose values are texts in one of the string types.  `_der_name` writes it
as one text, and the text determines the name up to the string types.

## Strategy

What is written for an attribute has no separator of the levels above that is not escaped
(`Escape.Plain`), so that the text comes apart into relative distinguished names at its commas,
into attributes at plus signs and into type and value at equals signs.  Types are told apart
because no short name of `_NAME_ATTRS` has a dot.
-/

namespace PqcReadiness.Certs

open PqcReadiness.Lib PqcReadiness.Lib.Bytes PqcReadiness.Lib.Asn1 PqcReadiness.Lib.Escape

/-! ## Names in their own terms -/

/-- The string types, those of `_STRING_TAGS`. -/
inductive StringType where
  | utf8String
  | printableString
  | ia5String
  | teletexString
  | bmpString
  | universalString

namespace StringType

/-- The tag. -/
def tag : StringType → UInt8
  | .utf8String => 0x0C
  | .printableString => 0x13
  | .ia5String => 0x16
  | .teletexString => 0x14
  | .bmpString => 0x1E
  | .universalString => 0x1C

/-- Does the string type have the text? -/
def Has : StringType → List Char → Prop
  | .printableString, text => ∀ c ∈ text, c.toNat < 0x80
  | .ia5String, text => ∀ c ∈ text, c.toNat < 0x80
  | .teletexString, text => ∀ c ∈ text, c.toNat < 0x100
  | _, _ => True

/-- The bytes of a text. -/
def encode : StringType → List Char → Bytes
  | .utf8String, text => encodeUtf8 text
  | .bmpString, text => encodeUtf16be text
  | .universalString, text => encodeUtf32be text
  | _, text => encodeNarrow text

/-- The program decodes what was encoded. -/
theorem derString_encode (type : StringType) {text : List Char} (hhas : type.Has text) :
    derString type.tag.toNat (type.encode text) = text := by
  cases type with
  | utf8String => exact replaceUtf8_encode text
  | printableString => exact replaceAscii_ascii hhas
  | ia5String => exact replaceAscii_ascii hhas
  | teletexString => exact replaceLatin1_encode hhas
  | bmpString => exact replaceUtf16be_encode text
  | universalString => exact replaceUtf32be_encode text

end StringType

/-- An attribute: its type, and a text in a string type that has it. -/
structure NameAttribute where
  type : ObjectId
  stringType : StringType
  value : List Char
  has : stringType.Has value

namespace NameAttribute

/-- Its encoding. -/
def encode (attr : NameAttribute) : Bytes :=
  element 0x30 (element 0x06 attr.type.content ++
    element attr.stringType.tag (attr.stringType.encode attr.value))

/-- The attribute type and the decoded string. -/
def pair (attr : NameAttribute) : List ℕ × List Char := (attr.type.arcs, attr.value)

end NameAttribute

/-- A relative distinguished name. -/
structure NameRdn where
  attributes : List NameAttribute
  nonempty : attributes ≠ []

namespace NameRdn

/-- Its encoding. -/
def encode (rdn : NameRdn) : Bytes := element 0x31 (rdn.attributes.flatMap NameAttribute.encode)

/-- The attributes up to their string types. -/
def pairs (rdn : NameRdn) : List (List ℕ × List Char) := rdn.attributes.map NameAttribute.pair

end NameRdn

/-- A name. -/
abbrev X501Name := List NameRdn

/-- The encoding of a name, without the header of the sequence. -/
def X501Name.content (name : X501Name) : Bytes := name.flatMap NameRdn.encode

/-- What the name says: the relative distinguished names in order, each with its attributes. -/
def X501Name.entity (name : X501Name) : List (List (List ℕ × List Char)) := name.map NameRdn.pairs

/-! ## What is written -/

/-- How the attribute type is written. -/
def typeText (arcs : List ℕ) : String := (find (dotted arcs) nameAttrs).getD (dotted arcs)

/-- How an attribute is written. -/
def pairText (pair : List ℕ × List Char) : String :=
  typeText pair.1 ++ "=" ++ rfc4514Escape pair.2

/-- How a relative distinguished name is written. -/
def pairsText (pairs : List (List ℕ × List Char)) : String := join "+" (pairs.map pairText)

/-- How a name is written. -/
def entityText (entity : List (List (List ℕ × List Char))) : String :=
  join "," (entity.map pairsText).reverse

/-- The separators of all levels. -/
def separators : List Char := ['=', '+', ',']

theorem escape_value (value : List Char) :
    Plain '\\' separators (rfc4514Escape value).toList ∧
      unescape '\\' (rfc4514Escape value).toList = value := by
  rw [rfc4514Escape, String.toList_ofList]
  have hquotes : ∀ x ∈ value.zipIdx, Quotes '\\' separators x.1
      (if x.1 ∈ [',', '+', '"', '\\', '<', '>', ';', '='] ∨ (x.1 = '#' ∧ x.2 = 0) ∨
          (x.1 = ' ' ∧ (x.2 = 0 ∨ x.2 = value.length - 1)) then ['\\', x.1] else [x.1]) := by
    intro x _
    split
    · exact .escaped
    · next hplain =>
        rw [not_or] at hplain
        refine .ordinary ?_ ?_
        · intro hesc
          exact hplain.1 (by simp [hesc])
        · intro hsep
          refine hplain.1 ?_
          simp only [separators, List.mem_cons, List.not_mem_nil, or_false] at hsep ⊢
          rcases hsep with hsep | hsep | hsep <;> simp [hsep]
  obtain ⟨hplain, hunescape⟩ := unescape_flatMap value.zipIdx hquotes
  exact ⟨hplain, hunescape.trans (List.zipIdx_map_fst 0 value)⟩

/-- **Escaping is injective.** -/
theorem rfc4514Escape_inj {first second : List Char}
    (heq : rfc4514Escape first = rfc4514Escape second) : first = second := by
  rw [← (escape_value first).2, heq, (escape_value second).2]

/-! ## Attribute types -/

theorem dotted_chars (arcs : List ℕ) : ∀ c ∈ (dotted arcs).toList, c.isDigit = true ∨ c = '.' := by
  rw [dotted, toList_join]
  induction arcs with
  | nil => nofun
  | cons arc rest ih =>
      intro c hc
      cases rest with
      | nil =>
          rw [List.map_singleton, List.map_singleton, List.intercalate_singleton] at hc
          exact Or.inl (isDigit_of_mem_toString hc)
      | cons other rest =>
          rw [List.map_cons, List.map_cons, List.map_cons, List.map_cons, List.intercalate_cons_cons,
            List.mem_append, List.mem_append] at hc
          rcases hc with (hc | hc) | hc
          · exact Or.inl (isDigit_of_mem_toString hc)
          · exact Or.inr (List.mem_singleton.mp hc)
          · exact ih c hc

theorem dotted_inj {first second : List ℕ} (hfirst : first ≠ []) (hsecond : second ≠ [])
    (heq : dotted first = dotted second) : first = second := by
  have hplain : ∀ arcs : List ℕ, ∀ text ∈ (arcs.map toString).map String.toList,
      Plain '\\' ['.'] text := by
    intro arcs text htext
    obtain ⟨word, hword, rfl⟩ := List.mem_map.mp htext
    obtain ⟨arc, _, rfl⟩ := List.mem_map.mp hword
    refine plain_of_forall (fun hmem => absurd (isDigit_of_mem_toString hmem) (by decide)) ?_
    intro c hc hdot
    rw [List.mem_singleton.mp hdot] at hc
    exact absurd (isDigit_of_mem_toString hc) (by decide)
  have hchars := congrArg String.toList heq
  rw [dotted, dotted, toList_join, toList_join] at hchars
  have htexts := plain_intercalate_inj (by simpa using hfirst) (by simpa using hsecond)
    (hplain first) (hplain second) (by decide) hchars
  rw [List.map_map, List.map_map] at htexts
  refine List.map_injective_iff.mpr ?_ htexts
  intro m n hmn
  exact toString_injective (String.toList_inj.mp hmn)

theorem dot_mem_dotted (oid : ObjectId) : '.' ∈ (dotted oid.arcs).toList := by
  rw [dotted, toList_join, ObjectId.arcs]
  simp [List.intercalate_cons_cons]

/-- The short names are different. -/
theorem shortName_inj : ∀ first ∈ nameAttrs, ∀ second ∈ nameAttrs,
    first.2 = second.2 → first.1 = second.1 := by decide

theorem shortName_chars : ∀ entry ∈ nameAttrs, ∀ c ∈ entry.2.toList,
    c ≠ '.' ∧ c ≠ '\\' ∧ c ∉ separators := by decide

theorem typeText_cases (arcs : List ℕ) :
    typeText arcs = dotted arcs ∨ (dotted arcs, typeText arcs) ∈ nameAttrs := by
  unfold typeText
  cases hfind : find (dotted arcs) nameAttrs with
  | none => exact Or.inl rfl
  | some name => exact Or.inr (mem_of_find_eq_some hfind)

theorem typeText_plain (arcs : List ℕ) : Plain '\\' separators (typeText arcs).toList := by
  rcases typeText_cases arcs with hdotted | hshort
  · rw [hdotted]
    have hchars := dotted_chars arcs
    refine plain_of_forall (fun hmem => absurd (hchars _ hmem) (by decide)) ?_
    intro c hc hsep
    have hdigit := hchars c hc
    simp only [separators, List.mem_cons, List.not_mem_nil, or_false] at hsep
    rcases hsep with rfl | rfl | rfl <;> exact absurd hdigit (by decide)
  · have hchars := shortName_chars _ hshort
    exact plain_of_forall (fun hmem => (hchars _ hmem).2.1 rfl) fun c hc => (hchars c hc).2.2

/-- **An attribute type is determined by how it is written.** -/
theorem typeText_inj {first second : ObjectId}
    (heq : typeText first.arcs = typeText second.arcs) : first.arcs = second.arcs := by
  have hdot : ∀ {oid other : ObjectId}, (dotted oid.arcs, dotted other.arcs) ∉ nameAttrs := by
    intro oid other hmem
    exact (shortName_chars _ hmem _ (dot_mem_dotted other)).1 rfl
  refine dotted_inj (List.cons_ne_nil _ _) (List.cons_ne_nil _ _) ?_
  rcases typeText_cases first.arcs with hfirst | hfirst
  · rcases typeText_cases second.arcs with hsecond | hsecond
    · exact hfirst.symm.trans (heq.trans hsecond)
    · rw [← heq, hfirst] at hsecond
      exact absurd hsecond hdot
  · rcases typeText_cases second.arcs with hsecond | hsecond
    · rw [heq, hsecond] at hfirst
      exact absurd hfirst hdot
    · exact shortName_inj _ hfirst _ hsecond heq

/-! ## Levels -/

/-- Lists with the same images under `f` have the same images under what `f` determines. -/
theorem map_eq_of_determines {α β γ : Type} {f : α → β} {g : α → γ}
    (hdetermines : ∀ x y, f x = f y → g x = g y) {xs ys : List α} (heq : xs.map f = ys.map f) :
    xs.map g = ys.map g := by
  induction xs generalizing ys with
  | nil =>
      cases ys with
      | nil => rfl
      | cons y rest => cases heq
  | cons x rest ih =>
      cases ys with
      | nil => cases heq
      | cons y rest' =>
          obtain ⟨hhead, htail⟩ := List.cons.inj heq
          rw [List.map_cons, List.map_cons, hdetermines x y hhead, ih htail]

theorem pairText_plain (pair : List ℕ × List Char) :
    Plain '\\' ['+', ','] (pairText pair).toList := by
  have hsubset : ∀ c ∈ ['+', ','], c ∈ separators := by decide
  rw [pairText, String.toList_append, String.toList_append]
  refine Plain.append (Plain.append ((typeText_plain pair.1).mono hsubset) ?_)
    ((escape_value pair.2).1.mono hsubset)
  exact plain_of_forall (by decide) (by decide)

theorem pairText_inj {first second : NameAttribute}
    (heq : pairText first.pair = pairText second.pair) : first.pair = second.pair := by
  have hchars := congrArg String.toList heq
  rw [pairText, pairText, String.toList_append, String.toList_append, String.toList_append,
    String.toList_append, List.append_assoc, List.append_assoc] at hchars
  have hsep : '=' ∈ separators := by decide
  obtain ⟨htype, _, hvalue⟩ := (typeText_plain first.pair.1).split (typeText_plain second.pair.1)
    hsep hsep (by decide) hchars
  have harcs := typeText_inj (String.toList_inj.mp htype)
  have htext := rfc4514Escape_inj (String.toList_inj.mp hvalue)
  exact Prod.ext harcs htext

theorem pairsText_plain (pairs : List (List ℕ × List Char)) :
    Plain '\\' [','] (pairsText pairs).toList := by
  rw [pairsText, toList_join]
  refine plain_intercalate ?_ (by decide) (by decide)
  intro text htext
  obtain ⟨word, hword, rfl⟩ := List.mem_map.mp htext
  obtain ⟨pair, _, rfl⟩ := List.mem_map.mp hword
  exact (pairText_plain pair).mono (by decide)

theorem pairsText_inj {first second : NameRdn}
    (heq : pairsText first.pairs = pairsText second.pairs) : first.pairs = second.pairs := by
  have hplain : ∀ rdn : NameRdn, ∀ text ∈ (rdn.pairs.map pairText).map String.toList,
      Plain '\\' ['+'] text := by
    intro rdn text htext
    obtain ⟨word, hword, rfl⟩ := List.mem_map.mp htext
    obtain ⟨pair, _, rfl⟩ := List.mem_map.mp hword
    exact (pairText_plain pair).mono (by decide)
  have hne : ∀ rdn : NameRdn, (rdn.pairs.map pairText).map String.toList ≠ [] := by
    intro rdn
    simpa [NameRdn.pairs] using rdn.nonempty
  have hchars := congrArg String.toList heq
  rw [pairsText, pairsText, toList_join, toList_join] at hchars
  have htexts := plain_intercalate_inj (hne first) (hne second) (hplain first) (hplain second)
    (by decide) hchars
  simp only [NameRdn.pairs, List.map_map] at htexts ⊢
  exact map_eq_of_determines (fun x y hxy => pairText_inj (String.toList_inj.mp hxy)) htexts

theorem pairsText_ne_empty (rdn : NameRdn) : pairsText rdn.pairs ≠ "" := by
  obtain ⟨attr, rest, hattrs⟩ := List.exists_cons_of_ne_nil rdn.nonempty
  rw [pairsText, NameRdn.pairs, hattrs, List.map_cons, List.map_cons]
  refine join_ne_empty ?_ _
  intro hempty
  have hmem : '=' ∈ (pairText attr.pair).toList := by
    rw [pairText, String.toList_append, String.toList_append]
    simp
  rw [hempty] at hmem
  cases hmem

/-- **A name is determined, up to its string types, by how it is written.** -/
theorem entityText_inj {first second : X501Name}
    (heq : entityText first.entity = entityText second.entity) : first.entity = second.entity := by
  have hplain : ∀ name : X501Name, ∀ text ∈ (name.entity.map pairsText).reverse.map String.toList,
      Plain '\\' [','] text := by
    intro name text htext
    obtain ⟨word, hword, rfl⟩ := List.mem_map.mp htext
    obtain ⟨pairs, _, rfl⟩ := List.mem_map.mp (List.mem_reverse.mp hword)
    exact pairsText_plain pairs
  have hempty : ∀ {name : X501Name}, entityText name.entity = "" → name = [] := by
    intro name hname
    rcases List.eq_nil_or_concat name with hnil | ⟨init, rdn, rfl⟩
    · exact hnil
    · refine absurd hname ?_
      rw [entityText, X501Name.entity, List.concat_eq_append, List.map_append, List.map_append,
        List.reverse_append]
      exact join_ne_empty (pairsText_ne_empty rdn) _
  by_cases hfirst : first = []
  · subst hfirst
    rw [hempty heq.symm]
  · have hsecond : second ≠ [] := by
      rintro rfl
      exact hfirst (hempty heq)
    have hchars := congrArg String.toList heq
    rw [entityText, entityText, toList_join, toList_join] at hchars
    have htexts := plain_intercalate_inj (by simpa [X501Name.entity] using hfirst)
      (by simpa [X501Name.entity] using hsecond) (hplain first) (hplain second) (by decide) hchars
    have hnames := List.map_injective_iff.mpr (fun _ _ => String.toList_inj.mp) htexts
    simp only [X501Name.entity, List.reverse_inj, List.map_map] at hnames ⊢
    exact map_eq_of_determines (fun x y hxy => pairsText_inj hxy) hnames

/-! ## What is read -/

section Reading

variable {buf content rest : Bytes} {pos start stop : ℕ}

/-- An element that is read where one stands is that element.  A buffer has fewer than 2⁶³ bytes,
so that no length of it wraps. -/
theorem element_of_derTlv {tag : UInt8} {read : Tlv} (hbuf : buf.length < 2 ^ 63)
    (hfills : Fills buf pos stop (element tag content ++ rest))
    (hread : derTlv buf pos stop = .ok read) :
    read.tag = tag.toNat ∧ Fills buf read.start read.stop content ∧ Fills buf read.stop stop rest := by
  have hstop := hfills.stop_eq
  have hinside := hfills.stands.le
  have hlength := length_element tag content
  rw [List.length_append] at hstop hinside
  have htagByte : byteAt buf pos = .ok tag.toNat := byteAt_standsAt hfills.stands.left
  have hlow : tag.toNat % 0x20 ≠ 0x1F := by
    intro hhigh
    obtain ⟨_, _, hread⟩ := except_bind_ok.mp hread
    rw [htagByte, ok_bind, raiseIf_of hhigh] at hread
    cases hread
  by_cases hsize : content.length < 2 ^ 32
  · rw [derTlv_element hfills.stands.left (by omega) hlow hsize] at hread
    obtain rfl := Except.ok.inj hread
    refine ⟨rfl, ⟨hfills.stands.left.right, ?_⟩, ⟨hfills.stands.right, ?_⟩⟩
    · rw [hlength, Nat.add_assoc]
    · rw [hstop, Nat.add_assoc]
  · -- The length does not fit into four bytes.
    refine absurd hread ?_
    have hwidth : byteWidth content.length ≤ 8 :=
      @byteWidth_le content.length 8 (by norm_num; omega)
    have hwide : 4 < byteWidth content.length := by
      by_contra hnarrow
      have hle := Nat.pow_le_pow_right (n := 256) (by decide) (Nat.le_of_not_lt hnarrow)
      have hlt := lt_pow_byteWidth content.length
      norm_num at hle
      omega
    have hlengthBytes : StandsAt buf (pos + 1) (lengthBytes content.length) :=
      hfills.stands.left.left.tail
    rw [lengthBytes, if_neg (by omega)] at hlengthBytes
    have hfirst : (UInt8.ofNat (0x80 + byteWidth content.length)).toNat =
        0x80 + byteWidth content.length := by
      rw [UInt8.toNat_ofNat']
      omega
    have hwidthByte := byteAt_standsAt hlengthBytes
    rw [hfirst] at hwidthByte
    rw [derTlv, raiseIf_of_not (by omega), ok_bind, htagByte, ok_bind, raiseIf_of_not hlow, ok_bind,
      hwidthByte, ok_bind, if_neg (by omega)]
    dsimp only
    rw [raiseIf_of (by omega)]
    rintro ⟨⟩

/-- The loop over encoded elements, if it returns. -/
theorem readElements_of_ok {σ τ : Type} {use : Tlv → σ → Reader σ} {encode : τ → Bytes}
    {effect : σ → τ → σ} {xs : List τ} {state final : σ} (hne : ∀ x, encode x ≠ [])
    (hbody : ∀ x ∈ xs, ∀ pos rest state read after, Fills buf pos stop (encode x ++ rest) →
      derTlv buf pos stop = .ok read → (use read state).ended = .ok after →
      after = effect state x ∧ Fills buf read.stop stop rest)
    (hfills : Fills buf start stop (xs.flatMap encode))
    (hended : (readElements buf start stop use state).ended = .ok final) :
    final = xs.foldl effect state := by
  induction xs generalizing start state with
  | nil =>
      have hend := hfills.stop_eq
      rw [List.flatMap_nil, List.length_nil] at hend
      rw [readElements, Scan.run_of_ge (by omega)] at hended
      exact (Except.ok.inj hended).symm
  | cons x rest ih =>
      rw [List.flatMap_cons] at hfills
      have hstop := hfills.stop_eq
      have hpositive := List.length_pos_iff.mpr (hne x)
      rw [List.length_append] at hstop
      rw [readElements, Scan.run_of_lt (by omega)] at hended
      obtain ⟨⟨next, after⟩, hturn, hended⟩ := Gen.bind_ended_ok.mp hended
      obtain ⟨read, hread, hturn⟩ := Gen.bind_ended_ok.mp hturn
      obtain ⟨used, huse, hturn⟩ := Gen.bind_ended_ok.mp hturn
      obtain ⟨rfl, rfl⟩ := Prod.mk.inj (Except.ok.inj hturn)
      obtain ⟨rfl, hrest⟩ :=
        hbody x List.mem_cons_self start _ state read used hfills hread huse
      exact ih (fun y hy => hbody y (List.mem_cons_of_mem x hy)) hrest hended

theorem foldl_snoc {σ τ : Type} (f : τ → σ) (xs : List τ) (seen : List σ) :
    xs.foldl (fun seen x => seen ++ [f x]) seen = seen ++ xs.map f := by
  induction xs generalizing seen with
  | nil => rw [List.foldl_nil, List.map_nil, List.append_nil]
  | cons x rest ih => rw [List.foldl_cons, ih, List.map_cons, List.append_assoc,
      List.singleton_append]

theorem derOid_of_ok {oid : ObjectId} {text : String}
    (hended : (derOid intended oid.content).ended = .ok text) : text = dotted oid.arcs := by
  by_cases honeByte : 40 * oid.top + oid.second < 0x80
  · rw [← oid.content_narrow honeByte, derOid_content] at hended
    exact (Except.ok.inj hended).symm
  · obtain ⟨byte, rest, hcontent, hhigh⟩ := oid.content_head (Nat.le_of_not_lt honeByte)
    obtain ⟨_, _, hended⟩ := Gen.bind_ended_ok.mp hended
    obtain ⟨first, hfirst, hended⟩ := Gen.bind_ended_ok.mp hended
    obtain ⟨_, hshort, _⟩ := Gen.bind_ended_ok.mp hended
    rw [hcontent] at hfirst
    obtain rfl : byte.toNat = first := Except.ok.inj hfirst
    exact absurd hhigh (raiseIf_ok.mp hshort)

theorem attributeText_of_ok {attr : NameAttribute} {read : Tlv} {text : String}
    (hbuf : buf.length < 2 ^ 63)
    (hfills : Fills buf read.start read.stop (element 0x06 attr.type.content ++
      element attr.stringType.tag (attr.stringType.encode attr.value)))
    (hended : (attributeText intended buf read).ended = .ok text) : text = pairText attr.pair := by
  obtain ⟨_, _, hended⟩ := Gen.bind_ended_ok.mp hended
  obtain ⟨type, htype, hended⟩ := Gen.bind_ended_ok.mp hended
  obtain ⟨_, _, hended⟩ := Gen.bind_ended_ok.mp hended
  obtain ⟨oid, hoid, hended⟩ := Gen.bind_ended_ok.mp hended
  obtain ⟨value, hvalue, hended⟩ := Gen.bind_ended_ok.mp hended
  obtain ⟨_, htypeFills, hbehind⟩ := element_of_derTlv hbuf hfills htype
  rw [← List.append_nil (element attr.stringType.tag _)] at hbehind
  obtain ⟨hvalueTag, hvalueFills, _⟩ := element_of_derTlv hbuf hbehind hvalue
  rw [valueOf, htypeFills.slice] at hoid
  obtain rfl := derOid_of_ok hoid
  obtain rfl := Except.ok.inj hended
  rw [hvalueTag, valueOf, hvalueFills.slice, attr.stringType.derString_encode attr.has]
  rfl

theorem rdnText_of_ok {rdn : NameRdn} {read : Tlv} {text : String} (hbuf : buf.length < 2 ^ 63)
    (hfills : Fills buf read.start read.stop (rdn.attributes.flatMap NameAttribute.encode))
    (hended : (rdnText intended buf read).ended = .ok text) : text = pairsText rdn.pairs := by
  obtain ⟨_, _, hended⟩ := Gen.bind_ended_ok.mp hended
  obtain ⟨parts, hparts, hended⟩ := Gen.bind_ended_ok.mp hended
  let effect (parts : List String) (attr : NameAttribute) := parts ++ [pairText attr.pair]
  have hloop := @readElements_of_ok _ _ _ _ _ _ _ effect _ _ _ (fun attr => element_ne_nil _ _) ?_
    hfills hparts
  · obtain rfl := Except.ok.inj hended
    rw [hloop, foldl_snoc, List.nil_append, pairsText, NameRdn.pairs, List.map_map]
    rfl
  · intro attr _ pos rest parts pair after hattr hread huse
    obtain ⟨part, hpart, huse⟩ := Gen.bind_ended_ok.mp huse
    obtain rfl := Except.ok.inj huse
    obtain ⟨_, hinside, hbehind⟩ := element_of_derTlv hbuf hattr hread
    rw [attributeText_of_ok hbuf hinside hpart]
    exact ⟨rfl, hbehind⟩

theorem derName_of_ok {name : X501Name} {text : String} (hbuf : buf.length < 2 ^ 63)
    (hfills : Fills buf start stop name.content)
    (hended : (derName intended buf start stop).ended = .ok text) :
    text = entityText name.entity := by
  obtain ⟨rdns, hrdns, hended⟩ := Gen.bind_ended_ok.mp hended
  let effect (rdns : List String) (rdn : NameRdn) := rdns ++ [pairsText rdn.pairs]
  have hloop := @readElements_of_ok _ _ _ _ _ _ _ effect _ _ _ (fun rdn => element_ne_nil _ _) ?_
    hfills hrdns
  · obtain rfl := Except.ok.inj hended
    rw [hloop, foldl_snoc, List.nil_append, entityText, X501Name.entity, List.map_map]
    rfl
  · intro rdn _ pos rest rdns set after hrdn hread huse
    obtain ⟨part, hpart, huse⟩ := Gen.bind_ended_ok.mp huse
    obtain rfl := Except.ok.inj huse
    obtain ⟨_, hinside, hbehind⟩ := element_of_derTlv hbuf hrdn hread
    rw [rdnText_of_ok hbuf hinside hpart]
    exact ⟨rfl, hbehind⟩

end Reading

/-! ## Entities -/

/-- The encoding of the name stands between the two positions of a buffer, which has fewer than
2⁶³ bytes. -/
structure NameAt (buf : Bytes) (start stop : ℕ) (name : X501Name) : Prop where
  fills : Fills buf start stop name.content
  size : buf.length < 2 ^ 63

/-- The elements of the issuer and of the subject. -/
def parties (der : Bytes) : Except Fault (Tlv × Tlv) := do
  let tbs ← tbsCertificate der
  let pos ← afterVersion der tbs.start tbs.stop
  let serialNumber ← derTlv der pos tbs.stop
  let signature ← derTlv der serialNumber.stop tbs.stop
  let issuer ← derTlv der signature.stop tbs.stop
  let validity ← derTlv der issuer.stop tbs.stop
  let subject ← derTlv der validity.stop tbs.stop
  return (issuer, subject)

theorem NameAt.rendered {buf : Bytes} {start stop : ℕ} {name : X501Name} {text : String}
    (hname : NameAt buf start stop name) (hended : (derName python buf start stop).ended = .ok text) :
    text = entityText name.entity := by
  have hstop : stop ≤ buf.length := by
    rw [hname.fills.stop_eq]
    exact hname.fills.stands.le
  exact derName_of_ok hname.size hname.fills ((follows_derName start hstop).model_ended hended)

theorem derParty_name {conv : Conversions} {der : Bytes} {pos stop after : ℕ} {message name : String}
    (hended : (derParty conv der pos stop message).ended = .ok (name, after)) :
    ∃ party, derTlv der pos stop = .ok party ∧ after = party.stop ∧
      (derName conv der party.start party.stop).ended = .ok name := by
  obtain ⟨party, hparty, hended⟩ := Gen.bind_ended_ok.mp hended
  obtain ⟨text, htext, hended⟩ := Gen.bind_ended_ok.mp hended
  obtain ⟨rfl, rfl⟩ := Prod.mk.inj (Except.ok.inj hended)
  exact ⟨party, (derExpect_ok.mp hparty).1, rfl, htext⟩

/-- The names of a certificate that is read, and what makes it self-signed. -/
theorem parseCertificate_names {sha256 : Bytes → String} {der : Bytes} {cert : Certificate}
    (hparse : (parseCertificate python sha256 der).ended = .ok cert) :
    ∃ issuer subject, parties der = .ok (issuer, subject) ∧
      (derName python der issuer.start issuer.stop).ended = .ok cert.issuer ∧
      (derName python der subject.start subject.stop).ended = .ok cert.subject ∧
      cert.selfSigned = decide (cert.subject = cert.issuer) := by
  obtain ⟨tbs, htbs, hparse⟩ := Gen.bind_ended_ok.mp hparse
  obtain ⟨pos, hpos, hparse⟩ := Gen.bind_ended_ok.mp hparse
  obtain ⟨serial, hserial, hparse⟩ := Gen.bind_ended_ok.mp hparse
  obtain ⟨⟨sigOid, signatureStop⟩, hsignature, hparse⟩ := Gen.bind_ended_ok.mp hparse
  obtain ⟨⟨issuerName, issuerStop⟩, hissuer, hparse⟩ := Gen.bind_ended_ok.mp hparse
  obtain ⟨validity, hvalidity, hparse⟩ := Gen.bind_ended_ok.mp hparse
  obtain ⟨⟨notBefore, notAfter⟩, _, hparse⟩ := Gen.bind_ended_ok.mp hparse
  obtain ⟨⟨subjectName, subjectStop⟩, hsubject, hparse⟩ := Gen.bind_ended_ok.mp hparse
  obtain ⟨spki, _, hparse⟩ := Gen.bind_ended_ok.mp hparse
  obtain ⟨key, _, hparse⟩ := Gen.bind_ended_ok.mp hparse
  obtain ⟨exts, _, hparse⟩ := Gen.bind_ended_ok.mp hparse
  obtain ⟨ca, _, hparse⟩ := Gen.bind_ended_ok.mp hparse
  obtain rfl := Except.ok.inj hparse
  obtain ⟨signature, _, hsignatureRead, _, _, _, _, rfl⟩ := derAlgorithmOid_ok.mp hsignature
  obtain ⟨issuer, hissuerRead, rfl, hissuerName⟩ := derParty_name hissuer
  obtain ⟨subject, hsubjectRead, rfl, hsubjectName⟩ := derParty_name hsubject
  refine ⟨issuer, subject, ?_, hissuerName, hsubjectName, rfl⟩
  rw [Gen.lift_ended] at htbs hpos
  rw [parties, htbs, ok_bind, hpos, ok_bind, (derExpect_ok.mp hserial).1, ok_bind, hsignatureRead,
    ok_bind, hissuerRead, ok_bind, (derExpect_ok.mp hvalidity).1, ok_bind, hsubjectRead]
  rfl

/-- **Names that `_der_name` renders to one text say the same, up to string types, and so a
certificate is taken for self-signed only if its issuer and its subject do.** -/
theorem rendered_names_agree :
    (∀ {buf buf' : Bytes} {start stop start' stop' : ℕ} {name name' : X501Name} {text : String},
      NameAt buf start stop name → NameAt buf' start' stop' name' →
      (derName python buf start stop).ended = .ok text →
      (derName python buf' start' stop').ended = .ok text → name.entity = name'.entity) ∧
    (∀ {sha256 : Bytes → String} {der : Bytes} {cert : Certificate} {issuer subject : Tlv}
      {issuerName subjectName : X501Name},
      (parseCertificate python sha256 der).ended = .ok cert →
      parties der = .ok (issuer, subject) → NameAt der issuer.start issuer.stop issuerName →
      NameAt der subject.start subject.stop subjectName → cert.selfSigned = true →
      issuerName.entity = subjectName.entity) := by
  constructor
  · intro buf buf' start stop start' stop' name name' text hname hname' hended hended'
    exact entityText_inj ((hname.rendered hended).symm.trans (hname'.rendered hended'))
  · intro sha256 der cert issuer subject issuerName subjectName hparse hparties hissuer hsubject hself
    obtain ⟨issuer', subject', hparties', hissuerText, hsubjectText, hselfSigned⟩ :=
      parseCertificate_names hparse
    obtain ⟨rfl, rfl⟩ := Prod.mk.inj (Except.ok.inj (hparties.symm.trans hparties'))
    rw [hselfSigned, decide_eq_true_eq] at hself
    rw [hself] at hsubjectText
    exact entityText_inj ((hissuer.rendered hissuerText).symm.trans (hsubject.rendered hsubjectText))

section Written

variable {name : X501Name}

theorem name_at (hsize : name.content.length < 2 ^ 32) :
    NameAt name.content 0 name.content.length name :=
  ⟨⟨standsAt_self _, (Nat.zero_add _).symm⟩, hsize.trans (by norm_num)⟩

/-- A name that is written down as attributes whose types can be converted is rendered. -/
theorem name_rendered {rdns : List Rdn} (hcontent : name.content = rdns.flatMap encodeRdn)
    (hsize : name.content.length < 2 ^ 32)
    (hconverts : ∀ oid ∈ AbstractCertificate.nameOids rdns, OidConverts oid) :
    (derName python name.content 0 name.content.length).ended = .ok (entityText name.entity) := by
  have hencloses : Encloses name.content 0 name.content.length (rdns.flatMap encodeRdn) := by
    rw [hcontent] at hsize ⊢
    exact ⟨standsAt_self _, (Nat.zero_add _).symm, hsize⟩
  have hintended := derName_encode hencloses
  have hfollows := @follows_derName name.content _ 0 le_rfl
  have hsame := hfollows.same (by
    rw [hintended, nameConversions_iff]
    exact hconverts)
  have hended : (derName python name.content 0 name.content.length).ended = .ok (nameText rdns) := by
    rw [hsame, hintended]
  rw [hended, (name_at hsize).rendered hended]

end Written

/-- The object identifier of an organization. -/
def oidOrganization : Oid :=
  ⟨2, 5, [4, 10], oidOfBasicConstraints.top_le, oidOfBasicConstraints.second_lt,
    oidOfBasicConstraints.oneByte⟩

/-- The object identifier of a common name. -/
def oidCommonName : Oid :=
  ⟨2, 5, [4, 3], oidOfBasicConstraints.top_le, oidOfBasicConstraints.second_lt,
    oidOfBasicConstraints.oneByte⟩

/-- The common name `a` of the organization `Keys, Ltd`, in a string type. -/
def companyName (stringType : StringType) (horganization : stringType.Has "Keys, Ltd".toList)
    (hcommon : stringType.Has ['a']) : X501Name :=
  [⟨[⟨⟨2, 5, [4, 10], oidOfBasicConstraints.top_le, oidOfBasicConstraints.second_lt⟩, stringType,
      "Keys, Ltd".toList, horganization⟩], List.cons_ne_nil _ _⟩,
    ⟨[⟨⟨2, 5, [4, 3], oidOfBasicConstraints.top_le, oidOfBasicConstraints.second_lt⟩, stringType,
      ['a'], hcommon⟩], List.cons_ne_nil _ _⟩]

theorem tag_low (stringType : StringType) : stringType.tag.toNat % 0x20 ≠ 0x1F := by
  cases stringType <;> decide

/-- Its attributes. -/
def companyRdns (stringType : StringType) : List Rdn :=
  [[⟨oidOrganization, ⟨stringType.tag, stringType.encode "Keys, Ltd".toList, tag_low stringType⟩⟩],
    [⟨oidCommonName, ⟨stringType.tag, stringType.encode ['a'], tag_low stringType⟩⟩]]

theorem companyRdns_converts (stringType : StringType) :
    ∀ oid ∈ AbstractCertificate.nameOids (companyRdns stringType), OidConverts oid := by
  have hsmall : ∀ oid ∈ [oidOrganization, oidCommonName], ∀ arc ∈ oid.arcs, arc < 10 ^ 2 := by
    decide
  intro oid hoid arc harc
  have hlt : arc < 10 ^ 2 := hsmall oid hoid arc harc
  exact hlt.trans_le (Nat.pow_le_pow_right (by decide) (by decide))

/-- One name in two string types: both are rendered, to one text. -/
theorem rendered_names_agree_twoTypes :
    (companyName .utf8String trivial trivial).entity =
      (companyName .printableString (by simp [StringType.Has]) (by simp [StringType.Has])).entity :=
  rendered_names_agree.1 (name_at (by decide +kernel)) (name_at (by decide +kernel))
    (@name_rendered _ (companyRdns .utf8String) (by decide +kernel) (by decide +kernel)
      (companyRdns_converts _))
    (@name_rendered _ (companyRdns .printableString) (by decide +kernel) (by decide +kernel)
      (companyRdns_converts _))

end PqcReadiness.Certs
