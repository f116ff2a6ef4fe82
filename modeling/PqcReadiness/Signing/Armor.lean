import PqcReadiness.Signing.Packets

/-!
# Armored key files

An armored key file in its own terms: surrounding text, the boundaries of the block, armor
headers with the blank line behind them, the data in base 64 in lines of whole groups, and a
checksum line.  `parse_key_blob` reads the binary data out of it, unless the block ends with the
blank line behind its headers: that line is stripped with the line ends around the block, and
then the headers are taken for base 64 (`armor_roundTrip_iff`).
-/

namespace PqcReadiness.Signing

open PqcReadiness.Lib PqcReadiness.Lib.Bytes

/-! ## The armored form -/

/-- An armor header: a key of letters, digits and hyphens, and a value of one line. -/
structure ArmorHeader where
  key : List Char
  value : List Char
  key_ne : key ≠ []
  key_chars : ∀ c ∈ key, c.isAlphanum = true ∨ c = '-'
  value_line : IsLine value
  no_end : ¬ endMarker <:+: key ++ ": ".toList ++ value

/-- Its line. -/
def ArmorHeader.line (header : ArmorHeader) : List Char := header.key ++ ": ".toList ++ header.value

/-- A text in lines of so many characters. -/
def wrap (width : ℕ) (text : List Char) : List (List Char) :=
  if text = [] ∨ width = 0 then [] else text.take width :: wrap width (text.drop width)
termination_by text.length
decreasing_by
  have hpositive := List.length_pos_iff.mpr (fun h => ‹¬ _› (Or.inl h))
  rw [List.length_drop]
  omega

/-- An armored key file, as text. -/
structure ArmoredKeys where
  before : List Char
  headers : List ArmorHeader
  /-- Without headers there may be a blank line all the same. -/
  blank : Bool
  ending : LineEnd
  /-- Groups of four characters in a line. -/
  groups : ℕ
  data : Bytes
  crc : Option Bytes
  after : List Char
  groups_pos : 0 < groups
  /-- The start of the block is the first one. -/
  before_marker : ¬ beginMarker <:+: before ++ beginMarker.dropLast
  after_marker : ¬ beginMarker <:+: after

namespace ArmoredKeys

variable (armor : ArmoredKeys)

/-- The lines of the data. -/
def dataLines : List (List Char) := wrap (4 * armor.groups) (Base64.encode armor.data)

/-- The line of the checksum. -/
def crcLines : List (List Char) := armor.crc.toList.map fun crc => '=' :: Base64.encode crc

/-- The lines behind the headers. -/
def body : List (List Char) := armor.dataLines ++ armor.crcLines

/-- The lines of the headers, with the blank line. -/
def head : List (List Char) :=
  armor.headers.map ArmorHeader.line ++ if armor.headers ≠ [] ∨ armor.blank then [[]] else []

/-- What stands between the boundaries. -/
def block : List Char :=
  armor.ending.chars ++ (armor.head ++ armor.body).flatMap fun line => line ++ armor.ending.chars

/-- The text of the file. -/
def text : List Char :=
  armor.before ++ (beginMarker ++ (armor.block ++ (endMarker ++ armor.after)))

/-- Nothing follows the blank line behind the headers. -/
def EndsWithHeaders : Prop := armor.headers ≠ [] ∧ armor.data = [] ∧ armor.crc = none

end ArmoredKeys

/-! ## Characters -/

/-- What the characters of base 64 are not. -/
structure Unseparated (c : Char) : Prop where
  noBreak : isLineBreak c = false
  noSpace : isSpace c = false
  ne_colon : c ≠ ':'
  ne_dash : c ≠ '-'

theorem unseparated_digit {c : Char} (hc : Base64.IsDigit c) : Unseparated c := by
  have hall : ∀ n < 128, (Base64.digitValue (Char.ofNat n)).isSome = true →
      isLineBreak (Char.ofNat n) = false ∧ isSpace (Char.ofNat n) = false ∧
        Char.ofNat n ≠ ':' ∧ Char.ofNat n ≠ '-' := by decide +kernel
  have hvalue := hc.value
  rw [← Char.ofNat_toNat c] at hvalue
  have hfacts := hall c.toNat hc.ascii hvalue
  rw [Char.ofNat_toNat] at hfacts
  exact ⟨hfacts.1, hfacts.2.1, hfacts.2.2.1, hfacts.2.2.2⟩

theorem unseparated_encode {data : Bytes} : ∀ c ∈ Base64.encode data, Unseparated c := by
  intro c hc
  rcases Base64.mem_encode c hc with hdigit | rfl
  · exact unseparated_digit hdigit
  · exact ⟨by decide, by decide, by decide, by decide⟩

/-! ## Lines of the data -/

theorem wrap_flatten {width : ℕ} (hwidth : 0 < width) (text : List Char) :
    (wrap width text).flatten = text := by
  induction hlength : text.length using Nat.strong_induction_on generalizing text with
  | _ length ih =>
      subst hlength
      rw [wrap]
      split
      · next hend =>
          rcases hend with rfl | hzero
          · rfl
          · omega
      · next hmore =>
          have hpositive := List.length_pos_iff.mpr (fun h => hmore (Or.inl h))
          have hshorter : (text.drop width).length < text.length := by
            rw [List.length_drop]
            omega
          rw [List.flatten_cons, ih _ hshorter _ rfl, List.take_append_drop]

/-- Every line starts with a digit. -/
theorem wrap_encode_lines {groups : ℕ} (hgroups : 0 < groups) (data : Bytes) :
    ∀ line ∈ wrap (4 * groups) (Base64.encode data),
      (∃ c rest, line = c :: rest ∧ Base64.IsDigit c) ∧ ∀ c ∈ line, Unseparated c := by
  induction hlength : (Base64.encode data).length using Nat.strong_induction_on generalizing data with
  | _ length ih =>
      subst hlength
      rw [wrap]
      split
      · nofun
      · next hmore =>
          have hne : Base64.encode data ≠ [] := fun h => hmore (Or.inl h)
          have hpositive := List.length_pos_iff.mpr hne
          have hdata : data ≠ [] := by
            rintro rfl
            exact hne rfl
          obtain ⟨c, rest, hencode, hdigit⟩ := Base64.encode_head hdata
          intro line hline
          rcases List.mem_cons.mp hline with rfl | hline
          · refine ⟨⟨c, rest.take (4 * groups - 1), ?_, hdigit⟩, ?_⟩
            · rw [hencode]
              exact List.take_cons (by omega)
            · exact fun d hd => unseparated_encode d (List.mem_of_mem_take hd)
          · rw [Base64.drop_encode] at hline
            refine ih _ ?_ _ rfl line hline
            rw [← Base64.drop_encode, List.length_drop]
            omega

namespace ArmoredKeys

variable {armor : ArmoredKeys}

theorem dataLines_chars : ∀ line ∈ armor.dataLines,
    (∃ c rest, line = c :: rest ∧ Base64.IsDigit c) ∧ ∀ c ∈ line, Unseparated c :=
  wrap_encode_lines armor.groups_pos armor.data

theorem crcLines_chars : ∀ line ∈ armor.crcLines,
    (∃ rest, line = '=' :: rest) ∧ ∀ c ∈ line, Unseparated c := by
  intro line hline
  obtain ⟨crc, _, rfl⟩ := List.mem_map.mp hline
  refine ⟨⟨_, rfl⟩, List.forall_mem_cons.mpr ⟨⟨by decide, by decide, by decide, by decide⟩, ?_⟩⟩
  exact unseparated_encode

theorem body_chars : ∀ line ∈ armor.body, line ≠ [] ∧ ∀ c ∈ line, Unseparated c := by
  intro line hline
  rcases List.mem_append.mp hline with hdata | hcrc
  · obtain ⟨⟨c, rest, rfl, _⟩, hchars⟩ := dataLines_chars line hdata
    exact ⟨List.cons_ne_nil _ _, hchars⟩
  · obtain ⟨⟨rest, rfl⟩, hchars⟩ := crcLines_chars line hcrc
    exact ⟨List.cons_ne_nil _ _, hchars⟩

theorem body_strip : armor.body.map stripChars = armor.body := by
  refine (List.map_congr_left fun line hline => ?_).trans (List.map_id _)
  exact stripChars_of_noSpace fun c hc => ((body_chars line hline).2 c hc).noSpace

/-- What is left of the lines of the data and the checksum is the data. -/
theorem body_filter :
    (armor.body.filter fun line => line ≠ [] ∧ line.head? ≠ some '=').flatten =
      Base64.encode armor.data := by
  have hdata : armor.dataLines.filter (fun line => line ≠ [] ∧ line.head? ≠ some '=') =
      armor.dataLines := by
    rw [List.filter_eq_self]
    intro line hline
    obtain ⟨⟨c, rest, rfl, hdigit⟩, _⟩ := dataLines_chars line hline
    simp [hdigit.ne_pad]
  have hcrc : armor.crcLines.filter (fun line => line ≠ [] ∧ line.head? ≠ some '=') = [] := by
    rw [List.filter_eq_nil_iff]
    intro line hline
    obtain ⟨⟨rest, rfl⟩, _⟩ := crcLines_chars line hline
    simp
  rw [body, List.filter_append, hdata, hcrc, List.append_nil]
  exact wrap_flatten (Nat.mul_pos (by decide) armor.groups_pos) _

theorem body_eq_nil_iff : armor.body = [] ↔ armor.data = [] ∧ armor.crc = none := by
  have hdata : armor.dataLines = [] ↔ armor.data = [] := by
    constructor
    · intro hlines
      have hflatten := wrap_flatten (Nat.mul_pos (by decide : 0 < 4) armor.groups_pos)
        (Base64.encode armor.data)
      rw [dataLines] at hlines
      rw [hlines] at hflatten
      by_contra hne
      obtain ⟨c, rest, hencode, _⟩ := Base64.encode_head hne
      rw [hencode] at hflatten
      cases hflatten
    · intro hnil
      rw [dataLines, hnil, wrap]
      exact if_pos (Or.inl rfl)
  rw [body, List.append_eq_nil_iff, hdata, crcLines, List.map_eq_nil_iff]
  cases armor.crc <;> simp

end ArmoredKeys

/-! ## Lines of the headers -/

/-- A character of a header's key. -/
theorem keyChar_facts {c : Char} (hc : c.isAlphanum = true ∨ c = '-') :
    isLineBreak c = false ∧ isSpace c = false ∧ c ≠ '=' := by
  have hall : ∀ n < 128, (Char.ofNat n).isAlphanum = true ∨ Char.ofNat n = '-' →
      isLineBreak (Char.ofNat n) = false ∧ isSpace (Char.ofNat n) = false ∧
        Char.ofNat n ≠ '=' := by decide +kernel
  have hascii : c.toNat < 128 := by
    rcases hc with halnum | rfl
    · have hends : 'Z'.val.toNat = 90 ∧ 'z'.val.toNat = 122 ∧ '9'.val.toNat = 57 :=
        ⟨rfl, rfl, rfl⟩
      have hranges : ((decide (c.val ≥ 'A'.val ∧ c.val ≤ 'Z'.val) ||
        (c.val ≥ 'a'.val && c.val ≤ 'z'.val)) || (c.val ≥ '0'.val && c.val ≤ '9'.val)) = true :=
          halnum
      simp only [Bool.or_eq_true, Bool.and_eq_true, decide_eq_true_eq, ge_iff_le,
        UInt32.le_iff_toNat_le] at hranges
      rw [Char.toNat]
      omega
    · decide
  have hfacts := hall c.toNat hascii
  rw [Char.ofNat_toNat] at hfacts
  exact hfacts hc

theorem mem_dropWhile_of_not {α : Type*} {p : α → Bool} {x : α} {list : List α} (hx : x ∈ list)
    (hp : p x = false) : x ∈ list.dropWhile p := by
  induction list with
  | nil => cases hx
  | cons y rest ih =>
      rw [List.dropWhile_cons]
      split
      · next hy =>
          rcases List.mem_cons.mp hx with rfl | hrest
          · rw [hp] at hy
            cases hy
          · exact ih hrest
      · exact hx

namespace ArmorHeader

variable (header : ArmorHeader)

theorem isLine : IsLine header.line := by
  intro c hc
  rcases List.mem_append.mp hc with hc | hc
  · rcases List.mem_append.mp hc with hc | hc
    · exact (keyChar_facts (header.key_chars c hc)).1
    · have hboth : ∀ d ∈ ": ".toList, isLineBreak d = false := by decide
      exact hboth c hc
  · exact header.value_line c hc

theorem line_eq : ∃ c rest, header.line = c :: rest ∧ isSpace c = false ∧ c ≠ '=' := by
  obtain ⟨c, rest, hkey⟩ := List.exists_cons_of_ne_nil header.key_ne
  have hc : c ∈ header.key := by
    rw [hkey]
    exact List.mem_cons_self
  refine ⟨c, rest ++ ": ".toList ++ header.value, ?_, (keyChar_facts (header.key_chars c hc)).2⟩
  rw [line, hkey]
  rfl

/-- A header has a colon also when it is stripped. -/
theorem colon_mem : ':' ∈ stripChars header.line := by
  have hline : ':' ∈ header.line :=
    List.mem_append_left _ (List.mem_append_right _ List.mem_cons_self)
  have hleft := mem_dropWhile_of_not (p := isSpace) hline (by decide)
  exact List.mem_reverse.mpr (mem_dropWhile_of_not (List.mem_reverse.mpr hleft) (by decide))

theorem strip_ne : stripChars header.line ≠ [] := List.ne_nil_of_mem header.colon_mem

/-- The line is not taken for a checksum. -/
theorem strip_head : (stripChars header.line).head? ≠ some '=' := by
  obtain ⟨c, rest, hline, hspace, hne⟩ := header.line_eq
  have hstarts : stripChars header.line <+: c :: rest := by
    rw [stripChars, hline, List.dropWhile_cons_of_neg (by simp [hspace])]
    exact List.reverse_suffix.mp (by
      rw [List.reverse_reverse]
      exact List.dropWhile_suffix _)
  obtain ⟨d, more, hstrip⟩ := List.exists_cons_of_ne_nil header.strip_ne
  rw [hstrip] at hstarts ⊢
  obtain ⟨rfl, _⟩ := List.cons_prefix_cons.mp hstarts
  intro hhead
  exact hne (Option.some.inj hhead)

end ArmorHeader

/-! ## Lines of a block -/

namespace ArmoredKeys

variable {armor : ArmoredKeys}

theorem headers_lines : ∀ line ∈ armor.headers.map ArmorHeader.line, line ≠ [] ∧ IsLine line := by
  intro line hline
  obtain ⟨header, _, rfl⟩ := List.mem_map.mp hline
  obtain ⟨c, rest, hcons, _⟩ := header.line_eq
  refine ⟨?_, header.isLine⟩
  rw [hcons]
  exact List.cons_ne_nil c rest

theorem headers_strip : [] ∉ (armor.headers.map ArmorHeader.line).map stripChars := by
  intro hmem
  rw [List.map_map] at hmem
  obtain ⟨header, _, hnil⟩ := List.mem_map.mp hmem
  exact header.strip_ne hnil

theorem body_lines : ∀ line ∈ armor.body, line ≠ [] ∧ IsLine line :=
  fun line hline => ⟨(body_chars line hline).1, fun c hc => ((body_chars line hline).2 c hc).noBreak⟩

/-- Only the data and the checksum are left when there are no headers. -/
theorem lines_of_no_headers (hheaders : armor.headers = []) :
    splitLinesChars (stripNewlines armor.block) = armor.body := by
  have hends : ∀ (blank : Bool) (c : Char),
      c ∈ armor.ending.chars ++ (if blank then armor.ending.chars else []) → isNewline c = true := by
    intro blank c hc
    rcases List.mem_append.mp hc with hc | hc
    · exact armor.ending.isNewline c hc
    · cases blank with
      | false => cases hc
      | true => exact armor.ending.isNewline c hc
  have hhead : (armor.head.flatMap fun line => line ++ armor.ending.chars) =
      if armor.blank then armor.ending.chars else [] := by
    rw [head, hheaders]
    cases armor.blank with
    | false => rfl
    | true => exact List.append_nil _
  by_cases hbody : armor.body = []
  · have hblock : armor.block =
        (armor.ending.chars ++ if armor.blank then armor.ending.chars else []) ++
          armor.ending.chars.intercalate [] ++ [] := by
      rw [block, hbody, List.append_nil, hhead, List.append_nil]
      exact (List.append_nil _).symm
    rw [hblock, hbody]
    exact splitLinesChars_strip armor.ending (hends armor.blank) (by simp) (by simp) (by simp)
      (by simp)
  · have hblock : armor.block =
        (armor.ending.chars ++ if armor.blank then armor.ending.chars else []) ++
          armor.ending.chars.intercalate armor.body ++ armor.ending.chars := by
      rw [block, List.flatMap_append, hhead, flatMap_lines _ hbody]
      simp only [List.append_assoc]
    rw [hblock]
    exact splitLinesChars_strip armor.ending (hends armor.blank) armor.ending.isNewline
      (fun line hline => (body_lines line hline).2)
      (fun line hline => (body_lines line (List.mem_of_head? hline)).1)
      (fun line hline => (body_lines line (List.mem_of_getLast? hline)).1)

/-- The headers and the blank line are left when something follows them. -/
theorem lines_of_headers (hheaders : armor.headers ≠ []) (hbody : armor.body ≠ []) :
    splitLinesChars (stripNewlines armor.block) =
      armor.headers.map ArmorHeader.line ++ [] :: armor.body := by
  have hlines : armor.head ++ armor.body =
      armor.headers.map ArmorHeader.line ++ [] :: armor.body := by
    rw [head, if_pos (Or.inl hheaders), List.append_assoc]
    rfl
  have hblock : armor.block = armor.ending.chars ++
      armor.ending.chars.intercalate (armor.headers.map ArmorHeader.line ++ [] :: armor.body) ++
        armor.ending.chars := by
    rw [block, hlines, flatMap_lines _ (by simp), List.append_assoc]
  rw [hblock]
  refine splitLinesChars_strip armor.ending armor.ending.isNewline armor.ending.isNewline ?_ ?_ ?_
  · intro line hline
    rcases List.mem_append.mp hline with hhead | hrest
    · exact (headers_lines line hhead).2
    · rcases List.mem_cons.mp hrest with rfl | hrest
      · nofun
      · exact (body_lines line hrest).2
  · intro line hline
    have hne : armor.headers.map ArmorHeader.line ≠ [] := by simpa using hheaders
    rw [List.head?_append_of_ne_nil _ hne] at hline
    exact (headers_lines line (List.mem_of_head? hline)).1
  · intro line hline
    rw [List.getLast?_append_of_ne_nil _ (List.cons_ne_nil _ _),
      List.getLast?_cons_of_ne_nil hbody] at hline
    exact (body_lines line (List.mem_of_getLast? hline)).1

/-- The blank line is lost when nothing follows it. -/
theorem lines_of_endsWithHeaders (hends : armor.EndsWithHeaders) :
    splitLinesChars (stripNewlines armor.block) = armor.headers.map ArmorHeader.line := by
  obtain ⟨hheaders, hrest⟩ := hends
  have hbody := body_eq_nil_iff.mpr hrest
  have hne : armor.headers.map ArmorHeader.line ≠ [] := by simpa using hheaders
  have hblock : armor.block = armor.ending.chars ++
      armor.ending.chars.intercalate (armor.headers.map ArmorHeader.line) ++
        (armor.ending.chars ++ armor.ending.chars) := by
    rw [block, hbody, List.append_nil, head, if_pos (Or.inl hheaders), List.flatMap_append,
      flatMap_lines _ hne, List.flatMap_singleton]
    simp only [List.append_assoc, List.nil_append]
  rw [hblock]
  refine splitLinesChars_strip armor.ending armor.ending.isNewline ?_
    (fun line hline => (headers_lines line hline).2)
    (fun line hline => (headers_lines line (List.mem_of_head? hline)).1)
    (fun line hline => (headers_lines line (List.mem_of_getLast? hline)).1)
  intro c hc
  exact (List.mem_append.mp hc).elim (armor.ending.isNewline c) (armor.ending.isNewline c)

end ArmoredKeys

/-! ## The base 64 text of a block -/

/-- The lines behind the first blank one, if there is one. -/
theorem armorBody_eq (block : List Char) :
    armorBody block =
      let lines := (splitLinesChars (stripNewlines block)).map stripChars
      ((if [] ∈ lines then lines.drop (lines.idxOf [] + 1) else lines).filter
        fun line => line ≠ [] ∧ line.head? ≠ some '=').flatten := by
  unfold armorBody
  generalize (splitLinesChars (stripNewlines block)).map stripChars = lines
  by_cases hblank : [] ∈ lines
  · simp [hblank]
  · simp [hblank]

namespace ArmoredKeys

variable {armor : ArmoredKeys}

/-- **The data is read where the block does not end with its headers.** -/
theorem armorBody_block (hends : ¬ armor.EndsWithHeaders) :
    armorBody armor.block = Base64.encode armor.data := by
  have hnotMem : [] ∉ armor.body := fun hmem => (body_lines [] hmem).1 rfl
  rw [armorBody_eq]
  by_cases hheaders : armor.headers = []
  · rw [lines_of_no_headers hheaders, body_strip]
    simp only [if_neg hnotMem]
    exact body_filter
  · have hbody : armor.body ≠ [] := fun h => hends ⟨hheaders, body_eq_nil_iff.mp h⟩
    rw [lines_of_headers hheaders hbody, List.map_append, List.map_cons, body_strip]
    have hblank : stripChars [] = [] := rfl
    simp only [hblank]
    rw [if_pos (List.mem_append_right _ List.mem_cons_self), List.idxOf_append_of_notMem headers_strip,
      List.idxOf_cons_self, Nat.add_zero, ← List.drop_drop, List.drop_left]
    exact body_filter

/-- A block that ends with its headers is not base 64. -/
theorem decode_of_endsWithHeaders (hends : armor.EndsWithHeaders) (data : Bytes) :
    Base64.decode (armorBody armor.block) ≠ .ok data := by
  intro hdecode
  obtain ⟨header, rest, hheaders⟩ := List.exists_cons_of_ne_nil hends.1
  have hcolon : ':' ∈ armorBody armor.block := by
    rw [armorBody_eq, lines_of_endsWithHeaders hends]
    simp only [if_neg headers_strip]
    refine List.mem_flatten.mpr ⟨stripChars header.line, ?_, header.colon_mem⟩
    refine List.mem_filter.mpr ⟨?_, by simp [header.strip_ne, header.strip_head]⟩
    rw [hheaders]
    exact List.mem_cons_self
  have hdigit := Base64.decode_chars hdecode ':' hcolon
  revert hdigit
  decide

end ArmoredKeys

/-! ## The block in the file -/

/-- A marker is found where it first stands. -/
theorem cut_first {α : Type*} [DecidableEq α] {marker before : List α} (after : List α)
    (hmarker : marker ≠ []) (hbefore : ¬ marker <:+: before ++ marker.dropLast) :
    cut marker (before ++ (marker ++ after)) = some (before, after) := by
  induction before with
  | nil => exact cut_append after hmarker (fun h => hmarker (List.infix_nil.mp h)) (by simp)
  | cons x rest ih =>
      have hlength : (x :: rest ++ marker.dropLast).length = rest.length + marker.length := by
        have hpositive := List.length_pos_iff.mpr hmarker
        rw [List.length_append, List.length_cons, List.length_dropLast]
        omega
      have hnot : ¬ marker.isPrefixOf (x :: (rest ++ (marker ++ after))) = true := by
        intro hstarts
        have hstarts := List.isPrefixOf_iff_prefix.mp hstarts
        have hwhole : x :: (rest ++ (marker ++ after)) =
            (x :: rest ++ marker.dropLast) ++ ([marker.getLast hmarker] ++ after) := by
          have hsplit := List.dropLast_append_getLast hmarker
          calc x :: (rest ++ (marker ++ after))
              = x :: rest ++ ((marker.dropLast ++ [marker.getLast hmarker]) ++ after) := by
                rw [hsplit]
                rfl
            _ = _ := by simp only [List.append_assoc]
        rw [hwhole] at hstarts
        refine hbefore (List.prefix_of_prefix_length_le hstarts (List.prefix_append _ _) ?_).isInfix
        rw [hlength]
        exact Nat.le_add_left _ _
      rw [List.cons_append, cut, if_neg hnot, ih fun h => hbefore (List.infix_cons h)]
      rfl

namespace ArmoredKeys

variable {armor : ArmoredKeys}

theorem block_noEnd : ¬ endMarker <:+: armor.block := by
  intro hoccurs
  have hlines : armor.block =
      ([] :: (armor.head ++ armor.body)).flatMap fun line => line ++ armor.ending.chars := by
    rw [block, List.flatMap_cons, List.nil_append]
  rw [hlines] at hoccurs
  obtain ⟨line, hline, hin⟩ := infix_of_infix_lines armor.ending (by decide) (by decide) hoccurs
  have hempty : ¬ endMarker <:+: [] := by decide
  rcases List.mem_cons.mp hline with rfl | hline
  · exact hempty hin
  · rcases List.mem_append.mp hline with hhead | hbody
    · rcases List.mem_append.mp hhead with hheader | hblank
      · obtain ⟨header, _, rfl⟩ := List.mem_map.mp hheader
        exact header.no_end hin
      · split at hblank
        · obtain rfl := List.mem_singleton.mp hblank
          exact hempty hin
        · cases hblank
    · have hdash : '-' ∈ line := hin.subset (by decide)
      exact ((body_chars line hbody).2 '-' hdash).ne_dash rfl

theorem block_getLast : ∀ c ∈ armor.block.getLast?, c ∉ endMarker := by
  have hend : armor.ending.chars.getLast? = some '\n' := by
    cases armor.ending <;> rfl
  have hne : armor.ending.chars ≠ [] := by
    cases armor.ending <;> nofun
  have hlast : armor.block.getLast? = some '\n' := by
    rw [block]
    by_cases hlines : armor.head ++ armor.body = []
    · rw [hlines, List.flatMap_nil, List.append_nil, hend]
    · rw [flatMap_lines _ hlines, ← List.append_assoc, List.getLast?_append_of_ne_nil _ hne, hend]
  intro c hc
  rw [hlast] at hc
  obtain rfl := Option.some.inj hc
  decide

/-- The file has the one block. -/
theorem armorBlocks_text : armorBlocks armor.text = [armor.block] := by
  have hstart := cut_first (armor.block ++ (endMarker ++ armor.after)) (by decide)
    armor.before_marker
  have hend := cut_append armor.after (by decide) (@block_noEnd armor) block_getLast
  rw [text, armorBlocks_of_cut hstart hend,
    armorBlocks_of_no_start (cut_eq_none_iff.mpr armor.after_marker)]

theorem dearmor_text (hends : ¬ armor.EndsWithHeaders) : dearmor armor.text = .ok [armor.data] := by
  rw [dearmor, armorBlocks_text, List.mapM_cons, armorBody_block hends, Base64.decode_encode]
  rfl

/-- A file whose block ends with its headers is no key file. -/
theorem dearmor_endsWithHeaders (hends : armor.EndsWithHeaders) :
    ∃ message, dearmor armor.text = .error (.keyParse ("bad armor base64: " ++ message)) := by
  cases hdecode : Base64.decode (armorBody armor.block) with
  | ok data => exact absurd hdecode (decode_of_endsWithHeaders hends data)
  | error message =>
      refine ⟨message, ?_⟩
      rw [dearmor, armorBlocks_text, List.mapM_cons, hdecode]
      rfl

end ArmoredKeys

/-! ## Key files -/

theorem cut_of_replaceAscii {file : Bytes} {armor : ArmoredKeys}
    (hfile : replaceAscii file = armor.text) :
    (cut (encodeAscii (String.ofList beginMarker)) file).isSome = true := by
  rw [Option.isSome_iff_ne_none, ne_eq, cut_eq_none_iff, not_not]
  obtain ⟨before, rest, rfl, _, hrest⟩ := List.map_eq_append_iff.mp hfile
  obtain ⟨marker, behind, rfl, hmarker, _⟩ := List.map_eq_append_iff.mp hrest
  refine ⟨before, behind, ?_⟩
  have hback : ∀ n < 128, (Char.ofNat n).toNat = n := by decide +kernel
  have hbytes : encodeAscii (String.ofList beginMarker) = marker := by
    rw [encodeAscii, String.toList_ofList, ← hmarker, List.map_map]
    refine (List.map_congr_left fun byte hbyte => ?_).trans (List.map_id marker)
    have hchar : (if byte.toNat < 0x80 then Char.ofNat byte.toNat else replacementChar) ∈
        beginMarker := hmarker ▸ List.mem_map_of_mem hbyte
    rw [Function.comp_apply, id_eq]
    split at hchar
    · next hascii =>
        rw [if_pos hascii, hback byte.toNat hascii, UInt8.ofNat_toNat]
    · exact absurd hchar (by decide)
  rw [hbytes, List.append_assoc]

theorem parseOpenpgpKeys_nil (conv : KeyConversions) (hashes : Hashes) :
    parseOpenpgpKeys conv hashes [] = pure [] := by
  have hpackets : iterPackets [] = ⟨[], .ok ()⟩ := @iterPackets_encode [] trivial
  rw [parseOpenpgpKeys, hpackets, Gen.forEach_of_ok _ _ rfl, List.foldlM_nil]

/-- The file is read as an armored one. -/
theorem parseKeyBlob_armored (conv : KeyConversions) (hashes : Hashes) {armor : ArmoredKeys}
    {file : Bytes} (hfile : replaceAscii file = armor.text) :
    parseKeyBlob conv hashes file = (do
      let blocks ← dearmor armor.text
      blocks.foldlM (fun keys block => do
        let found ← parseOpenpgpKeys conv hashes block
        return keys ++ found) []) := by
  rw [parseKeyBlob, if_pos (cut_of_replaceAscii hfile), hfile]

theorem parseKeyBlob_ne_of_endsWithHeaders (conv : KeyConversions) (hashes : Hashes)
    {armor : ArmoredKeys} {file : Bytes} (hfile : replaceAscii file = armor.text)
    (hends : armor.EndsWithHeaders) :
    parseKeyBlob conv hashes file ≠ parseOpenpgpKeys conv hashes armor.data := by
  obtain ⟨message, hdearmor⟩ := ArmoredKeys.dearmor_endsWithHeaders hends
  rw [parseKeyBlob_armored conv hashes hfile, Gen.lift_bind_error hdearmor, hends.2.1,
    parseOpenpgpKeys_nil]
  intro hread
  cases congrArg Gen.ended hread

/-- **An armored key file is read as its data, unless the block ends with its headers.** -/
theorem armor_roundTrip_iff (conv : KeyConversions) (hashes : Hashes)
    {packets : List FramedPacket} (hframed : Framed packets) (armor : ArmoredKeys) (file : Bytes)
    (hfile : replaceAscii file = armor.text) (harmor : armor.data = encodePackets packets) :
    (iterPackets armor.data = ⟨packets.map Prod.snd, .ok ()⟩ ∧
        parseKeyBlob conv hashes file = parseOpenpgpKeys conv hashes armor.data) ↔
      ¬ armor.EndsWithHeaders := by
  constructor
  · rintro ⟨_, hread⟩ hends
    exact parseKeyBlob_ne_of_endsWithHeaders conv hashes hfile hends hread
  · intro hends
    refine ⟨?_, ?_⟩
    · rw [harmor]
      exact iterPackets_encode hframed
    · have hdearmor := ArmoredKeys.dearmor_text hends
      rw [parseKeyBlob_armored conv hashes hfile, Gen.lift_bind_ok hdearmor, List.foldlM_cons]
      have hrest : ∀ found : List OpenPgpKey,
          List.foldlM (fun keys block => do
            let found ← parseOpenpgpKeys conv hashes block
            return keys ++ found) found [] = pure found := fun found => List.foldlM_nil
      simp only [hrest, List.nil_append]
      rw [Gen.bind_pure_self, Gen.bind_pure_self]

/-! A block with a header and a checksum, and one that ends with the header. -/

/-- `Version: 1`. -/
def versionHeader : ArmorHeader where
  key := "Version".toList
  value := "1".toList
  key_ne := by decide
  key_chars := by decide
  value_line := by
    show ∀ c ∈ "1".toList, isLineBreak c = false
    decide
  no_end := by decide

/-- A file with that header. -/
def versionArmor (data : Bytes) (crc : Option Bytes) : ArmoredKeys where
  before := []
  headers := [versionHeader]
  blank := false
  ending := .lf
  groups := 16
  data := data
  crc := crc
  after := ['\n']
  groups_pos := by decide
  before_marker := by decide
  after_marker := by decide

theorem armor_roundTrip_version :
    let file := (versionArmor [0xCD, 1, 0x61] (some [1, 2, 3])).text.map fun c => UInt8.ofNat c.toNat
    parseKeyBlob python ⟨fun _ => "", fun _ => ""⟩ file =
      parseOpenpgpKeys python ⟨fun _ => "", fun _ => ""⟩ [0xCD, 1, 0x61] :=
  ((@armor_roundTrip_iff python ⟨fun _ => "", fun _ => ""⟩ [(.newOne, ⟨13, [0x61]⟩)] ⟨⟨by decide, by decide⟩, trivial⟩
    (versionArmor [0xCD, 1, 0x61] (some [1, 2, 3])) _ (by decide +kernel) rfl).mpr
      fun hends => absurd hends.2.1 (by decide)).2

/-- `Version: 1` and nothing behind the blank line. -/
theorem armor_not_roundTrip_headers :
    let file := (versionArmor [] none).text.map fun c => UInt8.ofNat c.toNat
    parseKeyBlob python ⟨fun _ => "", fun _ => ""⟩ file ≠
      parseOpenpgpKeys python ⟨fun _ => "", fun _ => ""⟩ (encodePackets []) :=
  @parseKeyBlob_ne_of_endsWithHeaders python ⟨fun _ => "", fun _ => ""⟩ (versionArmor [] none) _ (by decide +kernel) ⟨List.cons_ne_nil _ _, rfl, rfl⟩

end PqcReadiness.Signing
