import Mathlib.Data.Nat.Bitwise
import PqcReadiness.Lib.Dict
import PqcReadiness.Lib.Lines
import PqcReadiness.Lib.Utf8
import PqcReadiness.Lib.Varint

/-!
# The build info of a Go binary

`parse_go_buildinfo` reads what the Go linker leaves in a binary: a header, the version of the
toolchain, and the module info, which is a text of lines between two marks.  `GoBuildInfo` is what
a toolchain writes, `GoBuildInfo.blob` the bytes that it writes it as, and the module info is read
back from them whatever stands behind.
-/

namespace PqcReadiness.Runtime

open PqcReadiness.Lib

/-! ## The code -/

/-- `ValueError("bad uvarint")`. -/
inductive GoFault
  | badUvarint
  deriving DecidableEq

/-- The loop of `_read_uvarint`, on the bytes that are left. -/
def readUvarintLoop : Bytes → ℕ → ℕ → ℕ → Except GoFault (ℕ × ℕ)
  | [], _, _, _ => .error .badUvarint
  | byte :: rest, pos, result, shift =>
      let result := result ||| (byte.toNat &&& 0x7F) <<< shift
      if byte.toNat &&& 0x80 = 0 then .ok (result, pos + 1)
      else if 63 < shift + 7 then .error .badUvarint
      else readUvarintLoop rest (pos + 1) result (shift + 7)

/-- `_read_uvarint`: the number, and the position behind it. -/
def readUvarint (data : Bytes) (pos : ℕ) : Except GoFault (ℕ × ℕ) :=
  readUvarintLoop (data.drop pos) pos 0 0

/-- `_GO_MAGIC`. -/
def goMagic : Bytes := 0xFF :: encodeAscii " Go buildinf:"

/-- The result of `parse_go_buildinfo`: `format` is `"pointer"` or `"inline"`. -/
inductive GoBuildRead
  | pointer
  | inline (goVersion mainModule : Option (List Char)) (settings : Dict (List Char) (List Char))

/-- The module info without the marks around it. -/
def stripSentinels (mod : List Char) : List Char :=
  if 33 ≤ mod.length ∧ mod[mod.length - 17]? = some '\n' then (mod.take (mod.length - 16)).drop 16
  else mod

/-- The setting that a line has. -/
def buildSetting (text : List Char) : Option (List Char × List Char) :=
  if "build\t".toList.isPrefixOf text && text.contains '=' then
    let rest := text.drop 6
    some (rest.takeWhile (· ≠ '='), (rest.dropWhile (· ≠ '=')).drop 1)
  else none

/-- The path that a line has. -/
def modulePath (text : List Char) : Option (List Char) :=
  if (buildSetting text).isNone && "path\t".toList.isPrefixOf text then some (text.drop 5) else none

/-- `parse_go_buildinfo`. -/
def parseGoBuildinfo (blob : Bytes) : Except GoFault (Option GoBuildRead) :=
  if !goMagic.isPrefixOf blob ∨ blob.length < 32 then .ok none
  else if (blob.getD 15 0).toNat &&& 0x2 ≠ 0x2 then .ok (some .pointer)
  else do
    let (n, pos) ← readUvarint blob 32
    let version := replaceUtf8From .start ((blob.drop pos).take n)
    let (m, pos) ← readUvarint blob (pos + n)
    let mod := replaceUtf8From .start ((blob.drop pos).take m)
    let lines := splitLinesChars (stripSentinels mod)
    .ok (some (.inline (if version = [] then none else some version)
      (lines.filterMap modulePath).getLast? (Dict.ofLast (lines.filterMap buildSetting))))

/-! ## Numbers -/

theorem readUvarintLoop_eq (groups : ℕ) (data : Bytes) (pos result : ℕ) {shift : ℕ}
    (hshift : shift + 7 * (groups + 1) = 70) (hresult : result < 2 ^ shift) :
    readUvarintLoop data pos result shift =
      match readGroups (groups + 1) data with
      | none => .error .badUvarint
      | some (n, width) => .ok (result + n * 2 ^ shift, pos + width) := by
  induction data generalizing groups pos result shift with
  | nil => rfl
  | cons byte rest ih =>
      have hbyte : byte.toNat < 256 := byte.toNat_lt
      have hlow : byte.toNat &&& 0x7F = byte.toNat % 128 := Nat.and_two_pow_sub_one_eq_mod _ 7
      have hhigh : byte.toNat &&& 0x80 = 0 ↔ byte.toNat < 128 := by
        rw [show 0x80 = 2 ^ 7 from rfl, Nat.and_two_pow, Nat.testBit_eq_decide_div_mod_eq]
        by_cases hlt : byte.toNat < 128
        · simp [Nat.div_eq_of_lt hlt, hlt]
        · have hone : byte.toNat / 128 % 2 = 1 := by omega
          simp [hone, hlt]
      -- The bits of the next group do not meet those that are there.
      have hor : result ||| (byte.toNat % 128) <<< shift =
          result + byte.toNat % 128 * 2 ^ shift := by
        rw [Nat.or_comm, ← Nat.shiftLeft_add_eq_or_of_lt hresult, Nat.shiftLeft_eq, Nat.add_comm]
      rw [readUvarintLoop, readGroups, hlow, hor]
      by_cases hlast : byte.toNat < 128
      · rw [if_pos (hhigh.mpr hlast), if_pos hlast, Nat.mod_eq_of_lt hlast]
      · rw [if_neg (fun h => hlast (hhigh.mp h)), if_neg hlast]
        cases groups with
        | zero =>
            rw [if_pos (by omega), readGroups]
            rfl
        | succ groups =>
            have hmore : result + byte.toNat % 128 * 2 ^ shift < 2 ^ (shift + 7) := by
              rw [pow_add]
              have hgroup : byte.toNat % 128 + 1 ≤ 2 ^ 7 := by omega
              calc result + byte.toNat % 128 * 2 ^ shift
                  < (byte.toNat % 128 + 1) * 2 ^ shift := by
                    rw [Nat.add_mul, Nat.one_mul]
                    omega
                _ ≤ 2 ^ 7 * 2 ^ shift := Nat.mul_le_mul_right _ hgroup
                _ = 2 ^ shift * 2 ^ 7 := Nat.mul_comm _ _
            rw [if_neg (by omega), ih groups (pos + 1) _ (by omega) hmore]
            cases readGroups (groups + 1) rest with
            | none => rfl
            | some read =>
                obtain ⟨n, width⟩ := read
                have hsplit : byte.toNat % 128 = byte.toNat - 128 := by omega
                simp only [Option.map_some]
                congr 2
                · rw [hsplit, pow_add, Nat.add_mul, Nat.add_assoc]
                  congr 2
                  rw [show (2 : ℕ) ^ 7 = 128 from rfl, Nat.mul_comm 128 n, Nat.mul_assoc n 128,
                    Nat.mul_comm 128 (2 ^ shift)]
                · omega

/-- The number that stands at a position, if ten bytes are enough for it. -/
theorem readUvarint_of_append {data before after : Bytes} {n : ℕ}
    (hdata : data = before ++ (uvarint n ++ after)) :
    readUvarint data before.length =
      if n < 2 ^ 70 then .ok (n, before.length + (uvarint n).length) else .error .badUvarint := by
  have hpow : 128 ^ (9 + 1) = 2 ^ 70 := by decide
  rw [readUvarint, hdata, List.drop_left, readUvarintLoop_eq 9 _ _ 0 rfl (by decide),
    readGroups_uvarint, hpow]
  by_cases hn : n < 2 ^ 70
  · rw [if_pos hn, if_pos hn]
    simp
  · rw [if_neg hn, if_neg hn]

/-! ## What a toolchain writes -/

/-- A line of the module info. -/
inductive GoLine
  | path (text : List Char)
  | build (key value : List Char)
  | other (text : List Char)

namespace GoLine

def text : GoLine → List Char
  | path text => "path\t".toList ++ text
  | build key value => "build\t".toList ++ (key ++ '=' :: value)
  | other text => text

/-- A line that can be told from the others: it has no line breaks, a key ends at its first `=`, and
the other lines are neither. -/
def Fits : GoLine → Prop
  | path text => IsLine text
  | build key value => IsLine key ∧ '=' ∉ key ∧ IsLine value
  | other text =>
      IsLine text ∧ ¬ "path\t".toList <+: text ∧ ¬ ("build\t".toList <+: text ∧ '=' ∈ text)

def path? : GoLine → Option (List Char)
  | path text => some text
  | _ => none

def setting? : GoLine → Option (List Char × List Char)
  | build key value => some (key, value)
  | _ => none

variable {l : GoLine}

theorem Fits.isLine (hfits : l.Fits) : IsLine l.text := by
  have hpath : ∀ c ∈ "path\t".toList, isLineBreak c = false := by decide
  have hbuild : ∀ c ∈ "build\t".toList, isLineBreak c = false := by decide
  cases l with
  | path text => exact List.forall_mem_append.mpr ⟨hpath, hfits⟩
  | build key value =>
      obtain ⟨hkey, -, hvalue⟩ := hfits
      intro c hc
      simp only [text, List.mem_append, List.mem_cons] at hc
      rcases hc with hc | hc | rfl | hc
      · exact hbuild c hc
      · exact hkey c hc
      · rfl
      · exact hvalue c hc
  | other text => exact hfits.1

theorem Fits.buildSetting (hfits : l.Fits) : buildSetting l.text = l.setting? := by
  cases l with
  | path text => rfl
  | build key value =>
      have hstops : ∀ c ∈ key, decide (c ≠ '=') = true := by
        intro c hc
        rw [decide_eq_true_eq]
        rintro rfl
        exact hfits.2.1 hc
      have hrest : (GoLine.build key value).text.drop 6 = key ++ '=' :: value := rfl
      have htake : (key ++ '=' :: value).takeWhile (fun c => decide (c ≠ '=')) = key := by
        rw [List.takeWhile_append_of_pos hstops]
        simp
      have hdrop : (key ++ '=' :: value).dropWhile (fun c => decide (c ≠ '=')) = '=' :: value := by
        rw [List.dropWhile_append_of_pos hstops]
        simp
      rw [Runtime.buildSetting, if_pos (by simp [text]), hrest]
      dsimp only
      rw [htake, hdrop]
      rfl
  | other text =>
      rw [Runtime.buildSetting, if_neg]
      · rfl
      · simpa [GoLine.text, List.isPrefixOf_iff_prefix] using hfits.2.2

theorem Fits.modulePath (hfits : l.Fits) : modulePath l.text = l.path? := by
  rw [Runtime.modulePath, hfits.buildSetting]
  cases l with
  | path text => rfl
  | build key value => rfl
  | other text =>
      have hpath : "path\t".toList.isPrefixOf text = false := by
        rw [Bool.eq_false_iff, Ne, List.isPrefixOf_iff_prefix]
        exact hfits.2.1
      have htext : (GoLine.other text).text = text := rfl
      rw [htext, hpath, Bool.and_false]
      rfl

end GoLine

/-- The build info of a binary. -/
structure GoBuildInfo where
  version : List Char
  lines : List GoLine
  fits : ∀ l ∈ lines, l.Fits

/-- The lines of the module info, each with its end. -/
def GoBuildInfo.modinfo (info : GoBuildInfo) : List Char :=
  info.lines.flatMap fun l => l.text ++ ['\n']

/-- The marks around the module info. -/
structure GoMarks where
  start : Bytes
  stop : Bytes
  start_length : (replaceUtf8From .start start).length = 16
  stop_length : (replaceUtf8From .start stop).length = 16

/-- What stands between the magic and the version; the flags say that the strings follow. -/
structure GoHeader where
  ptrSize : UInt8
  flags : UInt8
  rest : Bytes
  inline : flags.toNat &&& 0x2 = 0x2
  length : rest.length = 16

/-- A string behind its length. -/
def goString (bytes : Bytes) : Bytes := uvarint bytes.length ++ bytes

/-- The module info as it is written: nothing at all where there are no lines. -/
def GoBuildInfo.modBytes (info : GoBuildInfo) (marks : GoMarks) : Bytes :=
  if info.lines = [] then [] else marks.start ++ (encodeUtf8 info.modinfo ++ marks.stop)

/-- The build info in a binary, with what stands behind it. -/
def GoBuildInfo.blob (info : GoBuildInfo) (header : GoHeader) (marks : GoMarks) (after : Bytes) :
    Bytes :=
  goMagic ++ (header.ptrSize :: header.flags :: header.rest) ++
    (goString (encodeUtf8 info.version) ++ (goString (info.modBytes marks) ++ after))

section RoundTrip

variable (info : GoBuildInfo) (header : GoHeader) (marks : GoMarks) (after : Bytes)

theorem encodeUtf8_ne_nil {text : List Char} (hne : text ≠ []) : encodeUtf8 text ≠ [] := by
  intro hnil
  have hback := replaceUtf8_encode text
  rw [hnil, replaceUtf8From, if_pos rfl] at hback
  exact hne hback.symm

/-- The marks and the lines are decoded on their own. -/
theorem GoBuildInfo.replaceUtf8_modBytes (hlines : info.lines ≠ []) :
    replaceUtf8From .start (info.modBytes marks) =
      replaceUtf8From .start marks.start ++
        (info.modinfo ++ replaceUtf8From .start marks.stop) := by
  have hne : info.modinfo ≠ [] := by
    obtain ⟨l, rest, hl⟩ := List.exists_cons_of_ne_nil hlines
    rw [GoBuildInfo.modinfo, hl, List.flatMap_cons]
    simp
  have hafresh : StartsAfresh (encodeUtf8 info.modinfo ++ marks.stop) := by
    obtain ⟨byte, rest, hbytes⟩ := List.exists_cons_of_ne_nil (encodeUtf8_ne_nil hne)
    have hencoded := startsAfresh_encodeUtf8 info.modinfo
    rw [hbytes] at hencoded ⊢
    exact hencoded
  rw [GoBuildInfo.modBytes, if_neg hlines,
    replaceUtf8From_append (show Utf8State.start.Continues from trivial) marks.start hafresh,
    replaceUtf8_encode_append]

theorem GoBuildInfo.stripSentinels_modBytes :
    stripSentinels (replaceUtf8From .start (info.modBytes marks)) = info.modinfo := by
  by_cases hlines : info.lines = []
  · have hmod : info.modBytes marks = [] := if_pos hlines
    rw [hmod, GoBuildInfo.modinfo, hlines]
    rfl
  · rw [info.replaceUtf8_modBytes marks hlines]
    have hstart := marks.start_length
    have hstop := marks.stop_length
    generalize replaceUtf8From .start marks.start = start at hstart ⊢
    generalize replaceUtf8From .start marks.stop = stop at hstop ⊢
    -- The module info ends with a line end, which the marks leave in its place.
    obtain ⟨text, htext⟩ : ∃ text, info.modinfo = text ++ ['\n'] := by
      refine ⟨info.modinfo.dropLast, ?_⟩
      obtain ⟨front, l, hl⟩ := List.eq_nil_or_concat info.lines |>.resolve_left hlines
      rw [GoBuildInfo.modinfo, hl]
      simp
    rw [htext, stripSentinels, if_pos]
    · have htake : (start ++ (text ++ ['\n'] ++ stop)).take
          ((start ++ (text ++ ['\n'] ++ stop)).length - 16) = start ++ (text ++ ['\n']) := by
        rw [← List.append_assoc, List.length_append, hstop, Nat.add_sub_cancel, List.take_left]
      rw [htake, ← hstart, List.drop_left]
    · refine ⟨?_, ?_⟩
      · simp only [List.length_append, List.length_singleton]
        omega
      · have hindex : (start ++ (text ++ ['\n'] ++ stop)).length - 17 =
            (start ++ text).length := by
          simp only [List.length_append, List.length_singleton]
          omega
        have hsplit : start ++ (text ++ ['\n'] ++ stop) = (start ++ text) ++ '\n' :: stop := by
          simp
        rw [hindex, hsplit, List.getElem?_append_right (Nat.le_refl _), Nat.sub_self]
        rfl

theorem GoBuildInfo.splitLines_modinfo :
    splitLinesChars info.modinfo = info.lines.map GoLine.text := by
  have hlines : ∀ text ∈ info.lines.map GoLine.text, IsLine text := by
    intro text htext
    obtain ⟨l, hl, rfl⟩ := List.mem_map.mp htext
    exact (info.fits l hl).isLine
  have hsplit := splitLinesChars_flatMap .lf hlines
  rw [List.flatMap_map] at hsplit
  exact hsplit

/-- What is made of a version and of the module info. -/
def goRead (version mod : List Char) : GoBuildRead :=
  let lines := splitLinesChars (stripSentinels mod)
  .inline (if version = [] then none else some version) (lines.filterMap modulePath).getLast?
    (Dict.ofLast (lines.filterMap buildSetting))

/-- The header and the two strings, with what stands behind. -/
def goFrame (version : List Char) (mod : Bytes) : Bytes :=
  goMagic ++ (header.ptrSize :: header.flags :: header.rest) ++
    (goString (encodeUtf8 version) ++ (goString mod ++ after))

/-- The strings are found behind their lengths. -/
theorem parseGoBuildinfo_frame {version : List Char} {mod : Bytes}
    (hversion : (encodeUtf8 version).length < 2 ^ 70) (hmod : mod.length < 2 ^ 70) :
    parseGoBuildinfo (goFrame header after version mod) =
      .ok (some (goRead version (replaceUtf8From .start mod))) := by
  have hmagic : goMagic.length = 14 := rfl
  -- The header takes 32 bytes.
  obtain ⟨head, hhead, hblob⟩ : ∃ head : Bytes, head.length = 32 ∧
      goFrame header after version mod = head ++ (uvarint (encodeUtf8 version).length ++
        (encodeUtf8 version ++ (goString mod ++ after))) := by
    refine ⟨goMagic ++ (header.ptrSize :: header.flags :: header.rest), ?_, ?_⟩
    · simp [hmagic, header.length]
    · rw [goFrame, goString]
      simp only [List.append_assoc]
  have hstart : goMagic.isPrefixOf (goFrame header after version mod) = true := by
    rw [List.isPrefixOf_iff_prefix, goFrame, List.append_assoc]
    exact List.prefix_append _ _
  have hflags : (goFrame header after version mod).getD 15 0 = header.flags := by
    rw [goFrame, List.append_assoc, List.getD_eq_getElem?_getD,
      List.getElem?_append_right (by rw [hmagic]; omega), hmagic]
    rfl
  have hlong : ¬ (goFrame header after version mod).length < 32 := by
    rw [hblob, List.length_append, hhead]
    omega
  have hfirst : readUvarint (goFrame header after version mod) 32 =
      .ok ((encodeUtf8 version).length, 32 + (uvarint (encodeUtf8 version).length).length) := by
    have hread := readUvarint_of_append hblob
    rw [if_pos hversion, hhead] at hread
    exact hread
  -- The version, and what stands before the length of the module info.
  have hdrop : (goFrame header after version mod).drop
      (32 + (uvarint (encodeUtf8 version).length).length) =
        encodeUtf8 version ++ (goString mod ++ after) := by
    rw [hblob, ← hhead, ← List.drop_drop, List.drop_left, List.drop_left]
  have hfront : goFrame header after version mod =
      (head ++ (uvarint (encodeUtf8 version).length ++ encodeUtf8 version)) ++
        (uvarint mod.length ++ (mod ++ after)) := by
    rw [hblob, goString]
    simp only [List.append_assoc]
  have hsecond : readUvarint (goFrame header after version mod)
      (32 + (uvarint (encodeUtf8 version).length).length + (encodeUtf8 version).length) =
      .ok (mod.length, 32 + (uvarint (encodeUtf8 version).length).length +
        (encodeUtf8 version).length + (uvarint mod.length).length) := by
    have hread := readUvarint_of_append hfront
    rw [if_pos hmod] at hread
    simp only [List.length_append, hhead, ← Nat.add_assoc] at hread
    exact hread
  have hlast : (goFrame header after version mod).drop
      (32 + (uvarint (encodeUtf8 version).length).length + (encodeUtf8 version).length +
        (uvarint mod.length).length) = mod ++ after := by
    rw [← List.drop_drop, ← List.drop_drop, hdrop, List.drop_left, goString, List.append_assoc,
      List.drop_left]
  rw [parseGoBuildinfo, if_neg (by simp [hstart, hlong]), hflags, if_neg (by simp [header.inline]),
    hfirst]
  simp only [Bind.bind, Except.bind]
  rw [hsecond]
  dsimp only
  rw [hdrop, hlast, List.take_left, List.take_left, replaceUtf8_encode]
  rfl

/-- The lines that are written are the lines that are read. -/
theorem GoBuildInfo.goRead_modBytes :
    goRead info.version (replaceUtf8From .start (info.modBytes marks)) =
      .inline (if info.version = [] then none else some info.version)
        (info.lines.filterMap GoLine.path?).getLast?
        (Dict.ofLast (info.lines.filterMap GoLine.setting?)) := by
  have hpaths : (info.lines.map GoLine.text).filterMap modulePath =
      info.lines.filterMap GoLine.path? := by
    rw [List.filterMap_map]
    exact List.filterMap_congr fun l hl => (info.fits l hl).modulePath
  have hsettings : (info.lines.map GoLine.text).filterMap buildSetting =
      info.lines.filterMap GoLine.setting? := by
    rw [List.filterMap_map]
    exact List.filterMap_congr fun l hl => (info.fits l hl).buildSetting
  rw [goRead, info.stripSentinels_modBytes marks, info.splitLines_modinfo, hpaths, hsettings]

/-- **What a toolchain writes is read back, whatever stands behind it.** -/
theorem parseGoBuildinfo_blob (hversion : (encodeUtf8 info.version).length < 2 ^ 70)
    (hmod : (info.modBytes marks).length < 2 ^ 70) :
    parseGoBuildinfo (info.blob header marks after) =
      .ok (some (.inline (if info.version = [] then none else some info.version)
        (info.lines.filterMap GoLine.path?).getLast?
        (Dict.ofLast (info.lines.filterMap GoLine.setting?)))) := by
  rw [← info.goRead_modBytes marks]
  exact parseGoBuildinfo_frame header after hversion hmod

/-- The module info between its marks, also where it is empty. -/
def GoBuildInfo.wrapped (info : GoBuildInfo) (marks : GoMarks) : Bytes :=
  marks.start ++ (encodeUtf8 info.modinfo ++ marks.stop)

/-- Nothing but marks is read as nothing: no line of the marks is a path or a setting. -/
def GoMarks.Blank (marks : GoMarks) : Prop :=
  ∀ text ∈ splitLinesChars (stripSentinels (replaceUtf8From .start (marks.start ++ marks.stop))),
    modulePath text = none ∧ buildSetting text = none

/-- A dictionary is empty iff nothing was put into it. -/
theorem ofLast_eq_nil_iff {κ ν : Type*} [DecidableEq κ] {entries : List (κ × ν)} :
    Dict.ofLast entries = Dict.ofLast [] ↔ entries = [] := by
  constructor
  · intro hempty
    cases hlast : entries.reverse with
    | nil => exact List.reverse_eq_nil_iff.mp hlast
    | cons entry rest =>
        -- The last entry is found under its key.
        have hget : (Dict.ofLast entries).get? entry.1 = (Dict.ofLast []).get? entry.1 := by
          rw [hempty]
        rw [Dict.get?_ofLast, Dict.get?_ofLast, hlast, find, if_pos rfl] at hget
        cases hget
  · intro hnil
    rw [hnil]

/-- Where there are no lines, the marks have to be blank. -/
theorem goRead_nil_iff (version : List Char) :
    goRead version (replaceUtf8From .start (marks.start ++ marks.stop)) =
        .inline (some version) none (Dict.ofLast []) ↔
      version ≠ [] ∧ marks.Blank := by
  rw [goRead, GoBuildRead.inline.injEq, List.getLast?_eq_none_iff, ofLast_eq_nil_iff,
    List.filterMap_eq_nil_iff, List.filterMap_eq_nil_iff, GoMarks.Blank, ← forall₂_and]
  refine and_congr ?_ Iff.rfl
  by_cases hversion : version = []
  · rw [if_pos hversion]
    exact iff_of_false nofun (not_not_intro hversion)
  · rw [if_neg hversion]
    exact iff_of_true rfl hversion

/-- **The version, the last path and the last value of each setting come back exactly if there is a
version and, where no line stands between the marks, these hold nothing that is read.** A number
comes back at each place exactly if ten groups are enough for it. -/
theorem goBuildinfo_roundTrip_iff (hversion : (encodeUtf8 info.version).length < 2 ^ 63)
    (hmod : (info.wrapped marks).length < 2 ^ 63) :
    (parseGoBuildinfo (goFrame header after info.version (info.wrapped marks)) =
        .ok (some (.inline (some info.version) (info.lines.filterMap GoLine.path?).getLast?
          (Dict.ofLast (info.lines.filterMap GoLine.setting?)))) ↔
      info.version ≠ [] ∧ (info.lines = [] → marks.Blank)) ∧
    ∀ (n : ℕ) (before behind : Bytes),
      readUvarint (before ++ (uvarint n ++ behind)) before.length =
        if n < 2 ^ 70 then .ok (n, before.length + (uvarint n).length) else .error .badUvarint := by
  have hsmall : (2 : ℕ) ^ 63 ≤ 2 ^ 70 := by decide
  refine ⟨?_, fun n before behind => readUvarint_of_append rfl⟩
  rw [parseGoBuildinfo_frame header after (hversion.trans_le hsmall) (hmod.trans_le hsmall),
    Except.ok.injEq, Option.some_inj]
  by_cases hlines : info.lines = []
  · have hwrapped : info.wrapped marks = marks.start ++ marks.stop := by
      rw [GoBuildInfo.wrapped, GoBuildInfo.modinfo, hlines]
      rfl
    rw [hwrapped, hlines]
    apply (goRead_nil_iff marks info.version).trans
    exact and_congr_right fun _ => ⟨fun hblank _ => hblank, fun hblank => hblank rfl⟩
  · have hwrapped : info.wrapped marks = info.modBytes marks := (if_neg hlines).symm
    rw [hwrapped, info.goRead_modBytes marks, GoBuildRead.inline.injEq]
    by_cases hnone : info.version = []
    · rw [if_pos hnone]
      exact iff_of_false (fun hsame => nomatch hsame.1) fun hsome => hsome.1 hnone
    · rw [if_neg hnone]
      exact iff_of_true ⟨rfl, rfl, rfl⟩ ⟨hnone, fun hnil => absurd hnil hlines⟩

end RoundTrip

/-- The marks of the Go toolchain. -/
def goMarks : GoMarks where
  start := [0x30, 0x77, 0xAF, 0x0C, 0x92, 0x74, 0x08, 0x02, 0x41, 0xE1, 0xC1, 0x07, 0xE6, 0xD6,
    0x18, 0xE6]
  stop := [0xF9, 0x32, 0x43, 0x31, 0x86, 0x18, 0x20, 0x72, 0x00, 0x82, 0x42, 0x10, 0x41, 0x16,
    0xD8, 0xF2]
  start_length := by decide +kernel
  stop_length := by decide +kernel

/-- A server built with a setting that is given twice. -/
def serverBuild : GoBuildInfo where
  version := "go1.24.4".toList
  lines := [.path "example.com/srv".toList, .other "mod\texample.com/srv\t(devel)\t".toList,
    .build "CGO_ENABLED".toList "1".toList, .build "DefaultGODEBUG".toList "tlsmlkem=0".toList,
    .build "CGO_ENABLED".toList "0".toList]
  fits := by
    simp only [List.forall_mem_cons, GoLine.Fits, IsLine, List.not_mem_nil, false_implies,
      implies_true, and_true]
    decide +kernel

theorem parseGoBuildinfo_server :
    ∃ settings, parseGoBuildinfo (serverBuild.blob ⟨8, 2, List.replicate 16 0, rfl, rfl⟩ goMarks
        [1, 2, 3]) =
        .ok (some (.inline (some "go1.24.4".toList) (some "example.com/srv".toList) settings)) ∧
      settings.get? "DefaultGODEBUG".toList = some "tlsmlkem=0".toList ∧
      settings.get? "CGO_ENABLED".toList = some "0".toList :=
  ⟨_, parseGoBuildinfo_blob serverBuild ⟨8, 2, List.replicate 16 0, rfl, rfl⟩ goMarks [1, 2, 3]
    (by decide +kernel) (by decide +kernel), by decide +kernel, by decide +kernel⟩

/-- The marks of the toolchain hold nothing that is read. -/
example : goMarks.Blank := by
  rw [GoMarks.Blank]
  decide +kernel

theorem goBuildinfo_roundTrip_server :
    parseGoBuildinfo (goFrame ⟨8, 2, List.replicate 16 0, rfl, rfl⟩ [] serverBuild.version
        (serverBuild.wrapped goMarks)) =
      .ok (some (.inline (some serverBuild.version)
        (serverBuild.lines.filterMap GoLine.path?).getLast?
        (Dict.ofLast (serverBuild.lines.filterMap GoLine.setting?)))) :=
  (goBuildinfo_roundTrip_iff serverBuild ⟨8, 2, List.replicate 16 0, rfl, rfl⟩ goMarks []
    (by decide +kernel) (by decide +kernel)).1.mpr
      ⟨List.cons_ne_nil _ _, fun hnil => nomatch hnil⟩

/-- The empty version is read as none. -/
theorem goBuildinfo_emptyVersion :
    parseGoBuildinfo (goFrame ⟨8, 2, List.replicate 16 0, rfl, rfl⟩ [] []
        (serverBuild.wrapped goMarks)) ≠
      .ok (some (.inline (some []) (serverBuild.lines.filterMap GoLine.path?).getLast?
        (Dict.ofLast (serverBuild.lines.filterMap GoLine.setting?)))) := by
  rw [parseGoBuildinfo_frame _ _ (by decide) (by decide +kernel), goRead]
  intro hsame
  cases hsame

end PqcReadiness.Runtime
