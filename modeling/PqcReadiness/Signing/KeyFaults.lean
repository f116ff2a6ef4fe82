import PqcReadiness.Lib.Lenient
import PqcReadiness.Signing.OpenPgp

/-!
# Which key files can be read

A reader of key files fails with `KeyParseError` only, exactly if every conversion that it comes
to succeeds.

## Strategy

`intended` has conversions that do not fail.  With them a reader raises nothing but
`KeyParseError`, since every position is checked before it is read, and its log is the list of
conversions that a walk through the file comes to, up to the first malformed part.
`FollowsIntended` compares a run with one that has the intended conversions; each reader has one
lemma.

In an OpenPGP key file of at most 16 MiB the only conversion that can fail is that of the length
of a version 4 key packet to two bytes: the lengths of other key packets have four bytes, and the
object identifier of a curve has at most 255.
-/

namespace PqcReadiness.Signing

open PqcReadiness.Lib PqcReadiness.Lib.Bytes

/-- Conversions that do not fail. -/
def intended : KeyConversions where
  pack width n := .ok (ofNat .big width n)
  oid arcs := .ok (join "." (arcs.map toString))

/-- A run goes like one with the intended conversions, as long as everything converts. -/
abbrev FollowsIntended {ρ : Type} (run model : KeyReader ρ) : Prop :=
  Follows KeyConversion.Converts KeyFault.IsKeyParseError (fun fault => ¬ fault.IsKeyParseError)
    run model

/-! ## Conversions -/

theorem follows_pack (width n : ℕ) : FollowsIntended (pack python width n) (pack intended width n) := by
  have hmodel : pack intended width n = ⟨[.pack width n], .ok (ofNat .big width n)⟩ := rfl
  rw [hmodel]
  refine ⟨FailsOnly.ok _, ?_, ?_⟩
  · intro hconverts
    have hfits : n < 256 ^ width := hconverts (.pack width n) (List.mem_singleton.mpr rfl)
    rw [pack, Gen.bind_of_ok (Gen.yield_ended _)]
    simp only [python, if_pos hfits]
    rfl
  · intro ⟨conversion, hmem, hfails⟩
    obtain rfl := List.mem_singleton.mp hmem
    have hlarge : ¬ n < 256 ^ width := hfails
    rw [pack, Gen.bind_of_ok (Gen.yield_ended _)]
    simp only [python, if_neg hlarge]
    exact ⟨.structError, rfl, id⟩

theorem follows_oidText (arcs : List ℕ) :
    FollowsIntended (oidText python arcs) (oidText intended arcs) := by
  have hmodel : oidText intended arcs = ⟨[.oid arcs], .ok (join "." (arcs.map toString))⟩ := rfl
  rw [hmodel]
  refine ⟨FailsOnly.ok _, ?_, ?_⟩
  · intro hconverts
    have harcs : ∀ arc ∈ arcs, arc < 10 ^ intMaxStrDigits :=
      hconverts (.oid arcs) (List.mem_singleton.mpr rfl)
    rw [oidText, Gen.bind_of_ok (Gen.yield_ended _)]
    simp only [python, if_pos harcs]
    rfl
  · intro ⟨conversion, hmem, hfails⟩
    obtain rfl := List.mem_singleton.mp hmem
    have harcs : ¬ ∀ arc ∈ arcs, arc < 10 ^ intMaxStrDigits := hfails
    rw [oidText, Gen.bind_of_ok (Gen.yield_ended _)]
    simp only [python, if_neg harcs]
    exact ⟨.valueError, rfl, id⟩

/-! ## Readers -/

section Readers

variable {data body : Bytes} {pos : ℕ}

theorem failsOnly_check (condition : Prop) [Decidable condition] (message : String) :
    FailsOnly KeyFault.IsKeyParseError (raiseIf condition (.keyParse message)) :=
  failsOnly_raiseIf trivial

theorem failsOnly_byteAt (hpos : pos < data.length) :
    FailsOnly KeyFault.IsKeyParseError (byteAt data pos) := by
  rw [byteAt, List.getElem?_eq_getElem hpos]
  exact FailsOnly.ok _

theorem failsOnly_unpackFrom {width : ℕ} (hpos : pos + width ≤ data.length) :
    FailsOnly KeyFault.IsKeyParseError (unpackFrom width data pos) := by
  rw [unpackFrom, raiseIf_of_not (Nat.not_lt.mpr hpos), ok_bind]
  exact FailsOnly.ok _

theorem failsOnly_newLength (data : Bytes) (pos : ℕ) :
    FailsOnly KeyFault.IsKeyParseError (newLength data pos) := by
  refine (failsOnly_check _ _).bind fun _ hpos => ?_
  have hpos := raiseIf_ok.mp hpos
  refine (failsOnly_byteAt (by omega)).bind fun b0 _ => ?_
  split
  · exact FailsOnly.ok _
  · split
    · refine (failsOnly_check _ _).bind fun _ hnext => ?_
      have hnext := raiseIf_ok.mp hnext
      exact (failsOnly_byteAt (by omega)).bind fun _ _ => FailsOnly.ok _
    · split
      · refine (failsOnly_check _ _).bind fun _ hfour => ?_
        have hfour := raiseIf_ok.mp hfour
        exact (failsOnly_unpackFrom (by omega)).bind fun _ _ => FailsOnly.ok _
      · exact FailsOnly.error.mpr trivial

theorem failsOnly_oldLength (data : Bytes) (lengthType pos : ℕ) :
    FailsOnly KeyFault.IsKeyParseError (oldLength data lengthType pos) := by
  unfold oldLength
  split
  · exact FailsOnly.ok _
  · exact (failsOnly_check _ _).bind fun _ _ => FailsOnly.ok _

theorem failsOnly_packetAt (hpos : pos < data.length) :
    FailsOnly KeyFault.IsKeyParseError (packetAt data pos) := by
  have hbody : ∀ tag length start,
      FailsOnly KeyFault.IsKeyParseError (packetBody data tag length start) := fun _ _ _ =>
    (failsOnly_check _ _).bind fun _ _ => FailsOnly.ok _
  refine (failsOnly_byteAt hpos).bind fun hdr _ => (failsOnly_check _ _).bind fun _ _ => ?_
  split
  · exact (failsOnly_newLength _ _).bind fun _ _ => hbody _ _ _
  · exact (failsOnly_oldLength _ _ _).bind fun _ _ => hbody _ _ _

theorem failsOnly_iterPackets (data : Bytes) :
    FailsOnly KeyFault.IsKeyParseError (iterPackets data).ended := by
  refine Scan.failsOnly_run (fun pos state hpos => ?_) 0 ()
  refine Gen.failsOnly_bind (failsOnly_packetAt hpos) fun packet _ => ?_
  exact Gen.failsOnly_bind (FailsOnly.ok ()) fun _ _ => FailsOnly.ok _

theorem failsOnly_dearmor (text : List Char) :
    FailsOnly KeyFault.IsKeyParseError (dearmor text) := by
  unfold dearmor
  induction armorBlocks text with
  | nil => exact FailsOnly.ok _
  | cons block rest ih =>
      rw [List.mapM_cons]
      refine FailsOnly.bind ?_ fun data _ => ih.bind fun _ _ => FailsOnly.ok _
      cases Base64.decode (armorBody block) with
      | error message => exact FailsOnly.error.mpr trivial
      | ok data => exact FailsOnly.ok _

theorem follows_oidStr (value : Bytes) :
    FollowsIntended (oidStr python value) (oidStr intended value) := by
  refine (Follows.lift (failsOnly_check _ _)).bind fun _ hne => ?_
  have hlength : 0 < value.length := List.length_pos_iff.mpr (raiseIf_ok.mp hne)
  exact (Follows.lift (failsOnly_byteAt hlength)).bind fun _ _ => follows_oidText _

theorem follows_versionFields (hashes : Hashes) (version : ℕ) (hlength : 6 ≤ body.length) :
    FollowsIntended (versionFields python hashes version body)
      (versionFields intended hashes version body) := by
  unfold versionFields
  split
  · exact (Follows.lift (failsOnly_unpackFrom (by omega))).bind fun _ _ => Follows.pure _
  · split
    · refine (Follows.lift (failsOnly_unpackFrom (by omega))).bind fun created _ => ?_
      refine (Follows.lift (failsOnly_byteAt (by omega))).bind fun algo _ => ?_
      dsimp only
      split
      · exact (follows_pack _ _).bind fun _ _ => Follows.pure _
      · exact (follows_pack _ _).bind fun _ _ => Follows.pure _
    · exact Follows.lift (x := .error _) (FailsOnly.error.mpr trivial)

theorem follows_keyMaterial (algo : ℤ) (material : ℕ) (info : KeyInfo) :
    FollowsIntended (keyMaterial python algo material body info)
      (keyMaterial intended algo material body info) := by
  unfold keyMaterial
  split
  · refine (Follows.lift ?_).bind fun _ _ => Follows.pure _
    refine (failsOnly_check _ _).bind fun _ hpos => ?_
    have hpos := raiseIf_ok.mp hpos
    exact failsOnly_unpackFrom (by omega)
  · split
    · refine (Follows.lift (failsOnly_check _ _)).bind fun _ hpos => ?_
      have hpos := raiseIf_ok.mp hpos
      refine (Follows.lift (failsOnly_byteAt (by omega))).bind fun olen _ => ?_
      exact (follows_oidStr _).bind fun _ _ => Follows.pure _
    · exact Follows.pure _

theorem follows_parsePublicKeyPacket (hashes : Hashes) (tag : ℕ) (body : Bytes) :
    FollowsIntended (parsePublicKeyPacket python hashes tag body)
      (parsePublicKeyPacket intended hashes tag body) := by
  refine (Follows.lift (failsOnly_check _ _)).bind fun _ hlength => ?_
  have hlength := raiseIf_ok.mp hlength
  refine (Follows.lift (failsOnly_byteAt (by omega))).bind fun version _ => ?_
  refine (follows_versionFields hashes version (by omega)).bind fun fields _ => ?_
  exact (follows_keyMaterial _ _ _).bind fun _ _ => Follows.pure _

theorem follows_addPacket (hashes : Hashes) (keys : List OpenPgpKey) (packet : Packet) :
    FollowsIntended (addPacket python hashes keys packet) (addPacket intended hashes keys packet) := by
  unfold addPacket
  split
  · exact (follows_parsePublicKeyPacket _ _ _).bind fun _ _ => Follows.pure _
  · split
    · exact (follows_parsePublicKeyPacket _ _ _).bind fun _ _ => Follows.pure _
    · split <;> exact Follows.pure _

theorem follows_parseOpenpgpKeys (hashes : Hashes) (data : Bytes) :
    FollowsIntended (parseOpenpgpKeys python hashes data) (parseOpenpgpKeys intended hashes data) :=
  Follows.forEach (failsOnly_iterPackets data) (fun packet _ keys => follows_addPacket hashes keys packet)
    []

theorem follows_parseKeyBlob (hashes : Hashes) (data : Bytes) :
    FollowsIntended (parseKeyBlob python hashes data) (parseKeyBlob intended hashes data) := by
  unfold parseKeyBlob
  split
  · refine (Follows.lift (failsOnly_dearmor _)).bind fun blocks _ => ?_
    refine Follows.foldlM blocks (fun block _ keys => ?_) []
    exact (follows_parseOpenpgpKeys hashes block).bind fun _ _ => Follows.pure _
  · exact follows_parseOpenpgpKeys hashes data

end Readers

/-! ## What is converted -/

/-- A conversion that can fail only as the length of a version 4 key packet. -/
def Routine (conversion : KeyConversion) : Prop :=
  conversion.Converts ∨ ∃ n, conversion = .pack 2 n

section Routine

variable {conv : KeyConversions}

/-- An arc has no more bits than the bytes that it is made of. -/
theorem laterArcs_lt {bound : ℕ} (value : Bytes) {arcs : List ℕ} {acc : ℕ}
    (hacc : (acc + 1) * 128 ^ value.length ≤ bound) (harcs : ∀ arc ∈ arcs, arc < bound) :
    ∀ arc ∈ laterArcs arcs acc value, arc < bound := by
  induction value generalizing arcs acc with
  | nil => exact harcs
  | cons b rest ih =>
      have hpositive : 0 < 128 ^ rest.length := Nat.pow_pos (by decide)
      have hnext : (acc * 128 + b.toNat % 128 + 1) * 128 ^ rest.length ≤ bound := by
        calc (acc * 128 + b.toNat % 128 + 1) * 128 ^ rest.length
            ≤ ((acc + 1) * 128) * 128 ^ rest.length := Nat.mul_le_mul_right _ (by omega)
          _ = (acc + 1) * 128 ^ (rest.length + 1) := by rw [Nat.pow_succ', Nat.mul_assoc]
          _ ≤ bound := hacc
      have hlt : acc * 128 + b.toNat % 128 < bound :=
        (Nat.lt_succ_self _).trans_le ((Nat.le_mul_of_pos_right _ hpositive).trans hnext)
      rw [laterArcs]
      split
      · refine ih ?_ ?_
        · exact (Nat.mul_le_mul_right _ (by omega)).trans hnext
        · intro arc harc
          rcases List.mem_append.mp harc with harc | harc
          · exact harcs arc harc
          · rwa [List.mem_singleton.mp harc]
      · exact ih hnext harcs

/-- A short object identifier converts. -/
theorem logs_oidStr {value : Bytes} (hvalue : value.length ≤ 255) :
    Gen.Logs Routine (oidStr conv value) := by
  refine (Gen.Logs.lift _).bind fun _ _ => (Gen.Logs.lift _).bind fun first hfirst => ?_
  suffices hconverts : Routine (.oid _) from
    (Gen.Logs.yield hconverts).bind fun _ _ => Gen.Logs.lift _
  refine Or.inl ?_
  have hpow : ∀ n, 3 * n ≤ intMaxStrDigits → 128 ^ n ≤ 10 ^ intMaxStrDigits := by
    intro n hn
    calc 128 ^ n ≤ (10 ^ 3) ^ n := Nat.pow_le_pow_left (by decide) n
      _ = 10 ^ (3 * n) := (Nat.pow_mul 10 3 n).symm
      _ ≤ 10 ^ intMaxStrDigits := Nat.pow_le_pow_right (by decide) hn
  have hbound := hpow 254 (by decide)
  have hlength : (value.drop 1).length ≤ 254 := by
    rw [List.length_drop]
    omega
  have hbyte : first < 256 := by
    rw [Gen.lift_ended, byteAt] at hfirst
    split at hfirst
    · next byte _ =>
        obtain rfl := Except.ok.inj hfirst
        exact byte.toNat_lt
    · cases hfirst
  have hfirstArcs : ∀ arc ∈ [min (first / 40) 2, first - 40 * min (first / 40) 2], arc < 256 := by
    intro arc harc
    simp only [List.mem_cons, List.not_mem_nil, or_false] at harc
    omega
  have hsmall : (256 : ℕ) ≤ 128 ^ 254 :=
    (by decide : 256 ≤ 128 ^ 2).trans (Nat.pow_le_pow_right (by decide) (by decide))
  intro arc harc
  refine (laterArcs_lt (value.drop 1) ?_ ?_ arc harc).trans_le hbound
  · rw [Nat.zero_add, Nat.one_mul]
    exact Nat.pow_le_pow_right (by decide) hlength
  · exact fun arc harc => (hfirstArcs arc harc).trans_le hsmall

theorem logs_parsePublicKeyPacket {hashes : Hashes} {tag : ℕ} {body : Bytes}
    (hbody : body.length < 2 ^ 32) :
    Gen.Logs Routine (parsePublicKeyPacket conv hashes tag body) := by
  have hpack : ∀ width, width = 2 ∨ width = 4 → Gen.Logs Routine (pack conv width body.length) := by
    intro width hwidth
    have hroutine : Routine (.pack width body.length) := by
      rcases hwidth with rfl | rfl
      · exact Or.inr ⟨_, rfl⟩
      · exact Or.inl hbody
    exact (Gen.Logs.yield hroutine).bind fun _ _ => Gen.Logs.lift _
  have hfields : ∀ version, Gen.Logs Routine (versionFields conv hashes version body) := by
    intro version
    unfold versionFields
    split
    · exact (Gen.Logs.lift _).bind fun _ _ => Gen.Logs.pure _
    · split
      · refine (Gen.Logs.lift _).bind fun _ _ => (Gen.Logs.lift _).bind fun _ _ => ?_
        dsimp only
        split
        · exact (hpack 2 (Or.inl rfl)).bind fun _ _ => Gen.Logs.pure _
        · exact (hpack 4 (Or.inr rfl)).bind fun _ _ => Gen.Logs.pure _
      · exact nofun
  have hmaterial : ∀ algo material info, Gen.Logs Routine (keyMaterial conv algo material body info) := by
    intro algo material info
    unfold keyMaterial
    split
    · exact (Gen.Logs.lift _).bind fun _ _ => Gen.Logs.pure _
    · split
      · refine (Gen.Logs.lift _).bind fun _ _ => (Gen.Logs.lift _).bind fun olen holen => ?_
        refine (logs_oidStr ?_).bind fun _ _ => Gen.Logs.pure _
        rw [Gen.lift_ended, byteAt] at holen
        split at holen
        · next byte _ =>
            obtain rfl := Except.ok.inj holen
            have hbyte := byte.toNat_lt
            rw [length_slice]
            omega
        · cases holen
      · exact Gen.Logs.pure _
  refine (Gen.Logs.lift _).bind fun _ _ => (Gen.Logs.lift _).bind fun version _ => ?_
  exact (hfields version).bind fun _ _ => (hmaterial _ _ _).bind fun _ _ => Gen.Logs.pure _

/-- A packet is no longer than the data. -/
theorem logs_iterPackets (data : Bytes) :
    Gen.Logs (fun packet => packet.body.length ≤ data.length) (iterPackets data) := by
  refine Scan.logs_run (fun pos state => ?_) 0 ()
  refine (Gen.Logs.lift _).bind fun packet hpacket => ?_
  refine (Gen.Logs.yield ?_).bind fun _ _ => Gen.Logs.pure _
  have hslice : ∀ start length, (slice data start (start + length)).length ≤ data.length := by
    intro start length
    rw [length_slice]
    omega
  rw [Gen.lift_ended] at hpacket
  obtain ⟨hdr, _, hpacket⟩ := except_bind_ok.mp hpacket
  obtain ⟨_, _, hpacket⟩ := except_bind_ok.mp hpacket
  split at hpacket
  · obtain ⟨length, _, hpacket⟩ := except_bind_ok.mp hpacket
    obtain ⟨_, hbody, _⟩ := packetBody_ok.mp hpacket
    rw [hbody]
    exact hslice _ _
  · obtain ⟨length, _, hpacket⟩ := except_bind_ok.mp hpacket
    obtain ⟨_, hbody, _⟩ := packetBody_ok.mp hpacket
    rw [hbody]
    exact hslice _ _

theorem logs_parseOpenpgpKeys {hashes : Hashes} {data : Bytes} (hdata : data.length < 2 ^ 32) :
    Gen.Logs Routine (parseOpenpgpKeys conv hashes data) := by
  refine Gen.Logs.forEach (fun packet hpacket keys => ?_) []
  have hbody : packet.body.length < 2 ^ 32 := (logs_iterPackets data packet hpacket).trans_lt hdata
  unfold addPacket
  split
  · exact (logs_parsePublicKeyPacket hbody).bind fun _ _ => Gen.Logs.pure _
  · split
    · exact (logs_parsePublicKeyPacket hbody).bind fun _ _ => Gen.Logs.pure _
    · split <;> exact Gen.Logs.pure _

/-! ## Blocks -/

theorem length_splitLinesChars (text : List Char) :
    (splitLinesChars text).flatten.length ≤ text.length := by
  induction text using splitLinesChars.induct with
  | case1 => exact le_rfl
  | case2 rest ih =>
      rw [splitLinesChars, List.flatten_cons, List.nil_append, List.length_cons, List.length_cons]
      omega
  | case3 c rest hcrlf hbreak ih =>
      rw [splitLinesChars, if_pos hbreak, List.flatten_cons, List.nil_append, List.length_cons]
      · omega
      · exact hcrlf
  | case4 c rest hcrlf hbreak hlines ih =>
      rw [splitLinesChars, if_neg hbreak, hlines]
      · simp
      · exact hcrlf
  | case5 c rest hcrlf hbreak line lines hlines ih =>
      rw [splitLinesChars, if_neg hbreak, hlines]
      · rw [hlines] at ih
        simpa using ih
      · exact hcrlf

theorem length_dropWhile_le {p : Char → Bool} (text : List Char) :
    (text.dropWhile p).length ≤ text.length := (List.dropWhile_suffix p).length_le

theorem length_stripWhere_le {p : Char → Bool} (text : List Char) :
    ((text.dropWhile p).reverse.dropWhile p).reverse.length ≤ text.length := by
  rw [List.length_reverse]
  refine (length_dropWhile_le _).trans ?_
  rw [List.length_reverse]
  exact length_dropWhile_le text

theorem length_flatten_of_sublist {kept lines : List (List Char)} (hkept : kept.Sublist lines) :
    kept.flatten.length ≤ lines.flatten.length := by
  induction hkept with
  | slnil => exact le_rfl
  | cons line _ ih =>
      rw [List.flatten_cons, List.length_append]
      omega
  | cons_cons line _ ih =>
      rw [List.flatten_cons, List.flatten_cons, List.length_append, List.length_append]
      omega

/-- Stripping makes no text longer. -/
theorem length_flatten_map_stripChars (lines : List (List Char)) :
    (lines.map stripChars).flatten.length ≤ lines.flatten.length := by
  induction lines with
  | nil => exact le_rfl
  | cons line rest ih =>
      rw [List.map_cons, List.flatten_cons, List.flatten_cons, List.length_append, List.length_append]
      exact Nat.add_le_add (length_stripWhere_le line) ih

theorem length_armorBody (block : List Char) : (armorBody block).length ≤ block.length := by
  have hlines : ∀ kept : List (List Char),
      kept.Sublist ((splitLinesChars (stripNewlines block)).map stripChars) →
        (kept.filter fun line => line ≠ [] ∧ line.head? ≠ some '=').flatten.length ≤ block.length := by
    intro kept hkept
    calc (kept.filter fun line => line ≠ [] ∧ line.head? ≠ some '=').flatten.length
        ≤ ((splitLinesChars (stripNewlines block)).map stripChars).flatten.length :=
          length_flatten_of_sublist (List.filter_sublist.trans hkept)
      _ ≤ (splitLinesChars (stripNewlines block)).flatten.length := length_flatten_map_stripChars _
      _ ≤ (stripNewlines block).length := length_splitLinesChars _
      _ ≤ block.length := length_stripWhere_le block
  unfold armorBody
  dsimp only
  split
  · split
    · exact hlines _ (List.drop_sublist _ _)
    · exact hlines _ (List.Sublist.refl _)
  · exact hlines _ (List.Sublist.refl _)

theorem length_armorBlocks (text : List Char) :
    ∀ block ∈ armorBlocks text, block.length ≤ text.length := by
  induction hlength : text.length using Nat.strong_induction_on generalizing text with
  | _ length ih =>
      subst hlength
      cases hstart : cut beginMarker text with
      | none =>
          rw [armorBlocks_of_no_start hstart]
          nofun
      | some parts =>
          obtain ⟨before, behind⟩ := parts
          have hbehind := length_of_cut (by decide) hstart
          cases hend : cut endMarker behind with
          | none =>
              rw [armorBlocks_of_no_end hstart hend]
              nofun
          | some parts =>
              obtain ⟨block, rest⟩ := parts
              have hrest := length_of_cut (by decide) hend
              have hblock := congrArg List.length (eq_of_cut hend)
              rw [List.length_append] at hblock
              rw [armorBlocks_of_cut hstart hend]
              intro other hother
              rcases List.mem_cons.mp hother with rfl | hother
              · omega
              · have hle := ih rest.length (by omega) rest rfl other hother
                omega

/-- A block has no more bytes than the text has characters. -/
theorem length_dearmor {text : List Char} {blocks : List Bytes} (hdearmor : dearmor text = .ok blocks) :
    ∀ block ∈ blocks, block.length ≤ text.length := by
  have hblocks := length_armorBlocks text
  unfold dearmor at hdearmor
  generalize armorBlocks text = armored at hblocks hdearmor
  induction armored generalizing blocks with
  | nil =>
      obtain rfl := Except.ok.inj hdearmor
      nofun
  | cons armor rest ih =>
      rw [List.mapM_cons] at hdearmor
      obtain ⟨data, hdata, hdearmor⟩ := except_bind_ok.mp hdearmor
      obtain ⟨others, hothers, hdearmor⟩ := except_bind_ok.mp hdearmor
      obtain rfl := Except.ok.inj hdearmor
      intro block hblock
      rcases List.mem_cons.mp hblock with rfl | hblock
      · split at hdata
        · next decoded hdecode =>
            obtain rfl := Except.ok.inj hdata
            calc decoded.length
                ≤ (armorBody armor).length := Base64.decode_atMost _ decoded hdecode
              _ ≤ armor.length := length_armorBody armor
              _ ≤ text.length := hblocks armor List.mem_cons_self
        · cases hdata
      · exact ih (fun other hother => hblocks other (List.mem_cons_of_mem _ hother)) hothers block hblock

theorem logs_parseKeyBlob {hashes : Hashes} {data : Bytes} (hdata : data.length < 2 ^ 32) :
    Gen.Logs Routine (parseKeyBlob conv hashes data) := by
  unfold parseKeyBlob
  split
  · refine (Gen.Logs.lift _).bind fun blocks hblocks => ?_
    refine Gen.Logs.foldlM blocks (fun block hblock keys => ?_) []
    have hlength : block.length ≤ data.length := by
      have hle := length_dearmor hblocks block hblock
      rwa [replaceAscii, List.length_map] at hle
    exact (logs_parseOpenpgpKeys (hlength.trans_lt hdata)).bind fun _ _ => Gen.Logs.pure _
  · exact logs_parseOpenpgpKeys hdata

end Routine

end PqcReadiness.Signing
