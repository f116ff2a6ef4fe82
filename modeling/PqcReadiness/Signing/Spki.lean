import Mathlib.Data.Nat.Size
import PqcReadiness.Signing.KeyFaults
import PqcReadiness.Signing.Packets

/-!
# Key files that cannot be read

`parse_spki_pem` reads the PEM public keys of apk, and the sources of key files catch
`KeyParseError` and nothing else that a reader raises.

The readers raise another exception exactly if a conversion fails: the body of a version 4 key
packet does not fit a two-byte length, or an arc of an object identifier has more digits than
Python converts (`keyFiles_reported_iff`).
-/

namespace PqcReadiness.Signing

open PqcReadiness.Lib PqcReadiness.Lib.Bytes

/-! ## SubjectPublicKeyInfo -/

/-- `_SPKI_ALGORITHMS`. -/
def spkiAlgorithms : List (String × (String × PqcCategory)) :=
  [("1.2.840.113549.1.1.1", ("RSA", .classical)),
    ("1.2.840.10045.2.1", ("ECDSA", .classical)),
    ("1.3.101.112", ("Ed25519", .classical)),
    ("1.3.101.113", ("Ed448", .classical)),
    ("2.16.840.1.101.3.4.3.17", ("ML-DSA-44", .purePqc)),
    ("2.16.840.1.101.3.4.3.18", ("ML-DSA-65", .purePqc)),
    ("2.16.840.1.101.3.4.3.19", ("ML-DSA-87", .purePqc))]

/-- `_SPKI_CURVES`. -/
def spkiCurves : List (String × String) :=
  [("1.2.840.10045.3.1.7", "NIST P-256"), ("1.3.132.0.34", "NIST P-384"),
    ("1.3.132.0.35", "NIST P-521")]

/-- The tag of an element and where its value starts and ends. -/
structure DerElement where
  tag : ℕ
  start : ℕ
  stop : ℕ

/-- The element whose value starts at `start`. -/
def derValue (buf : Bytes) (tag start length : ℕ) : Except KeyFault DerElement := do
  raiseIf (buf.length < start + length) (.keyParse "DER element overruns data")
  return ⟨tag, start, start + length⟩

/-- `_der`. -/
def derAt (buf : Bytes) (pos : ℕ) : Except KeyFault DerElement := do
  raiseIf (buf.length < pos + 2) (.keyParse "truncated DER")
  let tag ← byteAt buf pos
  let ln ← byteAt buf (pos + 1)
  if 0x80 ≤ ln then
    let nb := ln % 0x80
    raiseIf (nb = 0 ∨ 4 < nb ∨ buf.length < pos + 2 + nb) (.keyParse "bad DER length")
    derValue buf tag (pos + 2 + nb) (toNat .big (slice buf (pos + 2) (pos + 2 + nb)))
  else derValue buf tag (pos + 2) ln

/-- What `parse_spki_pem` returns. -/
structure SpkiInfo where
  algorithm : String
  algorithmOid : String
  capability : Capability
  pqcCategory : PqcCategory
  signingPqcCategory : PqcCategory
  fingerprint : String
  curve : Option String := none
  bits : Option ℕ := none
  deriving DecidableEq

/-- What follows the start of a public key. -/
def afterKeyStart : List Char → Option (List Char)
  | [] => none
  | c :: rest =>
      let rsaStart := "-----BEGIN RSA PUBLIC KEY-----".toList
      let start := "-----BEGIN PUBLIC KEY-----".toList
      if rsaStart.isPrefixOf (c :: rest) then some ((c :: rest).drop rsaStart.length)
      else if start.isPrefixOf (c :: rest) then some ((c :: rest).drop start.length)
      else afterKeyStart rest

/-- The first group of the match of `-----BEGIN (?:RSA )?PUBLIC KEY-----(.*?)-----END`. -/
def pemBlock (text : List Char) : Option (List Char) :=
  (afterKeyStart text).bind fun behind => (cut "-----END".toList behind).map Prod.fst

/-- The curve of the algorithm parameters. -/
def spkiCurve (conv : KeyConversions) (der : Bytes) (object algorithm : DerElement)
    (info : SpkiInfo) : KeyReader SpkiInfo := do
  if object.stop < algorithm.stop then
    let parameter ← derAt der object.stop
    if parameter.tag = 0x06 then
      let value := slice der parameter.start parameter.stop
      let key ← oidStr conv value
      let dotted ← oidStr conv value
      return { info with curve := some ((find key spkiCurves).getD ("oid:" ++ dotted)) }
    else return info
  else return info

/-- The size of an RSA key. -/
def spkiBits (der : Bytes) (algorithm : DerElement) (info : SpkiInfo) : Except KeyFault SpkiInfo := do
  if info.algorithm = "RSA" then
    let bits ← derAt der algorithm.stop
    raiseIf (bits.tag ≠ 0x03) (.keyParse "SPKI has no BIT STRING")
    let key ← derAt der (bits.start + 1)
    let number ← derAt der key.start
    let modulus := (slice der number.start number.stop).dropWhile (· == 0)
    let unused := match modulus with
      | [] => 0
      | first :: _ => 8 - Nat.size first.toNat
    return { info with bits := some (modulus.length * 8 - unused) }
  else return info

/-- `parse_spki_pem`. -/
def parseSpkiPem (conv : KeyConversions) (hashes : Hashes) (text : List Char) :
    KeyReader SpkiInfo := do
  match pemBlock text with
  | none => throw (.keyParse "no PEM public key")
  | some block =>
      match Base64.decode (block.filter fun c => !isSpace c) with
      | .error message => throw (.keyParse ("bad PEM base64: " ++ message))
      | .ok der =>
          let spki ← derAt der 0
          raiseIf (spki.tag ≠ 0x30) (KeyFault.keyParse "SPKI is not a SEQUENCE")
          let algorithm ← derAt der spki.start
          let object ← derAt der algorithm.start
          raiseIf (object.tag ≠ 0x06) (KeyFault.keyParse "AlgorithmIdentifier has no OID")
          let oid ← oidStr conv (slice der object.start object.stop)
          let (name, category) := (find oid spkiAlgorithms).getD ("oid:" ++ oid, .classical)
          let info ← spkiCurve conv der object algorithm
            { algorithm := name, algorithmOid := oid, capability := .sign, pqcCategory := category,
              signingPqcCategory := category,
              fingerprint := (hashes.sha256 (slice der 0 spki.stop)).toUpper }
          spkiBits der algorithm info

/-! ## Faults -/

theorem failsOnly_derAt (buf : Bytes) (pos : ℕ) :
    FailsOnly KeyFault.IsKeyParseError (derAt buf pos) := by
  have hvalue : ∀ tag start length,
      FailsOnly KeyFault.IsKeyParseError (derValue buf tag start length) := fun _ _ _ =>
    (failsOnly_check _ _).bind fun _ _ => FailsOnly.ok _
  refine (failsOnly_check _ _).bind fun _ hpos => ?_
  have hpos := raiseIf_ok.mp hpos
  refine (failsOnly_byteAt (by omega)).bind fun tag _ => ?_
  refine (failsOnly_byteAt (by omega)).bind fun ln _ => ?_
  split
  · exact (failsOnly_check _ _).bind fun _ _ => hvalue _ _ _
  · exact hvalue _ _ _

theorem failsOnly_spkiBits (der : Bytes) (algorithm : DerElement) (info : SpkiInfo) :
    FailsOnly KeyFault.IsKeyParseError (spkiBits der algorithm info) := by
  unfold spkiBits
  split
  · refine (failsOnly_derAt _ _).bind fun bits _ => (failsOnly_check _ _).bind fun _ _ => ?_
    refine (failsOnly_derAt _ _).bind fun key _ => ?_
    exact (failsOnly_derAt _ _).bind fun number _ => FailsOnly.ok _
  · exact FailsOnly.ok _

theorem follows_spkiCurve (der : Bytes) (object algorithm : DerElement) (info : SpkiInfo) :
    FollowsIntended (spkiCurve python der object algorithm info)
      (spkiCurve intended der object algorithm info) := by
  unfold spkiCurve
  split
  · refine (Follows.lift (failsOnly_derAt _ _)).bind fun parameter _ => ?_
    split
    · exact (follows_oidStr _).bind fun _ _ => (follows_oidStr _).bind fun _ _ => Follows.pure _
    · exact Follows.pure _
  · exact Follows.pure _

theorem follows_parseSpkiPem (hashes : Hashes) (text : List Char) :
    FollowsIntended (parseSpkiPem python hashes text) (parseSpkiPem intended hashes text) := by
  unfold parseSpkiPem
  cases pemBlock text with
  | none => exact Follows.lift (x := .error _) (FailsOnly.error.mpr trivial)
  | some block =>
      dsimp only
      cases Base64.decode (block.filter fun c => !isSpace c) with
      | error message => exact Follows.lift (x := .error _) (FailsOnly.error.mpr trivial)
      | ok der =>
          refine (Follows.lift (failsOnly_derAt _ _)).bind fun spki _ => ?_
          refine (Follows.lift (failsOnly_check _ _)).bind fun _ _ => ?_
          refine (Follows.lift (failsOnly_derAt _ _)).bind fun algorithm _ => ?_
          refine (Follows.lift (failsOnly_derAt _ _)).bind fun object _ => ?_
          refine (Follows.lift (failsOnly_check _ _)).bind fun _ _ => ?_
          refine (follows_oidStr _).bind fun oid _ => ?_
          refine (follows_spkiCurve _ _ _ _).bind fun info _ => ?_
          exact Follows.lift (failsOnly_spkiBits _ _ _)

/-! ## What a source reports -/

/-- What `_file_sources`, `_apt_sources` and `_apk_sources` make of a run: the keys, or the error
that they catch. -/
def sourceEntry {ρ : Type} (result : Except KeyFault ρ) : Except KeyFault (Except String ρ) :=
  match result with
  | .ok value => .ok (.ok value)
  | .error (.keyParse message) => .ok (.error message)
  | .error fault => .error fault

theorem sourceEntry_returns_iff {ρ : Type} {result : Except KeyFault ρ} :
    (∃ entry, sourceEntry result = .ok entry) ↔ FailsOnly KeyFault.IsKeyParseError result := by
  cases result with
  | ok value => exact ⟨fun _ => FailsOnly.ok value, fun _ => ⟨_, rfl⟩⟩
  | error fault =>
      rw [FailsOnly.error]
      cases fault with
      | keyParse message => exact ⟨fun _ => trivial, fun _ => ⟨_, rfl⟩⟩
      | structError => exact ⟨fun ⟨entry, hentry⟩ => (nomatch hentry), False.elim⟩
      | valueError => exact ⟨fun ⟨entry, hentry⟩ => (nomatch hentry), False.elim⟩
      | indexError => exact ⟨fun ⟨entry, hentry⟩ => (nomatch hentry), False.elim⟩

/-- A bad key file is reported and not fatal: the reader returns or raises `KeyParseError`, so that
the source catches what it raises. -/
structure Reported {ρ : Type} (result : Except KeyFault ρ) : Prop where
  failsOnly : FailsOnly KeyFault.IsKeyParseError result
  caught : ∃ entry, sourceEntry result = .ok entry

theorem reported_iff {ρ : Type} {result : Except KeyFault ρ} :
    Reported result ↔ FailsOnly KeyFault.IsKeyParseError result :=
  ⟨Reported.failsOnly, fun hfails => ⟨hfails, sourceEntry_returns_iff.mpr hfails⟩⟩

/-- The length that is packed into two bytes. -/
def KeyConversion.shortLength : KeyConversion → Option ℕ
  | .pack width n => if width = 2 then some n else none
  | .oid _ => none

/-- The arcs that are converted. -/
def KeyConversion.arcs : KeyConversion → List ℕ
  | .pack _ _ => []
  | .oid arcs => arcs

/-- The lengths of the version 4 key packets that the reading of a key file comes to. -/
def versionFourLengths (hashes : Hashes) (data : Bytes) : List ℕ :=
  (parseKeyBlob intended hashes data).log.filterMap KeyConversion.shortLength

/-- The arcs of the object identifiers that the reading of a PEM key comes to. -/
def pemArcs (hashes : Hashes) (text : List Char) : List ℕ :=
  (parseSpkiPem intended hashes text).log.flatMap KeyConversion.arcs

theorem parseKeyBlob_failsOnly_iff (hashes : Hashes) {data : Bytes} (hdata : data.length < 2 ^ 32) :
    FailsOnly KeyFault.IsKeyParseError (parseKeyBlob python hashes data).ended ↔
      ∀ length ∈ versionFourLengths hashes data, length < 2 ^ 16 := by
  rw [(follows_parseKeyBlob hashes data).failsOnly_iff fun fault hnot => hnot]
  have hroutine := @logs_parseKeyBlob intended hashes _ hdata
  constructor
  · intro hconverts length hlength
    obtain ⟨conversion, hmem, hshort⟩ := List.mem_filterMap.mp hlength
    have hconversion := hconverts conversion hmem
    cases conversion with
    | oid arcs => cases hshort
    | pack width n =>
        rw [KeyConversion.shortLength] at hshort
        split at hshort
        · next hwidth =>
            subst hwidth
            obtain rfl := Option.some.inj hshort
            exact hconversion
        · cases hshort
  · intro hlengths conversion hmem
    rcases hroutine conversion hmem with hconverts | ⟨n, rfl⟩
    · exact hconverts
    · exact hlengths n (List.mem_filterMap.mpr ⟨_, hmem, rfl⟩)

theorem logs_parseSpkiPem (conv : KeyConversions) (hashes : Hashes) (text : List Char) :
    Gen.Logs (fun conversion => ∃ arcs, conversion = .oid arcs) (parseSpkiPem conv hashes text) := by
  have hoid : ∀ value, Gen.Logs (fun conversion => ∃ arcs, conversion = .oid arcs)
      (oidStr conv value) := by
    intro value
    refine (Gen.Logs.lift _).bind fun _ _ => (Gen.Logs.lift _).bind fun _ _ => ?_
    rintro conversion hmem
    rcases Gen.mem_bind_log.mp hmem with hmem | ⟨_, _, hmem⟩
    · exact ⟨_, List.mem_singleton.mp hmem⟩
    · cases hmem
  unfold parseSpkiPem
  cases pemBlock text with
  | none => nofun
  | some block =>
      dsimp only
      cases Base64.decode (block.filter fun c => !isSpace c) with
      | error message => nofun
      | ok der =>
          refine (Gen.Logs.lift _).bind fun spki _ => (Gen.Logs.lift _).bind fun _ _ => ?_
          refine (Gen.Logs.lift _).bind fun algorithm _ => (Gen.Logs.lift _).bind fun object _ => ?_
          refine (Gen.Logs.lift _).bind fun _ _ => (hoid _).bind fun oid _ => ?_
          refine Gen.Logs.bind ?_ fun info _ => Gen.Logs.lift _
          unfold spkiCurve
          split
          · refine (Gen.Logs.lift _).bind fun parameter _ => ?_
            split
            · exact (hoid _).bind fun _ _ => (hoid _).bind fun _ _ => Gen.Logs.pure _
            · exact Gen.Logs.pure _
          · exact Gen.Logs.pure _

theorem parseSpkiPem_failsOnly_iff (hashes : Hashes) (text : List Char) :
    FailsOnly KeyFault.IsKeyParseError (parseSpkiPem python hashes text).ended ↔
      ∀ arc ∈ pemArcs hashes text, arc < 10 ^ intMaxStrDigits := by
  rw [(follows_parseSpkiPem hashes text).failsOnly_iff fun fault hnot => hnot, pemArcs,
    List.forall_mem_flatMap]
  refine forall₂_congr fun conversion hmem => ?_
  obtain ⟨arcs, rfl⟩ := logs_parseSpkiPem intended hashes text conversion hmem
  rfl

/-- **A key file of at most 16 MiB is reported, and not fatal, exactly if no version 4 key packet
that the reading comes to has more than 65535 bytes, and a PEM key exactly if no arc that the
reading comes to has more digits than are converted.** -/
theorem keyFiles_reported_iff (hashes : Hashes) :
    (∀ data : Bytes, data.length ≤ 16 * 1024 * 1024 →
      (Reported (parseKeyBlob python hashes data).ended ↔
        ∀ length ∈ versionFourLengths hashes data, length < 2 ^ 16)) ∧
    (∀ text : List Char, Reported (parseSpkiPem python hashes text).ended ↔
      ∀ arc ∈ pemArcs hashes text, arc < 10 ^ intMaxStrDigits) := by
  constructor
  · intro data hdata
    rw [reported_iff]
    exact parseKeyBlob_failsOnly_iff hashes (hdata.trans_lt (by decide))
  · intro text
    rw [reported_iff]
    exact parseSpkiPem_failsOnly_iff hashes text

/-- A version 4 key packet of 65536 bytes. -/
def largeKey : Packet := ⟨6, 4 :: List.replicate 65535 0⟩

theorem length_largeKey : largeKey.body.length = 65536 := by
  rw [largeKey, List.length_cons, List.length_replicate]

/-- The length of a body does not fit two bytes. -/
theorem parsePublicKeyPacket_large (hashes : Hashes) (tag : ℕ) :
    (parsePublicKeyPacket python hashes tag largeKey.body).ended = .error .structError := by
  have hlength := length_largeKey
  have hversion : byteAt largeKey.body 0 = .ok 4 := rfl
  have hcreated : ∃ created, unpackFrom 4 largeKey.body 1 = .ok created := by
    rw [unpackFrom, raiseIf_of_not (by omega), ok_bind]
    exact ⟨_, rfl⟩
  have halgo : byteAt largeKey.body 5 = .ok 0 := rfl
  have hpack : (pack python 2 largeKey.body.length).ended = .error .structError := by
    rw [hlength]
    decide
  obtain ⟨created, hcreated⟩ := hcreated
  have hfields : (versionFields python hashes 4 largeKey.body).ended = .error .structError := by
    rw [versionFields, if_neg (by decide), if_pos (by decide), Gen.lift_bind_ok hcreated,
      Gen.lift_bind_ok halgo]
    dsimp only
    rw [if_pos rfl, Gen.bind_of_error hpack]
  rw [parsePublicKeyPacket, Gen.lift_bind_ok (raiseIf_of_not (by omega)), Gen.lift_bind_ok hversion,
    Gen.bind_of_error hfields]

/-- A file with one such packet: `struct.error` goes through. -/
theorem not_reported_largeKey :
    ¬ ∀ (hashes : Hashes) (data : Bytes), data.length ≤ 16 * 1024 * 1024 →
      Reported (parseKeyBlob python hashes data).ended := by
  intro hall
  let hashes : Hashes := ⟨fun _ => "", fun _ => ""⟩
  let file := encodePackets [(.newFive, largeKey)]
  have hlength := length_largeKey
  have hframed : Framed [(.newFive, largeKey)] := ⟨⟨by decide, by rw [hlength]; decide⟩, trivial⟩
  have hheader : HeaderForm.newFive.header largeKey = [0xC6, 0xFF, 0, 1, 0, 0] := by
    rw [HeaderForm.header, hlength]
    rfl
  have hfile : file = [0xC6, 0xFF, 0, 1, 0, 0] ++ largeKey.body := by
    rw [← hheader]
    exact List.append_nil _
  have hsize : file.length ≤ 16 * 1024 * 1024 := by
    rw [hfile, List.length_append, hlength]
    decide
  have hdash : (0x2D : UInt8) ∉ file := by
    rw [hfile, List.mem_append, not_or]
    refine ⟨by decide, fun hmem => ?_⟩
    rcases List.mem_cons.mp hmem with hfour | hzero
    · exact absurd hfour (by decide)
    · exact absurd (List.eq_of_mem_replicate hzero) (by decide)
  have hbinary : ¬ (cut (encodeAscii (String.ofList beginMarker)) file).isSome = true := by
    rw [cut_eq_none_iff.mpr (not_infix_of_notMem (x := 0x2D) (by decide) hdash)]
    decide
  have hpackets : iterPackets file = ⟨[largeKey], .ok ()⟩ := iterPackets_encode hframed
  have hturn : (addPacket python hashes [] largeKey).ended = .error .structError := by
    rw [addPacket, if_pos (show largeKey.tag = 6 from rfl)]
    rw [Gen.bind_of_error (parsePublicKeyPacket_large hashes largeKey.tag)]
  have hrun : (parseKeyBlob python hashes file).ended = .error .structError := by
    rw [parseKeyBlob, if_neg hbinary, parseOpenpgpKeys, hpackets, Gen.forEach_of_ok _ _ rfl,
      List.foldlM_cons, Gen.bind_of_error hturn]
  have hreported := (hall hashes file hsize).failsOnly
  exact hreported _ hrun

end PqcReadiness.Signing
