import PqcReadiness.Lib.Base64
import PqcReadiness.Lib.Lines
import PqcReadiness.Lib.UnixTime
import PqcReadiness.Lib.Codec
import PqcReadiness.Lib.Generator
import PqcReadiness.Signing.Inventory

/-!
# OpenPGP key files

The packet readers of `protocols_signing.py`: armored blocks (`dearmor`), packets
(`iterPackets`), key packets (`parsePublicKeyPacket`) and whole key files (`parseKeyBlob`).

Two conversions can fail on what the readers hand to them: `struct.pack` of the length of a body,
and `str` of an arc of an object identifier.  The readers take them as an argument
(`KeyConversions`) and log what they convert (`KeyConversion`).  `python` has them as the program
calls them.  The hash functions are arguments too.
-/

namespace PqcReadiness.Signing

open PqcReadiness.Lib PqcReadiness.Lib.Bytes

/-- What a reader can raise: `KeyParseError`, `struct.error`, another `ValueError`,
`IndexError`. -/
inductive KeyFault where
  | keyParse (message : String)
  | structError
  | valueError
  | indexError
  deriving DecidableEq

/-- `KeyParseError`. -/
def KeyFault.IsKeyParseError : KeyFault → Prop
  | .keyParse _ => True
  | _ => False

/-! ## Conversions -/

/-- Something a reader converts: a number to so many bytes, or the arcs of an object identifier
to text. -/
inductive KeyConversion where
  | pack (width n : ℕ)
  | oid (arcs : List ℕ)

/-- The conversions of the Python library. -/
structure KeyConversions where
  pack : ℕ → ℕ → Except KeyFault Bytes
  oid : List ℕ → Except KeyFault String

/-- Whether the conversion succeeds. -/
def KeyConversion.Converts : KeyConversion → Prop
  | .pack width n => n < 256 ^ width
  | .oid arcs => ∀ arc ∈ arcs, arc < 10 ^ intMaxStrDigits

/-- The conversions as the program calls them. -/
def python : KeyConversions where
  pack width n := if n < 256 ^ width then .ok (ofNat .big width n) else .error .structError
  oid arcs :=
    if ∀ arc ∈ arcs, arc < 10 ^ intMaxStrDigits then .ok (join "." (arcs.map toString))
    else .error .valueError

/-- A reader that logs what it converts. -/
abbrev KeyReader := Gen KeyFault KeyConversion

/-- `struct.pack(">H", n)` and `struct.pack(">I", n)`. -/
def pack (conv : KeyConversions) (width n : ℕ) : KeyReader Bytes := do
  Gen.yield (.pack width n)
  conv.pack width n

/-- `".".join(parts)`, where each part is `str(arc)`. -/
def oidText (conv : KeyConversions) (arcs : List ℕ) : KeyReader String := do
  Gen.yield (.oid arcs)
  conv.oid arcs

/-- The hash functions, with their digests in base 16. -/
structure Hashes where
  sha1 : Bytes → String
  sha256 : Bytes → String

/-! ## Bytes -/

/-- `data[pos]`. -/
def byteAt (data : Bytes) (pos : ℕ) : Except KeyFault ℕ :=
  match data[pos]? with
  | some byte => .ok byte.toNat
  | none => .error .indexError

/-- `struct.unpack_from(">H", data, pos)[0]` and `struct.unpack_from(">I", data, pos)[0]`. -/
def unpackFrom (width : ℕ) (data : Bytes) (pos : ℕ) : Except KeyFault ℕ := do
  raiseIf (data.length < pos + width) .structError
  return toNat .big (slice data pos (pos + width))

/-! ## Armor -/

/-- The start of an armored block. -/
def beginMarker : List Char := "-----BEGIN PGP PUBLIC KEY BLOCK-----".toList

/-- Its end. -/
def endMarker : List Char := "-----END PGP PUBLIC KEY BLOCK-----".toList

/-- What `_ARMOR_RE` finds: the text between a start and the first end behind it. -/
def armorBlocks (text : List Char) : List (List Char) :=
  match _hstart : cut beginMarker text with
  | none => []
  | some (_, behind) =>
      match _hend : cut endMarker behind with
      | none => []
      | some (block, rest) => block :: armorBlocks rest
termination_by text.length
decreasing_by
  exact (length_of_cut (by decide) _hend).trans (length_of_cut (by decide) _hstart)

theorem armorBlocks_of_cut {text before behind block rest : List Char}
    (hstart : cut beginMarker text = some (before, behind))
    (hend : cut endMarker behind = some (block, rest)) :
    armorBlocks text = block :: armorBlocks rest := by
  rw [armorBlocks]
  split
  · next hnone =>
      rw [hstart] at hnone
      cases hnone
  · next hsome =>
      obtain ⟨_, rfl⟩ := Prod.mk.inj (Option.some.inj (hstart.symm.trans hsome))
      split
      · next hnone =>
          rw [hend] at hnone
          cases hnone
      · next hsome =>
          obtain ⟨rfl, rfl⟩ := Prod.mk.inj (Option.some.inj (hend.symm.trans hsome))
          rfl

theorem armorBlocks_of_no_start {text : List Char} (hstart : cut beginMarker text = none) :
    armorBlocks text = [] := by
  rw [armorBlocks]
  split
  · rfl
  · next hsome =>
      rw [hstart] at hsome
      cases hsome

theorem armorBlocks_of_no_end {text before behind : List Char}
    (hstart : cut beginMarker text = some (before, behind)) (hend : cut endMarker behind = none) :
    armorBlocks text = [] := by
  rw [armorBlocks]
  split
  · rfl
  · next hsome =>
      obtain ⟨_, rfl⟩ := Prod.mk.inj (Option.some.inj (hstart.symm.trans hsome))
      split
      · rfl
      · next hsome =>
          rw [hend] at hsome
          cases hsome

/-- The base 64 text of a block. -/
def armorBody (block : List Char) : List Char :=
  let lines := (splitLinesChars (stripNewlines block)).map stripChars
  let lines :=
    if (lines.take 1).any (fun line => line.contains ':') ∨ [] ∈ lines then
      -- Header lines precede the first blank line.
      if [] ∈ lines then lines.drop (lines.idxOf [] + 1) else lines
    else lines
  (lines.filter fun line => line ≠ [] ∧ line.head? ≠ some '=').flatten

/-- `dearmor`. -/
def dearmor (text : List Char) : Except KeyFault (List Bytes) :=
  (armorBlocks text).mapM fun block =>
    match Base64.decode (armorBody block) with
    | .ok data => .ok data
    | .error message => .error (.keyParse ("bad armor base64: " ++ message))

/-! ## Packets -/

/-- A packet. -/
structure Packet where
  tag : ℕ
  body : Bytes
  deriving DecidableEq

/-- The length of a packet in the new format, and where the body starts. -/
def newLength (data : Bytes) (pos : ℕ) : Except KeyFault (ℕ × ℕ) := do
  raiseIf (data.length ≤ pos) (.keyParse "truncated packet length")
  let b0 ← byteAt data pos
  if b0 < 192 then return (b0, pos + 1)
  else if b0 < 224 then
    raiseIf (data.length ≤ pos + 1) (.keyParse "truncated packet length")
    let b1 ← byteAt data (pos + 1)
    return ((b0 - 192) * 256 + b1 + 192, pos + 2)
  else if b0 = 255 then
    raiseIf (data.length < pos + 5) (.keyParse "truncated packet length")
    let length ← unpackFrom 4 data (pos + 1)
    return (length, pos + 5)
  else throw (.keyParse "partial body length in key data")

/-- The length of a packet in the old format, and where the body starts. -/
def oldLength (data : Bytes) (lengthType pos : ℕ) : Except KeyFault (ℕ × ℕ) :=
  if lengthType = 3 then .ok (data.length - pos, pos)
  else do
    let size := if lengthType = 0 then 1 else if lengthType = 1 then 2 else 4
    raiseIf (data.length < pos + size) (.keyParse "truncated packet length")
    return (toNat .big (slice data pos (pos + size)), pos + size)

/-- The packet whose body starts at `start`, and where it ends. -/
def packetBody (data : Bytes) (tag length start : ℕ) : Except KeyFault (Packet × ℕ) := do
  raiseIf (data.length < start + length)
    (.keyParse ("packet (tag " ++ toString tag ++ ") overruns data"))
  return (⟨tag, slice data start (start + length)⟩, start + length)

/-- The packet at `pos`, and where it ends. -/
def packetAt (data : Bytes) (pos : ℕ) : Except KeyFault (Packet × ℕ) := do
  let hdr ← byteAt data pos
  raiseIf (hdr < 0x80)
    (.keyParse ("invalid packet header 0x" ++ hexByte hdr ++ " at " ++ toString pos))
  if hdr / 0x40 % 2 = 1 then
    let (length, start) ← newLength data (pos + 1)
    packetBody data (hdr % 0x40) length start
  else
    let (length, start) ← oldLength data (hdr % 4) (pos + 1)
    packetBody data (hdr / 4 % 16) length start

theorem newLength_advances {data : Bytes} {pos length start : ℕ}
    (hlength : newLength data pos = .ok (length, start)) : pos < start := by
  obtain ⟨_, _, hlength⟩ := except_bind_ok.mp hlength
  obtain ⟨b0, _, hlength⟩ := except_bind_ok.mp hlength
  split at hlength
  · obtain ⟨_, rfl⟩ := Prod.mk.inj (Except.ok.inj hlength)
    omega
  · split at hlength
    · obtain ⟨_, _, hlength⟩ := except_bind_ok.mp hlength
      obtain ⟨_, _, hlength⟩ := except_bind_ok.mp hlength
      obtain ⟨_, rfl⟩ := Prod.mk.inj (Except.ok.inj hlength)
      omega
    · split at hlength
      · obtain ⟨_, _, hlength⟩ := except_bind_ok.mp hlength
        obtain ⟨_, _, hlength⟩ := except_bind_ok.mp hlength
        obtain ⟨_, rfl⟩ := Prod.mk.inj (Except.ok.inj hlength)
        omega
      · cases hlength

theorem oldLength_advances {data : Bytes} {lengthType pos length start : ℕ}
    (hlength : oldLength data lengthType pos = .ok (length, start)) : pos ≤ start := by
  unfold oldLength at hlength
  split at hlength
  · obtain ⟨_, rfl⟩ := Prod.mk.inj (Except.ok.inj hlength)
    exact le_rfl
  · obtain ⟨_, _, hlength⟩ := except_bind_ok.mp hlength
    obtain ⟨_, rfl⟩ := Prod.mk.inj (Except.ok.inj hlength)
    exact Nat.le_add_right _ _

theorem packetBody_ok {data : Bytes} {tag length start next : ℕ} {packet : Packet} :
    packetBody data tag length start = .ok (packet, next) ↔
      start + length ≤ data.length ∧ packet = ⟨tag, slice data start (start + length)⟩ ∧
        next = start + length := by
  constructor
  · intro hbody
    obtain ⟨_, hinside, hbody⟩ := except_bind_ok.mp hbody
    obtain ⟨rfl, rfl⟩ := Prod.mk.inj (Except.ok.inj hbody)
    exact ⟨Nat.le_of_not_lt (raiseIf_ok.mp hinside), rfl, rfl⟩
  · rintro ⟨hinside, rfl, rfl⟩
    rw [packetBody, raiseIf_of_not (Nat.not_lt.mpr hinside), ok_bind]
    rfl

theorem packetAt_advances {data : Bytes} {pos next : ℕ} {packet : Packet}
    (hpacket : packetAt data pos = .ok (packet, next)) : pos < next := by
  obtain ⟨hdr, _, hpacket⟩ := except_bind_ok.mp hpacket
  obtain ⟨_, _, hpacket⟩ := except_bind_ok.mp hpacket
  split at hpacket
  · obtain ⟨⟨length, start⟩, hlength, hpacket⟩ := except_bind_ok.mp hpacket
    have hstart := newLength_advances hlength
    obtain ⟨_, _, rfl⟩ := packetBody_ok.mp hpacket
    omega
  · obtain ⟨⟨length, start⟩, hlength, hpacket⟩ := except_bind_ok.mp hpacket
    have hstart := oldLength_advances hlength
    obtain ⟨_, _, rfl⟩ := packetBody_ok.mp hpacket
    omega

/-- The loop of `iter_packets`. -/
def packetScan (data : Bytes) : Scan KeyFault Packet Unit where
  body pos _ := do
    let (packet, next) ← packetAt data pos
    Gen.yield packet
    return (next, ())
  advances := by
    intro pos next state after hended
    obtain ⟨⟨packet, stop⟩, hpacket, hended⟩ := Gen.bind_ended_ok.mp hended
    obtain ⟨_, _, hended⟩ := Gen.bind_ended_ok.mp hended
    obtain ⟨rfl, _⟩ := Prod.mk.inj (Except.ok.inj hended)
    exact packetAt_advances hpacket

/-- `iter_packets`. -/
def iterPackets (data : Bytes) : Gen KeyFault Packet Unit :=
  (packetScan data).run data.length 0 ()

/-! ## Key packets -/

/-- `OPENPGP_ALGORITHMS`. -/
def openPgpAlgorithms : List (ℤ × (String × Capability × PqcCategory)) :=
  [(1, ("RSA", .both, .classical)),
    (2, ("RSA (encrypt-only)", .encrypt, .classical)),
    (3, ("RSA (sign-only)", .sign, .classical)),
    (16, ("Elgamal", .encrypt, .classical)),
    (17, ("DSA", .sign, .classical)),
    (18, ("ECDH", .encrypt, .classical)),
    (19, ("ECDSA", .sign, .classical)),
    (22, ("EdDSALegacy", .sign, .classical)),
    (25, ("X25519", .encrypt, .classical)),
    (26, ("X448", .encrypt, .classical)),
    (27, ("Ed25519", .sign, .classical)),
    (28, ("Ed448", .sign, .classical)),
    (30, ("ML-DSA-65+Ed25519", .sign, .hybrid)),
    (31, ("ML-DSA-87+Ed448", .sign, .hybrid)),
    (32, ("SLH-DSA-SHAKE-128s", .sign, .purePqc)),
    (33, ("SLH-DSA-SHAKE-128f", .sign, .purePqc)),
    (34, ("SLH-DSA-SHAKE-256s", .sign, .purePqc)),
    (35, ("ML-KEM-768+X25519", .encrypt, .hybrid)),
    (36, ("ML-KEM-1024+X448", .encrypt, .hybrid))]

/-- `_CURVE_OIDS`. -/
def curveOids : List (String × String) :=
  [("1.2.840.10045.3.1.7", "NIST P-256"), ("1.3.132.0.34", "NIST P-384"),
    ("1.3.132.0.35", "NIST P-521"), ("1.3.36.3.3.2.8.1.1.7", "brainpoolP256r1"),
    ("1.3.36.3.3.2.8.1.1.11", "brainpoolP384r1"), ("1.3.36.3.3.2.8.1.1.13", "brainpoolP512r1"),
    ("1.3.6.1.4.1.11591.15.1", "Ed25519"), ("1.3.6.1.4.1.3029.1.5.1", "Curve25519")]

/-- What `parse_public_key_packet` returns. -/
structure KeyInfo where
  version : ℕ
  fingerprint : Option String
  keyId : Option String
  algorithm : String
  algorithmId : ℤ
  capability : Capability
  pqcCategory : PqcCategory
  created : String
  bits : Option ℕ := none
  curve : Option String := none
  subkey : Bool := false
  deriving DecidableEq

/-- `_mpi_bits`. -/
def mpiBits (body : Bytes) (pos : ℕ) : Except KeyFault ℕ := do
  raiseIf (body.length < pos + 2) (.keyParse "truncated MPI")
  unpackFrom 2 body pos

/-- The arcs behind the first two, with those before them and the bits of the next one. -/
def laterArcs (arcs : List ℕ) (acc : ℕ) : Bytes → List ℕ
  | [] => arcs
  | b :: rest =>
      let next := acc * 128 + b.toNat % 128
      if b.toNat < 0x80 then laterArcs (arcs ++ [next]) 0 rest else laterArcs arcs next rest

/-- `_oid_str`. -/
def oidStr (conv : KeyConversions) (value : Bytes) : KeyReader String := do
  raiseIf (value = []) (KeyFault.keyParse "empty OID")
  let first ← byteAt value 0
  let top := min (first / 40) 2
  oidText conv (laterArcs [top, first - 40 * top] 0 (value.drop 1))

/-- What the version decides: the creation time, the algorithm, where the key material starts,
the fingerprint and the key ID. -/
def versionFields (conv : KeyConversions) (hashes : Hashes) (version : ℕ) (body : Bytes) :
    KeyReader (ℕ × ℤ × ℕ × Option String × Option String) := do
  if version = 3 then
    let created ← unpackFrom 4 body 1
    let algo : ℤ := match body[7]? with
      | some byte => byte.toNat
      | none => -1
    return (created, algo, 8, none, none)
  else if version = 4 ∨ version = 5 ∨ version = 6 then
    let created ← unpackFrom 4 body 1
    let algo ← byteAt body 5
    -- Versions 5 and 6 have a four-octet length of the key material.
    let material := if version = 5 ∨ version = 6 then 10 else 6
    if version = 4 then
      let length ← pack conv 2 body.length
      let digest := hashes.sha1 (0x99 :: length ++ body)
      let keyId := String.ofList (digest.toList.drop (digest.length - 16))
      return (created, algo, material, some digest.toUpper, some keyId.toUpper)
    else
      let length ← pack conv 4 body.length
      let digest := hashes.sha256 ((if version = 6 then 0x9B else 0x9A) :: length ++ body)
      let keyId := String.ofList (digest.toList.take 16)
      return (created, algo, material, some digest.toUpper, some keyId.toUpper)
  else throw (.keyParse ("unsupported key packet version " ++ toString version))

/-- The size or the curve of a key, where the algorithm has one. -/
def keyMaterial (conv : KeyConversions) (algo : ℤ) (material : ℕ) (body : Bytes) (info : KeyInfo) :
    KeyReader KeyInfo := do
  if algo = 1 ∨ algo = 2 ∨ algo = 3 ∨ algo = 16 ∨ algo = 17 then
    let bits ← mpiBits body material
    return { info with bits := some bits }
  else if algo = 18 ∨ algo = 19 ∨ algo = 22 then
    raiseIf (body.length ≤ material) (KeyFault.keyParse "truncated curve OID")
    let olen ← byteAt body material
    let dotted ← oidStr conv (slice body (material + 1) (material + 1 + olen))
    return { info with curve := some ((find dotted curveOids).getD ("oid:" ++ dotted)) }
  else return info

/-- `parse_public_key_packet`. -/
def parsePublicKeyPacket (conv : KeyConversions) (hashes : Hashes) (tag : ℕ) (body : Bytes) :
    KeyReader KeyInfo := do
  raiseIf (body.length < 6) (KeyFault.keyParse "public key packet too short")
  let version ← byteAt body 0
  let (created, algo, material, fingerprint, keyId) ← versionFields conv hashes version body
  let (name, capability, category) := (find algo openPgpAlgorithms).getD
    ("unknown (" ++ toString algo ++ ")", .unknown, .classical)
  let info ← keyMaterial conv algo material body
    { version, fingerprint, keyId, algorithm := name, algorithmId := algo, capability,
      pqcCategory := category, created := (BrokenDownTime.ofUnix created).zulu }
  return { info with subkey := tag = 14 }

/-! ## Keys -/

/-- A transferable public key: the primary key, the first user ID and the subkeys. -/
structure OpenPgpKey where
  primary : KeyInfo
  uid : Option String
  subkeys : List KeyInfo
  deriving DecidableEq

/-- The members that decide the category. -/
def KeyInfo.packet (info : KeyInfo) : KeyPacket := ⟨info.capability, info.pqcCategory⟩

/-- The key as the inventory sees it. -/
def OpenPgpKey.parsed (key : OpenPgpKey) : ParsedKey :=
  ⟨key.primary.fingerprint, key.primary.packet, key.subkeys.map KeyInfo.packet⟩

/-- `key["signing_pqc_category"]`. -/
def OpenPgpKey.category (key : OpenPgpKey) : PqcCategory := signingPqcCategory key.parsed

/-- Change the key that was found last. -/
def updateLast (f : OpenPgpKey → OpenPgpKey) (keys : List OpenPgpKey) : List OpenPgpKey :=
  match keys.getLast? with
  | none => keys
  | some key => keys.dropLast ++ [f key]

/-- One packet of a keyring. -/
def addPacket (conv : KeyConversions) (hashes : Hashes) (keys : List OpenPgpKey) (packet : Packet) :
    KeyReader (List OpenPgpKey) := do
  if packet.tag = 6 then
    let info ← parsePublicKeyPacket conv hashes packet.tag packet.body
    return keys ++ [⟨info, none, []⟩]
  else if packet.tag = 14 ∧ keys ≠ [] then
    let sub ← parsePublicKeyPacket conv hashes packet.tag packet.body
    return updateLast
      (fun key => { key with subkeys := key.subkeys ++ [{ sub with subkey := false }] }) keys
  else if packet.tag = 13 then
    let uid := String.ofList (replaceUtf8From .start packet.body)
    return updateLast (fun key => { key with uid := some (key.uid.getD uid) }) keys
  else return keys

/-- `parse_openpgp_keys`. -/
def parseOpenpgpKeys (conv : KeyConversions) (hashes : Hashes) (data : Bytes) :
    KeyReader (List OpenPgpKey) :=
  (iterPackets data).forEach (addPacket conv hashes) []

/-- `parse_key_blob`. -/
def parseKeyBlob (conv : KeyConversions) (hashes : Hashes) (data : Bytes) :
    KeyReader (List OpenPgpKey) :=
  if (cut (encodeAscii (String.ofList beginMarker)) data).isSome then do
    let blocks ← dearmor (replaceAscii data)
    blocks.foldlM (fun keys block => do
      let found ← parseOpenpgpKeys conv hashes block
      return keys ++ found) []
  else parseOpenpgpKeys conv hashes data

end PqcReadiness.Signing
