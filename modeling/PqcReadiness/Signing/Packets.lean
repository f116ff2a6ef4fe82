import PqcReadiness.Lib.Asn1
import PqcReadiness.Signing.OpenPgp

/-!
# Packets and their encodings

A packet can be written with several headers, and each packet of a file with another one.
`iter_packets` gives back the packets, whatever headers were chosen (`iterPackets_encode`): it
reads one packet where one stands (`packetAt_encode`), and the rest of the file from there on.
-/

namespace PqcReadiness.Signing

open PqcReadiness.Lib PqcReadiness.Lib.Bytes

/-- The headers: in the new format with a length of one, two or five octets, in the old format
with one of one, two or four octets, or an indeterminate one. -/
inductive HeaderForm where
  | newOne
  | newTwo
  | newFive
  | oldOne
  | oldTwo
  | oldFour
  | oldIndeterminate
  deriving DecidableEq

namespace HeaderForm

/-- Is the header able to carry the packet?  An indeterminate length reaches to the end. -/
def Carries (form : HeaderForm) (packet : Packet) (last : Bool) : Prop :=
  match form with
  | newOne => packet.tag < 64 ∧ packet.body.length < 192
  | newTwo => packet.tag < 64 ∧ 192 ≤ packet.body.length ∧ packet.body.length ≤ 8383
  | newFive => packet.tag < 64 ∧ packet.body.length < 2 ^ 32
  | oldOne => packet.tag < 16 ∧ packet.body.length < 2 ^ 8
  | oldTwo => packet.tag < 16 ∧ packet.body.length < 2 ^ 16
  | oldFour => packet.tag < 16 ∧ packet.body.length < 2 ^ 32
  | oldIndeterminate => packet.tag < 16 ∧ last = true

/-- The header of a packet. -/
def header (form : HeaderForm) (packet : Packet) : Bytes :=
  let length := packet.body.length
  match form with
  | newOne => [UInt8.ofNat (0xC0 + packet.tag), UInt8.ofNat length]
  | newTwo => [UInt8.ofNat (0xC0 + packet.tag), UInt8.ofNat (192 + (length - 192) / 256),
      UInt8.ofNat ((length - 192) % 256)]
  | newFive => UInt8.ofNat (0xC0 + packet.tag) :: 0xFF :: Bytes.ofNat .big 4 length
  | oldOne => UInt8.ofNat (0x80 + 4 * packet.tag) :: Bytes.ofNat .big 1 length
  | oldTwo => UInt8.ofNat (0x81 + 4 * packet.tag) :: Bytes.ofNat .big 2 length
  | oldFour => UInt8.ofNat (0x82 + 4 * packet.tag) :: Bytes.ofNat .big 4 length
  | oldIndeterminate => [UInt8.ofNat (0x83 + 4 * packet.tag)]

end HeaderForm

/-- A packet with the header that was chosen for it. -/
abbrev FramedPacket := HeaderForm × Packet

/-- The bytes of a packet. -/
def FramedPacket.encode (framed : FramedPacket) : Bytes :=
  framed.1.header framed.2 ++ framed.2.body

/-- The bytes of a file. -/
def encodePackets (packets : List FramedPacket) : Bytes := packets.flatMap FramedPacket.encode

/-- Every header is able to carry its packet. -/
def Framed : List FramedPacket → Prop
  | [] => True
  | framed :: rest => framed.1.Carries framed.2 rest.isEmpty ∧ Framed rest

section Read

variable {data rest : Bytes} {pos : ℕ} {packet : Packet}

theorem byteAt_of_standsAt {byte : UInt8} (hstands : StandsAt data pos (byte :: rest)) :
    byteAt data pos = .ok byte.toNat := by
  rw [byteAt, hstands.getElem?]

theorem toNat_ofNat_lt {n : ℕ} (hn : n < 256) : (UInt8.ofNat n).toNat = n := by
  rw [UInt8.toNat_ofNat']
  omega

theorem packetBody_of_standsAt {tag start : ℕ} {body : Bytes} (hstands : StandsAt data start body) :
    packetBody data tag body.length start = .ok (⟨tag, body⟩, start + body.length) :=
  packetBody_ok.mpr ⟨hstands.le, by rw [hstands.slice], rfl⟩

/-- A number in so many octets. -/
theorem slice_ofNat {width n : ℕ} (hstands : StandsAt data pos (ofNat .big width n ++ rest))
    (hn : n < 256 ^ width) :
    pos + width ≤ data.length ∧ toNat .big (slice data pos (pos + width)) = n := by
  have hinside := hstands.left.le
  have hslice := hstands.left.slice
  rw [length_ofNat] at hinside hslice
  exact ⟨hinside, by rw [hslice, toNat_ofNat hn]⟩

/-- What the first octet of a header in the old format says. -/
theorem packetAt_old {lengthType length start : ℕ} (htag : packet.tag < 16)
    (htype : lengthType < 4)
    (hstands : StandsAt data pos (UInt8.ofNat (0x80 + lengthType + 4 * packet.tag) :: rest))
    (hlength : oldLength data lengthType (pos + 1) = .ok (length, start)) :
    packetAt data pos = packetBody data packet.tag length start := by
  have hhdr : (UInt8.ofNat (0x80 + lengthType + 4 * packet.tag)).toNat =
      0x80 + lengthType + 4 * packet.tag := toNat_ofNat_lt (by omega)
  have hold : ¬ (0x80 + lengthType + 4 * packet.tag) / 0x40 % 2 = 1 := by omega
  have htypeBits : (0x80 + lengthType + 4 * packet.tag) % 4 = lengthType := by omega
  have htagBits : (0x80 + lengthType + 4 * packet.tag) / 4 % 16 = packet.tag := by omega
  rw [packetAt, byteAt_of_standsAt hstands, ok_bind, hhdr, raiseIf_of_not (by omega), ok_bind,
    if_neg hold, htypeBits, htagBits, hlength, ok_bind]

/-- What the first octet of a header in the new format says. -/
theorem packetAt_new {length start : ℕ} (htag : packet.tag < 64)
    (hstands : StandsAt data pos (UInt8.ofNat (0xC0 + packet.tag) :: rest))
    (hlength : newLength data (pos + 1) = .ok (length, start)) :
    packetAt data pos = packetBody data packet.tag length start := by
  have hhdr : (UInt8.ofNat (0xC0 + packet.tag)).toNat = 0xC0 + packet.tag := toNat_ofNat_lt (by omega)
  have hnew : (0xC0 + packet.tag) / 0x40 % 2 = 1 := by omega
  have htagBits : (0xC0 + packet.tag) % 0x40 = packet.tag := by omega
  rw [packetAt, byteAt_of_standsAt hstands, ok_bind, hhdr, raiseIf_of_not (by omega), ok_bind,
    if_pos hnew, htagBits, hlength, ok_bind]

theorem oldLength_octets {lengthType width n : ℕ}
    (hwidth : (if lengthType = 0 then 1 else if lengthType = 1 then 2 else 4) = width)
    (htype : lengthType ≠ 3) (hstands : StandsAt data pos (ofNat .big width n ++ rest))
    (hn : n < 256 ^ width) : oldLength data lengthType pos = .ok (n, pos + width) := by
  obtain ⟨hinside, hnumber⟩ := slice_ofNat hstands hn
  rw [oldLength, if_neg htype]
  dsimp only
  rw [hwidth, raiseIf_of_not (Nat.not_lt.mpr hinside), ok_bind, hnumber]
  rfl

/-! Lengths in the new format. -/

theorem newLength_one {n : ℕ} (hn : n < 192) (hstands : StandsAt data pos (UInt8.ofNat n :: rest)) :
    newLength data pos = .ok (n, pos + 1) := by
  have hinside := hstands.le
  rw [List.length_cons] at hinside
  rw [newLength, raiseIf_of_not (by omega), ok_bind, byteAt_of_standsAt hstands,
    toNat_ofNat_lt (by omega), ok_bind, if_pos hn]
  rfl

theorem newLength_two {n : ℕ} (hlow : 192 ≤ n) (hhigh : n ≤ 8383)
    (hstands : StandsAt data pos
      (UInt8.ofNat (192 + (n - 192) / 256) :: UInt8.ofNat ((n - 192) % 256) :: rest)) :
    newLength data pos = .ok (n, pos + 2) := by
  have hinside := hstands.le
  rw [List.length_cons, List.length_cons] at hinside
  have hlength : (192 + (n - 192) / 256 - 192) * 256 + (n - 192) % 256 + 192 = n := by omega
  rw [newLength, raiseIf_of_not (by omega), ok_bind, byteAt_of_standsAt hstands,
    toNat_ofNat_lt (by omega), ok_bind, if_neg (by omega), if_pos (by omega),
    raiseIf_of_not (by omega), ok_bind, byteAt_of_standsAt hstands.tail, toNat_ofNat_lt (by omega),
    ok_bind, hlength]
  rfl

theorem newLength_five {n : ℕ} (hn : n < 256 ^ 4)
    (hstands : StandsAt data pos (0xFF :: ofNat .big 4 n)) :
    newLength data pos = .ok (n, pos + 5) := by
  have hlength : StandsAt data (pos + 1) (ofNat .big 4 n ++ []) := by
    rw [List.append_nil]
    exact hstands.tail
  obtain ⟨hinside, hnumber⟩ := slice_ofNat hlength hn
  have hfirst : (0xFF : UInt8).toNat = 255 := rfl
  rw [newLength, raiseIf_of_not (by omega), ok_bind, byteAt_of_standsAt hstands, hfirst, ok_bind,
    if_neg (by decide), if_neg (by decide), if_pos rfl, raiseIf_of_not (by omega), ok_bind,
    unpackFrom, raiseIf_of_not (by omega), ok_bind, hnumber]
  rfl

/-- **A packet is read where it stands.** -/
theorem packetAt_encode {form : HeaderForm} {last : Bool} (hcarries : form.Carries packet last)
    (hlast : last = true → rest = [])
    (hfills : Fills data pos data.length (form.header packet ++ packet.body ++ rest)) :
    packetAt data pos =
      .ok (packet, pos + (form.header packet).length + packet.body.length) := by
  have hheader : StandsAt data pos (form.header packet) := hfills.stands.left.left
  have hbody := @packetBody_of_standsAt _ packet.tag _ _ hfills.stands.left.right
  have hold : ∀ lengthType width : ℕ, lengthType < 4 → lengthType ≠ 3 →
      (if lengthType = 0 then 1 else if lengthType = 1 then 2 else 4) = width →
      packet.tag < 16 → packet.body.length < 256 ^ width →
      StandsAt data pos (UInt8.ofNat (0x80 + lengthType + 4 * packet.tag) ::
        ofNat .big width packet.body.length) →
      packetAt data pos = packetBody data packet.tag packet.body.length (pos + 1 + width) := by
    intro lengthType width htype hnotThree hwidth htag hlength hstands
    refine packetAt_old htag htype hstands ?_
    refine @oldLength_octets _ [] _ _ _ _ hwidth hnotThree ?_ hlength
    rw [List.append_nil]
    exact hstands.tail
  cases form with
  | newOne =>
      obtain ⟨htag, hlength⟩ := hcarries
      rw [packetAt_new htag hheader (newLength_one hlength hheader.tail)]
      exact hbody
  | newTwo =>
      obtain ⟨htag, hlow, hhigh⟩ := hcarries
      rw [packetAt_new htag hheader (newLength_two hlow hhigh hheader.tail)]
      exact hbody
  | newFive =>
      obtain ⟨htag, hlength⟩ := hcarries
      have hstart : pos + (HeaderForm.newFive.header packet).length = pos + 1 + 5 := by
        simp [HeaderForm.header]
      rw [packetAt_new htag hheader (newLength_five hlength hheader.tail), ← hstart]
      exact hbody
  | oldOne =>
      obtain ⟨htag, hlength⟩ := hcarries
      rw [hold 0 1 (by decide) (by decide) rfl htag hlength hheader]
      exact hbody
  | oldTwo =>
      obtain ⟨htag, hlength⟩ := hcarries
      rw [hold 1 2 (by decide) (by decide) rfl htag hlength hheader]
      exact hbody
  | oldFour =>
      obtain ⟨htag, hlength⟩ := hcarries
      rw [hold 2 4 (by decide) (by decide) rfl htag hlength hheader]
      exact hbody
  | oldIndeterminate =>
      obtain ⟨htag, htrue⟩ := hcarries
      have hstop := hfills.stop_eq
      rw [hlast htrue, List.append_nil, List.length_append] at hstop
      have hone : (HeaderForm.oldIndeterminate.header packet).length = 1 := rfl
      have hlength : oldLength data 3 (pos + 1) = .ok (packet.body.length, pos + 1) := by
        rw [oldLength, if_pos rfl, hstop, hone]
        exact congrArg (fun length => Except.ok (length, pos + 1)) (by omega)
      rw [packetAt_old htag (by decide) hheader hlength]
      exact hbody

end Read

/-! ## Files -/

theorem FramedPacket.encode_ne_nil (framed : FramedPacket) : framed.encode ≠ [] := by
  intro hempty
  have hheader := (List.append_eq_nil_iff.mp hempty).1
  cases hform : framed.1 <;> rw [hform] at hheader <;> cases hheader

theorem packetScan_encode {data : Bytes} {pos : ℕ} {packets : List FramedPacket}
    (hframed : Framed packets) (hfills : Fills data pos data.length (encodePackets packets)) :
    (packetScan data).run data.length pos () = ⟨packets.map Prod.snd, .ok ()⟩ := by
  induction packets generalizing pos with
  | nil =>
      have hend := hfills.stop_eq
      rw [encodePackets, List.flatMap_nil, List.length_nil] at hend
      exact Scan.run_of_ge (by omega)
  | cons framed rest ih =>
      obtain ⟨form, packet⟩ := framed
      obtain ⟨hcarries, hrest⟩ := hframed
      have hencode : encodePackets ((form, packet) :: rest) =
          form.header packet ++ packet.body ++ encodePackets rest := List.flatMap_cons
      have hpositive : 0 < (form.header packet).length + packet.body.length := by
        rw [← List.length_append]
        exact List.length_pos_iff.mpr (FramedPacket.encode_ne_nil (form, packet))
      rw [hencode] at hfills
      have hstop := hfills.stop_eq
      rw [List.length_append, List.length_append] at hstop
      have hlast : rest.isEmpty = true → encodePackets rest = [] := by
        intro hempty
        rw [List.isEmpty_iff.mp hempty]
        rfl
      have hread := packetAt_encode hcarries hlast hfills
      have hbehind : Fills data (pos + (form.header packet).length + packet.body.length) data.length
          (encodePackets rest) := by
        have hstands := hfills.stands.right
        rw [List.length_append, ← Nat.add_assoc] at hstands
        exact ⟨hstands, by omega⟩
      have hturn : (packetScan data).body pos () =
          ⟨[packet], .ok (pos + (form.header packet).length + packet.body.length, ())⟩ := by
        have hbody : (packetScan data).body pos () = (do
            let read ← packetAt data pos
            Gen.yield read.1
            return (read.2, ())) := rfl
        rw [hbody, Gen.lift_bind_ok hread]
        rfl
      rw [Scan.run_of_lt (by omega), hturn, Gen.bind_of_ok rfl, ih hrest hbehind]
      rfl

/-- **The packets of a file are those that were written.** -/
theorem iterPackets_encode {packets : List FramedPacket} (hframed : Framed packets) :
    iterPackets (encodePackets packets) = ⟨packets.map Prod.snd, .ok ()⟩ :=
  packetScan_encode hframed ⟨standsAt_self _, (Nat.zero_add _).symm⟩

end PqcReadiness.Signing
