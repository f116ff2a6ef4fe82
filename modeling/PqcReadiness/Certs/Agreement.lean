import PqcReadiness.Certs.Conversions

/-!
# The two certificate readers

`cert_algorithm_oids` and `parse_certificate` walk through the same elements.  What only
`cert_algorithm_oids` checks is that the algorithm of the key starts with an element that is
tagged as an object identifier: `_spki_key` decodes the contents of that element whatever its
tag is.
-/

namespace PqcReadiness.Certs

open PqcReadiness.Lib PqcReadiness.Lib.Bytes

/-- The first element of the algorithm of the key. -/
def keyObject (der : Bytes) : Except Fault Tlv := do
  let tbs ← tbsCertificate der
  let pos ← afterVersion der tbs.start tbs.stop
  let serialNumber ← derTlv der pos tbs.stop
  let signature ← derTlv der serialNumber.stop tbs.stop
  let issuer ← derTlv der signature.stop tbs.stop
  let validity ← derTlv der issuer.stop tbs.stop
  let subject ← derTlv der validity.stop tbs.stop
  let spki ← derTlv der subject.stop tbs.stop
  let algorithm ← derTlv der spki.start spki.stop
  derTlv der algorithm.start algorithm.stop

/-- The algorithm of the key starts with an element that is tagged as an object identifier. -/
def KeyOidTagged (der : Bytes) : Prop :=
  ∃ object, keyObject der = .ok object ∧ object.tag = 0x06

/-- The readers agree on a certificate: the algorithm identifiers are those of the record, and
so is the category that is counted. -/
structure ReadersAgree (der : Bytes) (cert : Certificate) : Prop where
  oids : (certAlgorithmOids python der).ended =
    .ok [cert.signatureAlgorithmOid, cert.keyAlgorithmOid]
  category : categoriseCertOids [cert.signatureAlgorithmOid, cert.keyAlgorithmOid] = cert.category

section Walk

variable {conv : Conversions} {sha256 : Bytes → String} {buf der : Bytes} {pos start stop : ℕ}

theorem derExpect_ok {tag : ℕ} {message : String} {element : Tlv} :
    derExpect buf pos stop tag message = .ok element ↔
      derTlv buf pos stop = .ok element ∧ element.tag = tag := by
  constructor
  · intro hexpect
    obtain ⟨read, hread, hexpect⟩ := except_bind_ok.mp hexpect
    obtain ⟨_, htag, hexpect⟩ := except_bind_ok.mp hexpect
    rw [← Except.ok.inj hexpect]
    exact ⟨hread, not_not.mp (raiseIf_ok.mp htag)⟩
  · rintro ⟨hread, htag⟩
    rw [derExpect, hread, ok_bind, raiseIf_of_not (not_not.mpr htag)]
    rfl

/-- What an algorithm identifier is. -/
theorem derAlgorithmOid_ok {oid : String} {after : ℕ} :
    (derAlgorithmOid conv buf pos stop).ended = .ok (oid, after) ↔
      ∃ algorithm object, derTlv buf pos stop = .ok algorithm ∧ algorithm.tag = 0x30 ∧
        derTlv buf algorithm.start algorithm.stop = .ok object ∧ object.tag = 0x06 ∧
        (derOid conv (valueOf buf object)).ended = .ok oid ∧ after = algorithm.stop := by
  constructor
  · intro hended
    obtain ⟨algorithm, halgorithm, hended⟩ := Gen.bind_ended_ok.mp hended
    obtain ⟨_, htag, hended⟩ := Gen.bind_ended_ok.mp hended
    obtain ⟨object, hobject, hended⟩ := Gen.bind_ended_ok.mp hended
    obtain ⟨_, hobjectTag, hended⟩ := Gen.bind_ended_ok.mp hended
    obtain ⟨text, htext, hended⟩ := Gen.bind_ended_ok.mp hended
    obtain ⟨rfl, rfl⟩ := Prod.mk.inj (Except.ok.inj hended)
    exact ⟨algorithm, object, halgorithm, not_not.mp (raiseIf_ok.mp htag), hobject,
      not_not.mp (raiseIf_ok.mp hobjectTag), htext, rfl⟩
  · rintro ⟨algorithm, object, halgorithm, htag, hobject, hobjectTag, hoid, rfl⟩
    rw [derAlgorithmOid, Gen.lift_bind_ok halgorithm, Gen.lift_bind_ok (raiseIf_of_not (by simp [htag])),
      Gen.lift_bind_ok hobject, Gen.lift_bind_ok (raiseIf_of_not (by simp [hobjectTag])),
      Gen.bind_of_ok hoid]
    rfl

/-- What `_der_name` reads is one element. -/
theorem derParty_ok {message name : String} {after : ℕ}
    (hended : (derParty conv der pos stop message).ended = .ok (name, after)) :
    ∃ party, derTlv der pos stop = .ok party ∧ after = party.stop := by
  obtain ⟨party, hparty, hended⟩ := Gen.bind_ended_ok.mp hended
  obtain ⟨_, _, hended⟩ := Gen.bind_ended_ok.mp hended
  obtain ⟨_, rfl⟩ := Prod.mk.inj (Except.ok.inj hended)
  exact ⟨party, (derExpect_ok.mp hparty).1, rfl⟩

/-- `_spki_key` takes the contents of the first element for an object identifier. -/
theorem spkiKey_ok {key : SpkiKey} (hended : (spkiKey conv buf start stop).ended = .ok key) :
    ∃ algorithm object, derTlv buf start stop = .ok algorithm ∧ algorithm.tag = 0x30 ∧
      derTlv buf algorithm.start algorithm.stop = .ok object ∧
      (derOid conv (valueOf buf object)).ended = .ok key.oid := by
  obtain ⟨algorithm, halgorithm, hended⟩ := Gen.bind_ended_ok.mp hended
  obtain ⟨_, htag, hended⟩ := Gen.bind_ended_ok.mp hended
  obtain ⟨object, hobject, hended⟩ := Gen.bind_ended_ok.mp hended
  obtain ⟨oid, hoid, hended⟩ := Gen.bind_ended_ok.mp hended
  have hkey : key.oid = oid := by
    dsimp only at hended
    split at hended
    · obtain ⟨parameter, _, hended⟩ := Gen.bind_ended_ok.mp hended
      split at hended
      · obtain ⟨curve, _, hended⟩ := Gen.bind_ended_ok.mp hended
        split at hended <;> exact (congrArg SpkiKey.oid (Except.ok.inj hended)).symm
      · exact (congrArg SpkiKey.oid (Except.ok.inj hended)).symm
    · split at hended
      · obtain ⟨size, _, hended⟩ := Gen.bind_ended_ok.mp hended
        exact (congrArg SpkiKey.oid (Except.ok.inj hended)).symm
      · exact (congrArg SpkiKey.oid (Except.ok.inj hended)).symm
  rw [hkey]
  exact ⟨algorithm, object, halgorithm, not_not.mp (raiseIf_ok.mp htag), hobject, hoid⟩

end Walk

/-! ## Agreement -/

/-- The elements that `parse_certificate` has read when it returns. -/
theorem parseCertificate_walk {sha256 : Bytes → String} {der : Bytes} {cert : Certificate}
    (hparse : (parseCertificate python sha256 der).ended = .ok cert) :
    ∃ tbs pos serial signatureStop issuer validity subject spki algorithm object,
      tbsCertificate der = .ok tbs ∧ afterVersion der tbs.start tbs.stop = .ok pos ∧
      derTlv der pos tbs.stop = .ok serial ∧
      (derAlgorithmOid python der serial.stop tbs.stop).ended =
        .ok (cert.signatureAlgorithmOid, signatureStop) ∧
      derTlv der signatureStop tbs.stop = .ok issuer ∧
      derTlv der issuer.stop tbs.stop = .ok validity ∧
      derTlv der validity.stop tbs.stop = .ok subject ∧
      derTlv der subject.stop tbs.stop = .ok spki ∧ spki.tag = 0x30 ∧
      derTlv der spki.start spki.stop = .ok algorithm ∧ algorithm.tag = 0x30 ∧
      derTlv der algorithm.start algorithm.stop = .ok object ∧
      (derOid python (valueOf der object)).ended = .ok cert.keyAlgorithmOid ∧
      cert.category = categoriseCertOids [cert.signatureAlgorithmOid, cert.keyAlgorithmOid] := by
  obtain ⟨tbs, htbs, hparse⟩ := Gen.bind_ended_ok.mp hparse
  obtain ⟨pos, hpos, hparse⟩ := Gen.bind_ended_ok.mp hparse
  obtain ⟨serial, hserial, hparse⟩ := Gen.bind_ended_ok.mp hparse
  obtain ⟨⟨sigOid, signatureStop⟩, hsignature, hparse⟩ := Gen.bind_ended_ok.mp hparse
  obtain ⟨⟨issuerName, issuerStop⟩, hissuer, hparse⟩ := Gen.bind_ended_ok.mp hparse
  obtain ⟨validity, hvalidity, hparse⟩ := Gen.bind_ended_ok.mp hparse
  obtain ⟨⟨notBefore, notAfter⟩, _, hparse⟩ := Gen.bind_ended_ok.mp hparse
  obtain ⟨⟨subjectName, subjectStop⟩, hsubject, hparse⟩ := Gen.bind_ended_ok.mp hparse
  obtain ⟨spki, hspki, hparse⟩ := Gen.bind_ended_ok.mp hparse
  obtain ⟨key, hkey, hparse⟩ := Gen.bind_ended_ok.mp hparse
  obtain ⟨exts, _, hparse⟩ := Gen.bind_ended_ok.mp hparse
  obtain ⟨ca, _, hparse⟩ := Gen.bind_ended_ok.mp hparse
  obtain rfl := Except.ok.inj hparse
  obtain ⟨issuer, hissuerRead, rfl⟩ := derParty_ok hissuer
  obtain ⟨subject, hsubjectRead, rfl⟩ := derParty_ok hsubject
  obtain ⟨hspki, hspkiTag⟩ := derExpect_ok.mp hspki
  obtain ⟨algorithm, object, halgorithm, htag, hobject, hoid⟩ := spkiKey_ok hkey
  exact ⟨tbs, pos, serial, signatureStop, issuer, validity, subject, spki, algorithm, object, htbs,
    hpos, (derExpect_ok.mp hserial).1, hsignature, hissuerRead, (derExpect_ok.mp hvalidity).1,
    hsubjectRead, hspki, hspkiTag, halgorithm, htag, hobject, hoid, rfl⟩

/-- **On a certificate that `parse_certificate` accepts, the readers agree exactly if the
algorithm of the key starts with an element that is tagged as an object identifier.** -/
theorem readers_agree_iff {sha256 : Bytes → String} {der : Bytes} {cert : Certificate}
    (hparse : (parseCertificate python sha256 der).ended = .ok cert) :
    ReadersAgree der cert ↔ KeyOidTagged der := by
  obtain ⟨tbs, pos, serial, signatureStop, issuer, validity, subject, spki, algorithm, object, htbs,
    hpos, hserial, hsignature, hissuer, hvalidity, hsubject, hspki, hspkiTag, halgorithm, htag,
    hobject, hoid, hcategory⟩ := parseCertificate_walk hparse
  have hkeyObject : keyObject der = .ok object := by
    obtain ⟨signature, _, hsigRead, _, _, _, _, rfl⟩ := derAlgorithmOid_ok.mp hsignature
    simp only [keyObject, htbs, hpos, hserial, hsigRead, hissuer, hvalidity, hsubject, hspki,
      halgorithm, hobject, ok_bind]
  have hreader : certAlgorithmOids python der = (do
      let signature ← derAlgorithmOid python der serial.stop tbs.stop
      let key ← derAlgorithmOid python der spki.start spki.stop
      return [signature.1, key.1]) := by
    rw [certAlgorithmOids, Gen.lift_bind_ok htbs, Gen.lift_bind_ok hpos, Gen.lift_bind_ok hserial,
      Gen.bind_of_ok hsignature, Gen.bind_of_ok hsignature]
    dsimp only
    rw [Gen.lift_bind_ok hissuer, Gen.lift_bind_ok hvalidity, Gen.lift_bind_ok hsubject,
      Gen.lift_bind_ok hspki, Gen.lift_bind_ok (raiseIf_of_not (by simp [hspkiTag]))]
  constructor
  · intro hagree
    have hoids := hagree.oids
    rw [hreader] at hoids
    obtain ⟨_, _, hoids⟩ := Gen.bind_ended_ok.mp hoids
    obtain ⟨⟨spkiOid, after⟩, hspkiOid, _⟩ := Gen.bind_ended_ok.mp hoids
    obtain ⟨read, readObject, hread, _, hreadObject, htagged, _, _⟩ := derAlgorithmOid_ok.mp hspkiOid
    obtain rfl := Except.ok.inj (halgorithm.symm.trans hread)
    obtain rfl := Except.ok.inj (hobject.symm.trans hreadObject)
    exact ⟨object, hkeyObject, htagged⟩
  · rintro ⟨other, hother, htagged⟩
    obtain rfl := Except.ok.inj (hkeyObject.symm.trans hother)
    refine ⟨?_, hcategory.symm⟩
    have hspkiOid : (derAlgorithmOid python der spki.start spki.stop).ended =
        .ok (cert.keyAlgorithmOid, algorithm.stop) :=
      derAlgorithmOid_ok.mpr ⟨algorithm, object, halgorithm, htag, hobject, htagged, hoid, rfl⟩
    rw [hreader, Gen.bind_of_ok hsignature]
    dsimp only
    rw [Gen.bind_of_ok hspkiOid]
    rfl

/-- A certificate without names and extensions, whose key algorithm starts with an element of
the given tag. -/
def smallCert (tag : UInt8) : Bytes :=
  [0x30, 0x35, 0x30, 0x33, 0x02, 0x01, 0x01, 0x30, 0x03, 0x06, 0x01, 0x2A, 0x30, 0x00,
    0x30, 0x1E, 0x17, 0x0D] ++ encodeAscii "200101000000Z" ++ [0x17, 0x0D] ++
    encodeAscii "300101000000Z" ++ [0x30, 0x00, 0x30, 0x05, 0x30, 0x03, tag, 0x01, 0x2A]

/-- What `parse_certificate` returns for it. -/
def smallRecord (sha256 : String) : Certificate where
  sha256 := sha256
  serial := "01"
  subject := ""
  issuer := ""
  notBefore := "2020-01-01T00:00:00+00:00"
  notAfter := "2030-01-01T00:00:00+00:00"
  category := .classical
  signatureAlgorithmOid := "1.2"
  keyAlgorithm := "1.2"
  keyAlgorithmOid := "1.2"
  keySize := none
  isCa := false
  selfSigned := true
  role := .ca

/-- Nothing is read between equal positions. -/
theorem derName_empty (conv : Conversions) (buf : Bytes) (pos : ℕ) :
    derName conv buf pos pos = ⟨[], .ok ""⟩ := by
  rw [derName, readElements, Scan.run_of_ge (Nat.lt_irrefl pos)]
  rfl

section SmallCert

variable {tag : UInt8}

theorem smallCert_object (htag : tag.toNat % 0x20 ≠ 0x1F) :
    derTlv (smallCert tag) 52 55 = .ok ⟨tag.toNat, 54, 55⟩ := by
  have hbyte : byteAt (smallCert tag) 52 = .ok tag.toNat := rfl
  rw [derTlv, raiseIf_of_not (by decide), ok_bind, hbyte, ok_bind, raiseIf_of_not htag]
  rfl

theorem smallCert_keyObject (htag : tag.toNat % 0x20 ≠ 0x1F) :
    keyObject (smallCert tag) = .ok ⟨tag.toNat, 54, 55⟩ := smallCert_object htag

theorem smallCert_key (htag : tag.toNat % 0x20 ≠ 0x1F) :
    spkiKey intended (smallCert tag) 50 55 = ⟨[.oid [1, 2]], .ok ⟨"1.2", "1.2", none⟩⟩ := by
  have halgorithm : derTlv (smallCert tag) 50 55 = .ok ⟨0x30, 52, 55⟩ := rfl
  rw [spkiKey, Gen.lift_bind_ok halgorithm, Gen.lift_bind_ok (raiseIf_of_not (by decide)),
    Gen.lift_bind_ok (smallCert_object htag)]
  rfl

theorem smallCert_intended (sha256 : Bytes → String) (htag : tag.toNat % 0x20 ≠ 0x1F) :
    parseCertificate intended sha256 (smallCert tag) =
      ⟨[.oid [1, 2], .year ['2', '0'], .year ['3', '0'], .oid [1, 2]],
        .ok (smallRecord (sha256 (smallCert tag)))⟩ := by
  have htbs : tbsCertificate (smallCert tag) = .ok ⟨0x30, 4, 55⟩ := rfl
  have hpos : afterVersion (smallCert tag) 4 55 = .ok 4 := rfl
  have hserial : derExpect (smallCert tag) 4 55 0x02 "serialNumber is not an INTEGER" =
      .ok ⟨0x02, 6, 7⟩ := rfl
  have hsignature : derAlgorithmOid intended (smallCert tag) 7 55 =
      ⟨[.oid [1, 2]], .ok ("1.2", 12)⟩ := rfl
  have hissuer : derParty intended (smallCert tag) 12 55 "issuer is not a SEQUENCE" =
      ⟨[], .ok ("", 14)⟩ := by
    have hparty : derExpect (smallCert tag) 12 55 0x30 "issuer is not a SEQUENCE" =
        .ok ⟨0x30, 14, 14⟩ := rfl
    rw [derParty, Gen.lift_bind_ok hparty, derName_empty]
    rfl
  have hvalidity : derExpect (smallCert tag) 14 55 0x30 "validity is not a SEQUENCE" =
      .ok ⟨0x30, 16, 46⟩ := rfl
  have htimes : derValidity intended (smallCert tag) ⟨0x30, 16, 46⟩ =
      ⟨[.year ['2', '0'], .year ['3', '0']],
        .ok ("2020-01-01T00:00:00+00:00", "2030-01-01T00:00:00+00:00")⟩ := by
    have hfirst : derTlv (smallCert tag) 16 46 = .ok ⟨0x17, 18, 31⟩ := rfl
    have hsecond : derTlv (smallCert tag) 31 46 = .ok ⟨0x17, 33, 46⟩ := rfl
    have hnotBefore : valueOf (smallCert tag) ⟨0x17, 18, 31⟩ = encodeAscii "200101000000Z" := rfl
    have hnotAfter : valueOf (smallCert tag) ⟨0x17, 33, 46⟩ = encodeAscii "300101000000Z" := rfl
    have hfirstTime : derTime intended 0x17 (encodeAscii "200101000000Z") =
        ⟨[.year ['2', '0']], .ok "2020-01-01T00:00:00+00:00"⟩ := by rfl
    have hsecondTime : derTime intended 0x17 (encodeAscii "300101000000Z") =
        ⟨[.year ['3', '0']], .ok "2030-01-01T00:00:00+00:00"⟩ := by rfl
    rw [derValidity, Gen.lift_bind_ok hfirst, Gen.lift_bind_ok hsecond, hnotBefore, hnotAfter,
      hfirstTime, hsecondTime]
    rfl
  have hsubject : derParty intended (smallCert tag) 46 55 "subject is not a SEQUENCE" =
      ⟨[], .ok ("", 48)⟩ := by
    have hparty : derExpect (smallCert tag) 46 55 0x30 "subject is not a SEQUENCE" =
        .ok ⟨0x30, 48, 48⟩ := rfl
    rw [derParty, Gen.lift_bind_ok hparty, derName_empty]
    rfl
  have hspki : derExpect (smallCert tag) 48 55 0x30 "subjectPublicKeyInfo is not a SEQUENCE" =
      .ok ⟨0x30, 50, 55⟩ := rfl
  have hextensions : readElements (smallCert tag) 55 55
      (trailingElement intended (smallCert tag)) Dict.empty = ⟨[], .ok .empty⟩ :=
    Scan.run_of_ge (Nat.lt_irrefl 55)
  rw [parseCertificate, Gen.lift_bind_ok htbs, Gen.lift_bind_ok hpos, Gen.lift_bind_ok hserial,
    hsignature, Gen.bind_of_ok rfl]
  dsimp only
  rw [hissuer, Gen.bind_of_ok rfl]
  dsimp only
  rw [Gen.lift_bind_ok hvalidity, htimes, Gen.bind_of_ok rfl]
  dsimp only
  rw [hsubject, Gen.bind_of_ok rfl]
  dsimp only
  rw [Gen.lift_bind_ok hspki, smallCert_key htag, Gen.bind_of_ok rfl]
  dsimp only
  rw [hextensions]
  rfl

theorem smallCert_parsed (sha256 : Bytes → String) (htag : tag.toNat % 0x20 ≠ 0x1F) :
    (parseCertificate python sha256 (smallCert tag)).ended =
      .ok (smallRecord (sha256 (smallCert tag))) := by
  have hread := smallCert_intended sha256 htag
  rw [(follows_parseCertificate sha256 (smallCert tag)).same, hread]
  rw [hread]
  intro conversion hmem
  simp only [List.mem_cons, List.not_mem_nil, or_false] at hmem
  rcases hmem with rfl | rfl | rfl | rfl
  · exact converts_oneTwo
  · rfl
  · rfl
  · exact converts_oneTwo

end SmallCert

/-- The digest of the certificate whose key algorithm is tagged as an object identifier. -/
def smallDigest (_ : Bytes) : String :=
  "d920137ddef63b69f4f8eda05091a60695369e27d6738cb2b74e190f7821016c"

theorem smallCert_agrees :
    (parseCertificate python smallDigest (smallCert 0x06)).ended =
      .ok (smallRecord (smallDigest (smallCert 0x06))) ∧
    ReadersAgree (smallCert 0x06) (smallRecord (smallDigest (smallCert 0x06))) := by
  have htag : (0x06 : UInt8).toNat % 0x20 ≠ 0x1F := by decide
  have hparsed := smallCert_parsed smallDigest htag
  refine ⟨hparsed, (readers_agree_iff hparsed).mpr ?_⟩
  exact ⟨_, smallCert_keyObject htag, rfl⟩

/-- The digest of the other one. -/
def mistaggedDigest (_ : Bytes) : String :=
  "6ba2a0596e83a783d35b0a38c8293a5b6e04f5146841e83bf419cf8812ab1cfe"

/-- **A key algorithm that is tagged as an octet string: `parse_certificate` returns a record, and
`cert_algorithm_oids` raises.** -/
theorem mistagged_disagree :
    (parseCertificate python mistaggedDigest (smallCert 0x04)).ended =
      .ok (smallRecord (mistaggedDigest (smallCert 0x04))) ∧
    ¬ ReadersAgree (smallCert 0x04) (smallRecord (mistaggedDigest (smallCert 0x04))) := by
  have htag : (0x04 : UInt8).toNat % 0x20 ≠ 0x1F := by decide
  have hparsed := smallCert_parsed mistaggedDigest htag
  refine ⟨hparsed, ?_⟩
  rw [readers_agree_iff hparsed]
  rintro ⟨object, hobject, hoid⟩
  rw [smallCert_keyObject htag] at hobject
  rw [← Except.ok.inj hobject] at hoid
  cases hoid

end PqcReadiness.Certs
