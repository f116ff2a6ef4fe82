import PqcReadiness.Lib.Bytes
import PqcReadiness.Lib.Codec
import PqcReadiness.Lib.Convert
import PqcReadiness.Lib.Generator
import Mathlib.Data.Nat.Size

/-!
# X.509 certificates

The DER readers of `certs.py`: elements, object identifiers, names, times, keys and
extensions, and the two functions that read a whole certificate, `certAlgorithmOids` and
`parseCertificate`.

Two conversions of the Python library can fail on text that the readers hand to them: `str`
of an integer with very many digits, and `int` of the year of a `UTCTime`.  The readers take
them as an argument (`Conversions`) and log what they convert (`Conversion`).  `python` has
them as the program calls them.
-/

namespace PqcReadiness.Certs

open PqcReadiness.Lib PqcReadiness.Lib.Bytes

/-- What a reader can raise: `DERError`, another `ValueError`, `IndexError`. -/
inductive Fault where
  | der (message : String)
  | valueError
  | indexError
  deriving DecidableEq

/-- `DERError`. -/
def Fault.IsDerError : Fault → Prop
  | .der _ => True
  | .valueError => False
  | .indexError => False

/-! ## Conversions -/

/-- Something a reader converts: the arcs of an object identifier to text, or the year of a
`UTCTime` to a number. -/
inductive Conversion where
  | oid (arcs : List ℕ)
  | year (text : List Char)

/-- The conversions of the Python library. -/
structure Conversions where
  oid : List ℕ → Except Fault String
  year : List Char → Except Fault ℤ

/-- `".".join(str(a) for a in arcs)`. -/
def dotted (arcs : List ℕ) : String := join "." (arcs.map toString)

/-- Whether the conversion succeeds. -/
def Conversion.Converts : Conversion → Prop
  | .oid arcs => ∀ arc ∈ arcs, arc < 10 ^ intMaxStrDigits
  | .year text => (intOfChars text).isSome

/-- The conversions as the program calls them. -/
def python : Conversions where
  oid arcs :=
    if ∀ arc ∈ arcs, arc < 10 ^ intMaxStrDigits then .ok (dotted arcs) else .error .valueError
  year text :=
    match intOfChars text with
    | some year => .ok year
    | none => .error .valueError

/-- A reader that logs what it converts. -/
abbrev Reader := Gen Fault Conversion

/-! ## Elements -/

/-- `buf[pos]`. -/
def byteAt (buf : Bytes) (pos : ℕ) : Except Fault ℕ :=
  match buf[pos]? with
  | some byte => .ok byte.toNat
  | none => .error .indexError

/-- The tag of an element and where its value starts and ends. -/
structure Tlv where
  tag : ℕ
  start : ℕ
  stop : ℕ

/-- The element whose value starts at `start`. -/
def elementAt (tag start length stop : ℕ) : Except Fault Tlv := do
  raiseIf (stop < start + length) (.der "element runs past its container")
  return ⟨tag, start, start + length⟩

/-- `_der_tlv`. -/
def derTlv (buf : Bytes) (pos stop : ℕ) : Except Fault Tlv := do
  raiseIf (stop < pos + 2) (.der "truncated TLV header")
  let tag ← byteAt buf pos
  raiseIf (tag % 0x20 = 0x1F) (.der "high-tag-number form not used in certificates")
  let first ← byteAt buf (pos + 1)
  if first < 0x80 then
    elementAt tag (pos + 2) first stop
  else
    let n := first % 0x80
    raiseIf (n = 0 ∨ 4 < n) (.der "indefinite or oversized length")
    raiseIf (stop < pos + 2 + n) (.der "truncated length")
    elementAt tag (pos + 2 + n) (toNat .big (slice buf (pos + 2) (pos + 2 + n))) stop

/-- The value of an element. -/
def valueOf (buf : Bytes) (element : Tlv) : Bytes := slice buf element.start element.stop

/-- An element that is read ends behind the position where it starts. -/
theorem derTlv_advances {buf : Bytes} {pos stop : ℕ} {element : Tlv}
    (hread : derTlv buf pos stop = .ok element) :
    pos < element.start ∧ element.start ≤ element.stop ∧ element.stop ≤ stop := by
  have helement : ∀ {tag start length : ℕ}, elementAt tag start length stop = .ok element →
      element.start = start ∧ element.start ≤ element.stop ∧ element.stop ≤ stop := by
    intro tag start length helement
    obtain ⟨_, hinside, helement⟩ := except_bind_ok.mp helement
    obtain rfl := Except.ok.inj helement
    have hinside := raiseIf_ok.mp hinside
    exact ⟨rfl, Nat.le_add_right _ _, Nat.le_of_not_lt hinside⟩
  obtain ⟨_, _, hread⟩ := except_bind_ok.mp hread
  obtain ⟨_, _, hread⟩ := except_bind_ok.mp hread
  obtain ⟨_, _, hread⟩ := except_bind_ok.mp hread
  obtain ⟨_, _, hread⟩ := except_bind_ok.mp hread
  split at hread
  · have hbounds := helement hread
    omega
  · obtain ⟨_, _, hread⟩ := except_bind_ok.mp hread
    obtain ⟨_, _, hread⟩ := except_bind_ok.mp hread
    have hbounds := helement hread
    omega

/-- `while pos < stop:` with a body that reads the element at `pos`, uses it, and goes on
behind it. -/
def elements {σ : Type} (buf : Bytes) (stop : ℕ) (use : Tlv → σ → Reader σ) :
    Scan Fault Conversion σ where
  body pos state := do
    let element ← derTlv buf pos stop
    let after ← use element state
    return (element.stop, after)
  advances := by
    intro pos next state after hended
    obtain ⟨element, hread, hended⟩ := Gen.bind_ended_ok.mp hended
    obtain ⟨used, _, hended⟩ := Gen.bind_ended_ok.mp hended
    obtain ⟨rfl, rfl⟩ := Prod.mk.inj (Except.ok.inj hended)
    have hbounds := derTlv_advances hread
    omega

/-- The loop over the elements from `start` to `stop`. -/
def readElements {σ : Type} (buf : Bytes) (start stop : ℕ) (use : Tlv → σ → Reader σ)
    (state : σ) : Reader σ :=
  (elements buf stop use).run stop start state

/-! ## Object identifiers -/

/-- The arcs behind the first byte, with those before them and the bits of the next one. -/
def oidArcs (arcs : List ℕ) (bits : ℕ) : Bytes → List ℕ
  | [] => arcs
  | byte :: rest =>
      let next := bits * 128 + byte.toNat % 128
      if byte.toNat < 0x80 then oidArcs (arcs ++ [next]) 0 rest else oidArcs arcs next rest

/-- Convert, and log it. -/
def convertOid (conv : Conversions) (arcs : List ℕ) : Reader String := do
  Gen.yield (.oid arcs)
  conv.oid arcs

/-- `_der_oid`. -/
def derOid (conv : Conversions) (value : Bytes) : Reader String := do
  raiseIf (value = [] ∨ 0x80 ≤ (value.getLastD 0).toNat)
    (Fault.der "empty or unterminated OID")
  let first ← byteAt value 0
  raiseIf (0x80 ≤ first) (Fault.der "multi-byte first OID arc not supported")
  let top := min (first / 40) 2
  convertOid conv (oidArcs [top, first - 40 * top] 0 (value.drop 1))

/-- `_der_algorithm_oid`. -/
def derAlgorithmOid (conv : Conversions) (buf : Bytes) (pos stop : ℕ) : Reader (String × ℕ) := do
  let algorithm ← derTlv buf pos stop
  raiseIf (algorithm.tag ≠ 0x30) (Fault.der "AlgorithmIdentifier is not a SEQUENCE")
  let object ← derTlv buf algorithm.start algorithm.stop
  raiseIf (object.tag ≠ 0x06) (Fault.der "AlgorithmIdentifier does not start with an OID")
  let oid ← derOid conv (valueOf buf object)
  return (oid, algorithm.stop)

/-- Where the serial number starts, behind the optional version. -/
def afterVersion (der : Bytes) (pos stop : ℕ) : Except Fault ℕ :=
  if pos < stop then do
    let tag ← byteAt der pos
    if tag = 0xA0 then
      let version ← derTlv der pos stop
      return version.stop
    else return pos
  else return pos

/-- The `tbsCertificate` element. -/
def tbsCertificate (der : Bytes) : Except Fault Tlv := do
  let certificate ← derTlv der 0 der.length
  raiseIf (certificate.tag ≠ 0x30) (.der "Certificate is not a SEQUENCE")
  let tbs ← derTlv der certificate.start certificate.stop
  raiseIf (tbs.tag ≠ 0x30) (.der "tbsCertificate is not a SEQUENCE")
  return tbs

/-- `cert_algorithm_oids`. -/
def certAlgorithmOids (conv : Conversions) (der : Bytes) : Reader (List String) := do
  let tbs ← tbsCertificate der
  let pos ← afterVersion der tbs.start tbs.stop
  let serialNumber ← derTlv der pos tbs.stop
  let (sigOid, pos) ← derAlgorithmOid conv der serialNumber.stop tbs.stop
  let issuer ← derTlv der pos tbs.stop
  let validity ← derTlv der issuer.stop tbs.stop
  let subject ← derTlv der validity.stop tbs.stop
  let spki ← derTlv der subject.stop tbs.stop
  raiseIf (spki.tag ≠ 0x30) (Fault.der "subjectPublicKeyInfo is not a SEQUENCE")
  let (spkiOid, _) ← derAlgorithmOid conv der spki.start spki.stop
  return [sigOid, spkiOid]

/-! ## Names -/

/-- `_NAME_ATTRS`. -/
def nameAttrs : List (String × String) :=
  [("2.5.4.3", "CN"), ("2.5.4.5", "serialNumber"), ("2.5.4.6", "C"), ("2.5.4.7", "L"),
    ("2.5.4.8", "ST"), ("2.5.4.10", "O"), ("2.5.4.11", "OU"),
    ("1.2.840.113549.1.9.1", "emailAddress"), ("0.9.2342.19200300.100.1.25", "DC"),
    ("0.9.2342.19200300.100.1.1", "UID")]

/-- `value.hex()`. -/
def hex (value : Bytes) : String := String.join (value.map fun byte => hexByte byte.toNat)

/-- `_der_string`, with the encodings of `_STRING_TAGS`. -/
def derString (tag : ℕ) (value : Bytes) : List Char :=
  if tag = 0x0C then replaceUtf8From .start value
  else if tag = 0x13 ∨ tag = 0x16 then replaceAscii value
  else if tag = 0x14 then replaceLatin1 value
  else if tag = 0x1E then replaceUtf16be value
  else if tag = 0x1C then replaceUtf32be value
  else (hex value).toList

/-- `_rfc4514_escape`. -/
def rfc4514Escape (text : List Char) : String :=
  String.ofList (text.zipIdx.flatMap fun (c, index) =>
    if c ∈ [',', '+', '"', '\\', '<', '>', ';', '='] ∨ (c = '#' ∧ index = 0) ∨
        (c = ' ' ∧ (index = 0 ∨ index = text.length - 1)) then
      ['\\', c]
    else [c])

/-- The text of one attribute of a name. -/
def attributeText (conv : Conversions) (buf : Bytes) (pair : Tlv) : Reader String := do
  raiseIf (pair.tag ≠ 0x30) (Fault.der "AttributeTypeAndValue is not a SEQUENCE")
  let type ← derTlv buf pair.start pair.stop
  raiseIf (type.tag ≠ 0x06) (Fault.der "attribute type is not an OID")
  let oid ← derOid conv (valueOf buf type)
  let value ← derTlv buf type.stop pair.stop
  return (find oid nameAttrs).getD oid ++ "=" ++
    rfc4514Escape (derString value.tag (valueOf buf value))

/-- The text of one RDN. -/
def rdnText (conv : Conversions) (buf : Bytes) (rdn : Tlv) : Reader String := do
  raiseIf (rdn.tag ≠ 0x31) (Fault.der "RDN is not a SET")
  let parts ← readElements buf rdn.start rdn.stop
    (fun pair parts => do
      let part ← attributeText conv buf pair
      return parts ++ [part]) []
  return join "+" parts

/-- `_der_name`. -/
def derName (conv : Conversions) (buf : Bytes) (start stop : ℕ) : Reader String := do
  let rdns ← readElements buf start stop
    (fun rdn rdns => do
      let text ← rdnText conv buf rdn
      return rdns ++ [text]) []
  return join "," rdns.reverse

/-! ## Times -/

/-- Convert, and log it. -/
def convertYear (conv : Conversions) (text : List Char) : Reader ℤ := do
  Gen.yield (.year text)
  conv.year text

/-- The time of a text of the form `YYYYMMDDHHMMSSZ`. -/
def isoTime (text : List Char) : Except Fault String :=
  match strptime (text.take 14) with
  | some time => .ok time.isoformat
  | none => .error (.der ("bad certificate time " ++ reprText text))

/-- `_der_time`. -/
def derTime (conv : Conversions) (tag : ℕ) (value : Bytes) : Reader String := do
  let text := replaceAscii value
  raiseIf (text.getLast? ≠ some 'Z') (Fault.der "certificate time is not in UTC (Z) form")
  if tag = 0x17 then
    let yy ← convertYear conv (text.take 2)
    isoTime ((if 50 ≤ yy then ['1', '9'] else ['2', '0']) ++ text)
  else
    raiseIf (tag ≠ 0x18) (Fault.der "validity time has an unknown tag")
    isoTime text

/-! ## Keys -/

/-- `_SPKI_ALGORITHMS`. -/
def spkiAlgorithms : List (String × (String × Option ℕ)) :=
  [("1.2.840.113549.1.1.1", ("RSA", none)), ("1.2.840.113549.1.1.10", ("RSASSA-PSS", none)),
    ("1.2.840.10045.2.1", ("EC", none)), ("1.2.840.10040.4.1", ("DSA", none)),
    ("1.3.101.110", ("X25519", some 255)), ("1.3.101.111", ("X448", some 448)),
    ("1.3.101.112", ("Ed25519", some 255)), ("1.3.101.113", ("Ed448", some 448)),
    ("2.16.840.1.101.3.4.3.17", ("ML-DSA-44", none)),
    ("2.16.840.1.101.3.4.3.18", ("ML-DSA-65", none)),
    ("2.16.840.1.101.3.4.3.19", ("ML-DSA-87", none)),
    ("2.16.840.1.101.3.4.3.20", ("SLH-DSA-SHA2-128s", none)),
    ("2.16.840.1.101.3.4.3.21", ("SLH-DSA-SHA2-128f", none)),
    ("2.16.840.1.101.3.4.3.22", ("SLH-DSA-SHA2-192s", none)),
    ("2.16.840.1.101.3.4.3.23", ("SLH-DSA-SHA2-192f", none)),
    ("2.16.840.1.101.3.4.3.24", ("SLH-DSA-SHA2-256s", none)),
    ("2.16.840.1.101.3.4.3.25", ("SLH-DSA-SHA2-256f", none)),
    ("2.16.840.1.101.3.4.3.26", ("SLH-DSA-SHAKE-128s", none)),
    ("2.16.840.1.101.3.4.3.27", ("SLH-DSA-SHAKE-128f", none)),
    ("2.16.840.1.101.3.4.3.28", ("SLH-DSA-SHAKE-192s", none)),
    ("2.16.840.1.101.3.4.3.29", ("SLH-DSA-SHAKE-192f", none)),
    ("2.16.840.1.101.3.4.3.30", ("SLH-DSA-SHAKE-256s", none)),
    ("2.16.840.1.101.3.4.3.31", ("SLH-DSA-SHAKE-256f", none)),
    ("2.16.840.1.101.3.4.4.1", ("ML-KEM-512", none)),
    ("2.16.840.1.101.3.4.4.2", ("ML-KEM-768", none)),
    ("2.16.840.1.101.3.4.4.3", ("ML-KEM-1024", none))]

/-- `_EC_CURVES`. -/
def ecCurves : List (String × (String × ℕ)) :=
  [("1.2.840.10045.3.1.7", ("P-256", 256)), ("1.3.132.0.34", ("P-384", 384)),
    ("1.3.132.0.35", ("P-521", 521)), ("1.3.132.0.10", ("secp256k1", 256)),
    ("1.3.36.3.3.2.8.1.1.7", ("brainpoolP256r1", 256)),
    ("1.3.36.3.3.2.8.1.1.11", ("brainpoolP384r1", 384)),
    ("1.3.36.3.3.2.8.1.1.13", ("brainpoolP512r1", 512))]

/-- `_der_int_bits`. -/
def derIntBits (value : Bytes) : ℕ := Nat.size (toNat .big value)

/-- An algorithm identifier, its name and the size of the key. -/
structure SpkiKey where
  oid : String
  name : String
  size : Option ℕ

/-- The size of an RSA key: the bits of the modulus. -/
def rsaKeySize (buf : Bytes) (pos stop : ℕ) (size : Option ℕ) : Except Fault (Option ℕ) := do
  let bits ← derTlv buf pos stop
  if bits.tag = 0x03 ∧ bits.start < bits.stop then
    let key ← derTlv buf (bits.start + 1) bits.stop
    if key.tag = 0x30 then
      let modulus ← derTlv buf key.start key.stop
      if modulus.tag = 0x02 then
        return some (derIntBits (valueOf buf modulus))
      else return size
    else return size
  else return size

/-- The name and size of an EC key, if its parameter names a curve. -/
def ecKey (conv : Conversions) (buf : Bytes) (oid : String) (pos stop : ℕ) (name : String)
    (size : Option ℕ) : Reader SpkiKey := do
  let parameter ← derTlv buf pos stop
  if parameter.tag = 0x06 then
    let curve ← derOid conv (valueOf buf parameter)
    match find curve ecCurves with
    | some (curveName, bits) => return ⟨oid, "EC " ++ curveName, some bits⟩
    | none => return ⟨oid, "EC " ++ curve, none⟩
  else return ⟨oid, name, size⟩

/-- `_spki_key`. -/
def spkiKey (conv : Conversions) (buf : Bytes) (start stop : ℕ) : Reader SpkiKey := do
  let algorithm ← derTlv buf start stop
  raiseIf (algorithm.tag ≠ 0x30) (Fault.der "SPKI algorithm is not a SEQUENCE")
  let object ← derTlv buf algorithm.start algorithm.stop
  let oid ← derOid conv (valueOf buf object)
  let known := (find oid spkiAlgorithms).getD (oid, none)
  if oid = "1.2.840.10045.2.1" ∧ object.stop < algorithm.stop then
    ecKey conv buf oid object.stop algorithm.stop known.1 known.2
  else if known.1 = "RSA" ∨ known.1 = "RSASSA-PSS" then
    let size ← rsaKeySize buf algorithm.stop stop known.2
    return ⟨oid, known.1, size⟩
  else return ⟨oid, known.1, known.2⟩

/-! ## Extensions -/

/-- `_OID_BASIC_CONSTRAINTS`. -/
def oidBasicConstraints : String := "2.5.29.19"

/-- The value of an extension behind its object identifier and criticality. -/
def extensionElement (buf : Bytes) (pos stop : ℕ) : Except Fault Tlv := do
  let next ← derTlv buf pos stop
  if next.tag = 0x01 then derTlv buf next.stop stop else return next

/-- One extension of the loop of `_extensions`. -/
def addExtension (conv : Conversions) (buf : Bytes) (extension : Tlv) (out : Dict String Bytes) :
    Reader (Dict String Bytes) := do
  let object ← derTlv buf extension.start extension.stop
  let oid ← derOid conv (valueOf buf object)
  let value ← extensionElement buf object.stop extension.stop
  if value.tag = 0x04 then return out.update oid fun _ => valueOf buf value else return out

/-- `_extensions`. -/
def extensions (conv : Conversions) (buf : Bytes) (start stop : ℕ) :
    Reader (Dict String Bytes) := do
  let sequence ← derTlv buf start stop
  raiseIf (sequence.tag ≠ 0x30) (Fault.der "Extensions is not a SEQUENCE")
  readElements buf sequence.start sequence.stop (addExtension conv buf) .empty

/-- `_is_ca`, on the value of the basic constraints. -/
def basicConstraintsCa (bc : Bytes) : Except Fault Bool := do
  let sequence ← derTlv bc 0 bc.length
  if sequence.tag ≠ 0x30 ∨ sequence.stop ≤ sequence.start then
    return false
  else
    let flag ← derTlv bc sequence.start sequence.stop
    if flag.tag = 0x01 ∧ flag.start < flag.stop then
      let value ← byteAt bc flag.start
      return value ≠ 0
    else return false

/-- `_is_ca`. -/
def isCa (exts : Dict String Bytes) : Except Fault Bool :=
  match exts.get? oidBasicConstraints with
  | none => .ok false
  | some [] => .ok false
  | some bc => basicConstraintsCa bc

/-! ## Certificates -/

/-- `PQC_OID_RE`. -/
def pqcOidRe : Regex :=
  Regex.seqs [Regex.text "2.16.840.1.101.3.4.3.",
    Regex.alts [Regex.seqs [Regex.text "1", Regex.one (among '7' '9')],
      Regex.seqs [Regex.text "2", Regex.one isDigit],
      Regex.seqs [Regex.text "3", Regex.one (among '0' '1')]]]

/-- A dot and digits. -/
def dottedArc : Regex := Regex.seqs [Regex.text ".", Regex.digits]

/-- `HYBRID_OID_RES`. -/
def hybridOidRes : List Regex :=
  [Regex.seqs [Regex.text "1.3.6.1.4.1.42235.1.7", Regex.plus dottedArc],
    Regex.seqs [Regex.text "1.3.9999", dottedArc, dottedArc, Regex.plus dottedArc]]

/-- `COMPOSITE_SIG_OID_RE`. -/
def compositeSigOidRe : Regex :=
  Regex.seqs [Regex.text "1.3.6.1.5.5.7.6.",
    Regex.alts [Regex.seqs [Regex.text "3", Regex.one (among '7' '9')],
      Regex.seqs [Regex.text "4", Regex.one isDigit],
      Regex.seqs [Regex.text "5", Regex.one (among '0' '4')]]]

/-- The categories of a certificate. -/
inductive Category where
  | classical
  | hybridComposite
  | purePqc
  deriving DecidableEq

/-- `categorise_cert_oids`. -/
def categoriseCertOids (oids : List String) : Category :=
  if oids.any compositeSigOidRe.fullMatch then .hybridComposite
  else if oids.any pqcOidRe.fullMatch then .purePqc
  else .classical

/-- What the certificate is used as. -/
inductive Role where
  | ca
  | leaf
  deriving DecidableEq

/-- What `parse_certificate` returns. -/
structure Certificate where
  sha256 : String
  serial : String
  subject : String
  issuer : String
  notBefore : String
  notAfter : String
  category : Category
  signatureAlgorithmOid : String
  keyAlgorithm : String
  keyAlgorithmOid : String
  keySize : Option ℕ
  isCa : Bool
  selfSigned : Bool
  role : Role

/-- An element of the given tag. -/
def derExpect (buf : Bytes) (pos stop tag : ℕ) (message : String) : Except Fault Tlv := do
  let element ← derTlv buf pos stop
  raiseIf (element.tag ≠ tag) (.der message)
  return element

/-- The issuer, or the subject, and where it ends. -/
def derParty (conv : Conversions) (der : Bytes) (pos stop : ℕ) (message : String) :
    Reader (String × ℕ) := do
  let party ← derExpect der pos stop 0x30 message
  let name ← derName conv der party.start party.stop
  return (name, party.stop)

/-- Both times of the validity. -/
def derValidity (conv : Conversions) (der : Bytes) (validity : Tlv) :
    Reader (String × String) := do
  let first ← derTlv der validity.start validity.stop
  let second ← derTlv der first.stop validity.stop
  let notBefore ← derTime conv first.tag (valueOf der first)
  let notAfter ← derTime conv second.tag (valueOf der second)
  return (notBefore, notAfter)

/-- One element behind the key: unique identifiers are skipped, extensions are read. -/
def trailingElement (conv : Conversions) (der : Bytes) (element : Tlv)
    (exts : Dict String Bytes) : Reader (Dict String Bytes) :=
  if element.tag = 0xA3 then extensions conv der element.start element.stop else return exts

/-- `parse_certificate`. -/
def parseCertificate (conv : Conversions) (sha256 : Bytes → String) (der : Bytes) :
    Reader Certificate := do
  let tbs ← tbsCertificate der
  let pos ← afterVersion der tbs.start tbs.stop
  let serial ← derExpect der pos tbs.stop 0x02 "serialNumber is not an INTEGER"
  let (sigOid, pos) ← derAlgorithmOid conv der serial.stop tbs.stop
  let (issuer, pos) ← derParty conv der pos tbs.stop "issuer is not a SEQUENCE"
  let validity ← derExpect der pos tbs.stop 0x30 "validity is not a SEQUENCE"
  let (notBefore, notAfter) ← derValidity conv der validity
  let (subject, pos) ← derParty conv der validity.stop tbs.stop "subject is not a SEQUENCE"
  let spki ← derExpect der pos tbs.stop 0x30 "subjectPublicKeyInfo is not a SEQUENCE"
  let key ← spkiKey conv der spki.start spki.stop
  let exts ← readElements der spki.stop tbs.stop (trailingElement conv der) .empty
  let ca ← isCa exts
  let selfSigned := subject = issuer
  -- A version 1 trust anchor has no basic constraints.
  let role := if ca ∨ (selfSigned ∧ (exts.get? oidBasicConstraints).isNone) then .ca else .leaf
  return ⟨sha256 der, hex (valueOf der serial), subject, issuer, notBefore, notAfter,
    categoriseCertOids [sigOid, key.oid], sigOid, key.name, key.oid, key.size, ca, selfSigned, role⟩

end PqcReadiness.Certs
