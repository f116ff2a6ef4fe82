import PqcReadiness.Lib.Asn1
import PqcReadiness.Certs.Der

/-!
# Certificates and their encoding

`AbstractCertificate` is a certificate in its own terms: what RFC 5280 calls its fields, with
every part that a reader of the program skips kept as bytes.  `encode` is its distinguished
encoding.
-/

namespace PqcReadiness.Certs

open PqcReadiness.Lib PqcReadiness.Lib.Bytes PqcReadiness.Lib.Asn1

/-! ## Parts -/

/-- The text of an object identifier. -/
def oidText (oid : Oid) : String := dotted oid.arcs

/-- The element of an object identifier. -/
def encodeOid (oid : Oid) : Bytes := element 0x06 oid.content

/-- Any element with a one-byte tag. -/
structure AnyElement where
  tag : UInt8
  content : Bytes
  lowTag : tag.toNat % 0x20 ≠ 0x1F

/-- Its encoding. -/
def AnyElement.encode (any : AnyElement) : Bytes := element any.tag any.content

/-- An attribute of a name. -/
structure Attribute where
  type : Oid
  value : AnyElement

/-- Its encoding. -/
def Attribute.encode (attr : Attribute) : Bytes :=
  element 0x30 (encodeOid attr.type ++ attr.value.encode)

/-- A relative distinguished name. -/
abbrev Rdn := List Attribute

/-- The encoding of a relative distinguished name. -/
def encodeRdn (rdn : Rdn) : Bytes := element 0x31 (rdn.flatMap Attribute.encode)

/-- The encoding of a name. -/
def encodeName (name : List Rdn) : Bytes := element 0x30 (name.flatMap encodeRdn)

/-- The signature algorithm with its parameters. -/
structure SignatureAlgorithm where
  oid : Oid
  parameters : Bytes

/-- Its encoding. -/
def SignatureAlgorithm.encode (algorithm : SignatureAlgorithm) : Bytes :=
  element 0x30 (encodeOid algorithm.oid ++ algorithm.parameters)

/-! ## Times -/

/-- A date and time of the calendar, of a year with four digits. -/
structure Instant where
  time : BrokenDownTime
  year : 1 ≤ time.year ∧ time.year ≤ 9999
  month : 1 ≤ time.month ∧ time.month ≤ 12
  day : 1 ≤ time.day ∧ time.day ≤ daysInMonth time.year time.month
  hour : time.hour ≤ 23
  minute : time.minute ≤ 59
  second : time.second ≤ 59

/-- A digit. -/
def digitChar (n : ℕ) : Char := Char.ofNat (48 + n % 10)

/-- A number in two digits. -/
def twoDigits (n : ℕ) : List Char := [digitChar (n / 10), digitChar n]

/-- Everything behind the year. -/
def BrokenDownTime.rest (time : BrokenDownTime) : List Char :=
  twoDigits time.month ++ twoDigits time.day ++ twoDigits time.hour ++ twoDigits time.minute ++
    twoDigits time.second

/-- The two forms of a time. -/
inductive CertTime where
  /-- A `UTCTime`, for the years that it can write. -/
  | utc (instant : Instant) (years : 1950 ≤ instant.time.year ∧ instant.time.year ≤ 2049)
  | generalized (instant : Instant)

/-- The instant. -/
def CertTime.instant : CertTime → Instant
  | .utc instant _ => instant
  | .generalized instant => instant

/-- The characters of a time. -/
def CertTime.text : CertTime → List Char
  | .utc instant _ =>
      twoDigits (instant.time.year % 100) ++ BrokenDownTime.rest instant.time ++ ['Z']
  | .generalized instant =>
      twoDigits (instant.time.year / 100) ++ twoDigits (instant.time.year % 100) ++
        BrokenDownTime.rest instant.time ++ ['Z']

/-- The tag of a time. -/
def CertTime.tag : CertTime → UInt8
  | .utc _ _ => 0x17
  | .generalized _ => 0x18

/-- Its encoding. -/
def CertTime.encode (time : CertTime) : Bytes :=
  element time.tag (time.text.map fun c => UInt8.ofNat c.toNat)

/-! ## Keys -/

/-- The parameters of an EC key. -/
inductive EcParameters where
  | absent
  | namedCurve (curve : Oid)
  | explicit (parameters : AnyElement) (notOid : parameters.tag ≠ 0x06)

/-- Their encoding. -/
def EcParameters.encode : EcParameters → Bytes
  | .absent => []
  | .namedCurve curve => encodeOid curve
  | .explicit parameters _ => parameters.encode

/-- The object identifier of EC keys. -/
def oidEc : Oid := ⟨1, 2, [840, 10045, 2, 1], by decide, by decide, by decide⟩

/-- The object identifiers of RSA keys. -/
def oidRsa (pss : Bool) : Oid :=
  ⟨1, 2, [840, 113549, 1, 1, if pss then 10 else 1], by decide, by decide, by decide⟩

/-- A public key with its algorithm. -/
inductive PublicKey where
  /-- An RSA key; the public exponent and what follows it are bytes. -/
  | rsa (pss : Bool) (parameters : Bytes) (modulus : ℕ) (exponent : Bytes)
  | ec (parameters : EcParameters) (point : Bytes)
  | other (oid : Oid) (parameters key : Bytes)
      (notEc : oidText oid ≠ oidText oidEc) (notRsa : ∀ pss, oidText oid ≠ oidText (oidRsa pss))

/-- The algorithm. -/
def PublicKey.oid : PublicKey → Oid
  | .rsa pss _ _ _ => oidRsa pss
  | .ec _ _ => oidEc
  | .other oid _ _ _ _ => oid

/-- The parameters of the algorithm. -/
def PublicKey.parameters : PublicKey → Bytes
  | .rsa _ parameters _ _ => parameters
  | .ec parameters _ => parameters.encode
  | .other _ parameters _ _ _ => parameters

/-- The contents of the bit string; no bits are unused. -/
def PublicKey.bits : PublicKey → Bytes
  | .rsa _ _ modulus exponent => 0x00 :: element 0x30 (element 0x02 (integer modulus) ++ exponent)
  | .ec _ point => 0x00 :: point
  | .other _ _ key _ _ => 0x00 :: key

/-- Its encoding. -/
def PublicKey.encode (key : PublicKey) : Bytes :=
  element 0x30 (element 0x30 (encodeOid key.oid ++ key.parameters) ++ element 0x03 key.bits)

/-! ## Extensions -/

/-- The contents of the basic constraints. -/
structure BasicConstraints where
  ca : Bool
  pathLen : Option Bytes

/-- Their encoding. -/
def BasicConstraints.encode (constraints : BasicConstraints) : Bytes :=
  element 0x30 ((if constraints.ca then element 0x01 [0xFF] else []) ++
    (match constraints.pathLen with
      | none => []
      | some length => element 0x02 length))

/-- The object identifier of the basic constraints. -/
def oidOfBasicConstraints : Oid := ⟨2, 5, [29, 19], by decide, by decide, by decide⟩

/-- What an extension says. -/
inductive ExtensionValue where
  | basicConstraints (constraints : BasicConstraints)
  | other (oid : Oid) (value : Bytes) (different : oidText oid ≠ oidBasicConstraints)

/-- An extension. -/
structure Extension where
  critical : Bool
  value : ExtensionValue

/-- Its object identifier. -/
def Extension.oid (extension : Extension) : Oid :=
  match extension.value with
  | .basicConstraints _ => oidOfBasicConstraints
  | .other oid _ _ => oid

/-- The contents of its octet string. -/
def Extension.octets (extension : Extension) : Bytes :=
  match extension.value with
  | .basicConstraints constraints => constraints.encode
  | .other _ value _ => value

/-- Its encoding. -/
def Extension.encode (extension : Extension) : Bytes :=
  element 0x30 (encodeOid extension.oid ++
    (if extension.critical then element 0x01 [0xFF] else []) ++ element 0x04 extension.octets)

/-- Does the extension say that the subject is a CA? -/
def Extension.saysCa (extension : Extension) : Bool :=
  match extension.value with
  | .basicConstraints constraints => constraints.ca
  | .other _ _ _ => false

/-- Is it a basic constraints extension? -/
def Extension.isBasicConstraints (extension : Extension) : Bool :=
  match extension.value with
  | .basicConstraints _ => true
  | .other _ _ _ => false

/-! ## Certificates -/

/-- A certificate. -/
structure AbstractCertificate where
  version : Option Bytes
  serial : Bytes
  signatureAlgorithm : SignatureAlgorithm
  issuer : List Rdn
  notBefore : CertTime
  notAfter : CertTime
  subject : List Rdn
  publicKey : PublicKey
  issuerUniqueId : Option Bytes
  subjectUniqueId : Option Bytes
  extensions : Option (List Extension)
  signature : Bytes

/-- An optional element of the given tag. -/
def encodeOptional (tag : UInt8) : Option Bytes → Bytes
  | none => []
  | some content => element tag content

namespace AbstractCertificate

variable (cert : AbstractCertificate)

/-- The extensions, if there are any. -/
def extensionList : List Extension := cert.extensions.getD []

/-- What follows the key. -/
def encodeTrailing : Bytes :=
  encodeOptional 0x81 cert.issuerUniqueId ++ encodeOptional 0x82 cert.subjectUniqueId ++
    encodeOptional 0xA3 (cert.extensions.map fun extensions =>
      element 0x30 (extensions.flatMap Extension.encode))

/-- The version. -/
def encodeVersion : Bytes :=
  encodeOptional 0xA0 (cert.version.map fun version => element 0x02 version)

/-- The validity. -/
def encodeValidity : Bytes := element 0x30 (cert.notBefore.encode ++ cert.notAfter.encode)

/-- The contents of `tbsCertificate`. -/
def tbs : Bytes :=
  cert.encodeVersion ++ (element 0x02 cert.serial ++ (cert.signatureAlgorithm.encode ++
    (encodeName cert.issuer ++ (cert.encodeValidity ++ (encodeName cert.subject ++
      (cert.publicKey.encode ++ cert.encodeTrailing))))))

/-- The contents of the certificate. -/
def content : Bytes :=
  element 0x30 cert.tbs ++ (cert.signatureAlgorithm.encode ++ element 0x03 (0x00 :: cert.signature))

/-- The certificate. -/
def encode : Bytes := element 0x30 cert.content

end AbstractCertificate

end PqcReadiness.Certs
