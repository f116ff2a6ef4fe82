import PqcReadiness.Observations.Record

/-!
# Classification of what was negotiated

`classify_observed` and the catalogues it reads: the TLS groups by name, alias
or codepoint, the SSH key exchange names and the IKEv2 key exchanges.
-/

namespace PqcReadiness.Observations

open Lib

/-- The class of an observed key exchange. -/
inductive ObservedClass where
  | purePqc
  | hybrid
  | classical
  | unknown
  deriving DecidableEq

/-- The name of a class in the output. -/
def ObservedClass.name : ObservedClass → String
  | purePqc => "pure_pqc"
  | hybrid => "hybrid"
  | classical => "classical"
  | unknown => "unknown"

/-! ## TLS groups -/

/-- The names and codepoints of `TLS_PQC_GROUPS`. -/
def tlsPqcGroups : List (String × ℕ) :=
  [("X25519MLKEM768", 0x11EC), ("SecP256r1MLKEM768", 0x11EB), ("SecP384r1MLKEM1024", 0x11ED),
    ("MLKEM512", 0x0200), ("MLKEM768", 0x0201), ("MLKEM1024", 0x0202),
    ("X25519Kyber768Draft00", 0x6399), ("SecP256r1Kyber768Draft00", 0x639A)]

/-- `_CLASSICAL_TLS_CODEPOINTS`. -/
def classicalTlsCodepoints : List (ℕ × String) :=
  [(0x0017, "secp256r1"), (0x0018, "secp384r1"), (0x0019, "secp521r1"), (0x001D, "x25519"),
    (0x001E, "x448"), (0x0100, "ffdhe2048"), (0x0101, "ffdhe3072"), (0x0102, "ffdhe4096"),
    (0x0103, "ffdhe6144"), (0x0104, "ffdhe8192")]

/-- `_CLASSICAL_TLS_ALIASES`. -/
def classicalTlsAliases : List (String × String) :=
  [("p256", "secp256r1"), ("p384", "secp384r1"), ("p521", "secp521r1"),
    ("prime256v1", "secp256r1")]

/-- The codepoint that a text gives as `0x` and at most four digits of base 16, or as
at most five decimal digits. -/
def codepoint (text : List Char) : Option ℕ :=
  let isDecimal := text ≠ [] ∧ text.length ≤ 5 ∧ text.all isDigit
  match text with
  | '0' :: x :: digits =>
      if (x = 'x' ∨ x = 'X') ∧ digits ≠ [] ∧ digits.length ≤ 4 ∧ digits.all isHex then
        some (hexadecimal digits)
      else if isDecimal then some (decimal text) else none
  | _ => if isDecimal then some (decimal text) else none

/-- `_tls_canonical`. -/
def tlsCanonical (chars : CharData) (name : String) : String :=
  let text := strip name
  match codepoint text.toList with
  | some cp =>
      match tlsPqcGroups.find? fun group => group.2 = cp with
      | some group => group.1
      | none => (find cp classicalTlsCodepoints).getD text
  | none =>
      let squashed := chars.lower (String.ofList (text.toList.filter fun c =>
        c ≠ '-' && c ≠ '_' && c ≠ ' '))
      match tlsPqcGroups.find? fun group => chars.lower group.1 = squashed with
      | some group => group.1
      | none => (find squashed classicalTlsAliases).getD text

/-- `_PURE_PQC_TLS_GROUP_RE`. -/
def purePqcTlsGroup : Regex := .seq (.text "MLKEM") .digits

/-- `_HYBRID_TLS_GROUP_RE`. -/
def hybridTlsGroup : Regex :=
  .alt
    (.seqs [.text "X", .alt (.text "25519") (.text "448"), .text "MLKEM", .digits])
    (.seqs [.text "SecP", .digits, .text "r1MLKEM", .digits])

/-- `_CLASSICAL_TLS_GROUP_RE`. -/
def classicalTlsGroup (chars : CharData) : Regex :=
  .alts
    [.seqs [.itext "secp", .digits, .alt (.itext "k") (.itext "r"), .digits],
      .seqs [.itext "prime", .digits, .itext "v", .digits],
      .itext "x25519", .itext "x448",
      .seqs [.itext "ffdhe", .digits],
      .seqs [.itext "brainpoolp", .digits, .itext "r", .digits, .opt (.itext "tls13")],
      .seqs [.itext "sect", .digits, .plus (.one chars.isWord)]]

/-- The bucket of `classify_tls_groups` that a single name lands in. -/
def classifyTlsGroup (chars : CharData) (name : String) : ObservedClass :=
  if hybridTlsGroup.matchLine name then .hybrid
  else if purePqcTlsGroup.matchLine name then .purePqc
  else if (classicalTlsGroup chars).matchLine name then .classical
  else .unknown

/-! ## SSH key exchanges -/

/-- `_PQC_SSH_TOKEN_RE`. -/
def pqcSshToken : Regex :=
  .alts [.seq (.itext "mlkem") .digits, .seq (.itext "kyber") .digits,
    .seq (.itext "sntrup") .digits]

/-- `_CLASSICAL_SSH_TOKEN_RE`. -/
def classicalSshToken : Regex :=
  .alts [.seq (.itext "nistp") .digits, .itext "x25519", .itext "x448",
    .seqs [.itext "secp", .digits, .itext "r1"]]

/-- `_CLASSICAL_SSH_KEX_RE`. -/
def classicalSshKex : Regex :=
  .alts
    [.seqs [.itext "diffie-hellman-group", .alt .digits (.itext "-exchange"), .itext "-sha",
        .digits],
      .seqs [.itext "ecdh-sha2-nistp", .digits],
      .seqs [.itext "curve", .alt (.text "25519") (.text "448"), .itext "-sha", .digits,
        .opt (.seq (.text "@") (.plus (.one fun c => !isSpace c)))]]

/-- The bucket of `classify_ssh_kex` that a single name lands in. -/
def classifySshKex (name : String) : ObservedClass :=
  if pqcSshToken.search name then
    if classicalSshToken.search name then .hybrid else .purePqc
  else if classicalSshKex.matchLine name then .classical
  else .unknown

/-! ## IKEv2 key exchanges -/

/-- `_IKE_PQC_RE`. -/
def ikePqc : Regex := .seqs [.itext "ml", .opt (.text "-"), .itext "kem"]

/-- `_IKE_CLASSICAL_RE`. -/
def ikeClassical : Regex :=
  .alts
    [.seq (.itext "modp") .digits, .seq (.itext "ecp") .digits,
      .seq (.itext "curve") (.alt (.text "25519") (.text "448")),
      .seq (.itext "x") (.alt (.text "25519") (.text "448")),
      .seq (.alt (.itext "dh") (.itext "group")) .digits,
      .seqs [.itext "brainpool", .digits, .opt (.itext "r"), .star (.one isDigit)]]

/-- The class of the key exchanges of one IKEv2 negotiation. -/
def classifyIke (names : List String) : ObservedClass :=
  if names.any ikePqc.search && names.any ikeClassical.matchLine then .hybrid
  else if names.any ikePqc.search then .purePqc
  else if names.any ikeClassical.matchLine then .classical
  else .unknown

/-- `classify_observed`: the canonical name and the class. -/
def classifyObserved (chars : CharData) (protocol : Protocol) (negotiatedGroup : String)
    (additionalKeyExchanges : List String) : Option String × ObservedClass :=
  match protocol with
  | .ikev2 =>
      let names := (negotiatedGroup :: additionalKeyExchanges).filter (· ≠ "")
      (if names ≠ [] then some (join "+" names) else none, classifyIke names)
  | _ =>
      if negotiatedGroup = "" then (none, .unknown)
      else if protocol = .ssh then (some negotiatedGroup, classifySshKex negotiatedGroup)
      else
        let canonical := tlsCanonical chars negotiatedGroup
        (some canonical, classifyTlsGroup chars canonical)

end PqcReadiness.Observations
