import PqcReadiness.Lib.Matching

/-!
# Group lists of the host

The crypto policy's OpenSSL back-end (`parse_opensslcnf_backend`), what it says about the key
exchange (`_pqc_enabled`), and the default groups of `detect_openssl_config`.

A text is its list of characters.
-/

namespace PqcReadiness.Config

open PqcReadiness.Lib

/-- A text. -/
abbrev Chars := List Char

/-! ## Names -/

/-- `_PQC_KEM_TOKEN_RE`. -/
def pqcKemTokenRe : Regex :=
  .alts [.seqs [.itext "ml", .opt (.one fun c => c = '-' || c = '_'), .itext "kem"],
    .itext "kyber", .itext "sntrup", .itext "frodo", .itext "hqc"]

/-- `_PQC_SIG_TOKEN_RE`. -/
def pqcSigTokenRe : Regex :=
  .alts [.seqs [.itext "ml", .opt (.one fun c => c = '-' || c = '_'), .itext "dsa"],
    .seqs [.itext "slh", .opt (.one fun c => c = '-' || c = '_'), .itext "dsa"],
    .itext "sphincs", .itext "falcon",
    .seqs [.itext "fn", .opt (.one fun c => c = '-' || c = '_'), .itext "dsa"]]

/-- `_CLASSICAL_TOKEN_RE`. -/
def classicalTokenRe : Regex :=
  .alts [.itext "x25519", .itext "x448", .seq (.itext "secp") .digits,
    .seqs [.itext "p", .one isDigit, .one isDigit, .one isDigit], .seq (.itext "nistp") .digits,
    .itext "ed25519", .itext "ed448", .itext "rsa", .itext "pss", .seq (.itext "bp") .digits,
    .itext "ecdsa"]

/-- Names by category. -/
structure PqcNames where
  hybrid : List Chars
  purePqc : List Chars
  deriving DecidableEq

/-- `bool(names["hybrid"] or names["pure_pqc"])`. -/
def PqcNames.reported (names : PqcNames) : Bool :=
  !names.hybrid.isEmpty || !names.purePqc.isEmpty

/-- `_classify_pqc`. -/
def classifyPqc (names : List Chars) (tokenRe : Regex) : PqcNames :=
  let pqc := names.filter tokenRe.searchChars
  ⟨pqc.filter classicalTokenRe.searchChars, pqc.filter fun name => !classicalTokenRe.searchChars name⟩

theorem reported_classifyPqc (names : List Chars) (tokenRe : Regex) :
    (classifyPqc names tokenRe).reported = true ↔
      ∃ name ∈ names, tokenRe.searchChars name = true := by
  rw [PqcNames.reported, Bool.or_eq_true, Bool.not_eq_true', Bool.not_eq_true',
    List.isEmpty_eq_false_iff_exists_mem, List.isEmpty_eq_false_iff_exists_mem]
  constructor
  · rintro (⟨name, hname⟩ | ⟨name, hname⟩)
    · exact ⟨name, List.mem_filter.mp (List.mem_filter.mp hname).1⟩
    · exact ⟨name, List.mem_filter.mp (List.mem_filter.mp hname).1⟩
  · rintro ⟨name, hmem, hpqc⟩
    have hname : name ∈ names.filter tokenRe.searchChars := List.mem_filter.mpr ⟨hmem, hpqc⟩
    by_cases hclassical : classicalTokenRe.searchChars name = true
    · exact Or.inl ⟨name, List.mem_filter.mpr ⟨hname, hclassical⟩⟩
    · exact Or.inr ⟨name, List.mem_filter.mpr ⟨hname, by simpa using hclassical⟩⟩

/-! ## The back-end -/

/-- The markers of `lstrip("*?")`. -/
def isMark (c : Char) : Bool := c = '*' || c = '?'

/-- `_split_tokens`. -/
def splitTokens (value seps : Chars) : List Chars :=
  ((splitWhere (fun c => seps.contains c) value).map fun tok =>
    stripChars ((stripChars tok).dropWhile isMark)).filter (· ≠ [])

/-- The settings that are read. -/
inductive PolicyKey where
  | groups
  | signatureAlgorithms
  deriving DecidableEq

/-- `\s*=\s*(.*)$`. -/
def afterEquals (s : Chars) : Option Chars :=
  match s.dropWhile isSpace with
  | '=' :: value => some (value.dropWhile isSpace)
  | _ => none

/-- `re.match(r"\s*(Groups|SignatureAlgorithms)\s*=\s*(.*)$", line)` of one line. -/
def matchSetting (line : Chars) : Option (PolicyKey × Chars) :=
  let s := line.dropWhile isSpace
  if "Groups".toList.isPrefixOf s then
    (afterEquals (s.drop "Groups".length)).map (PolicyKey.groups, ·)
  else if "SignatureAlgorithms".toList.isPrefixOf s then
    (afterEquals (s.drop "SignatureAlgorithms".length)).map (PolicyKey.signatureAlgorithms, ·)
  else none

/-- What `parse_opensslcnf_backend` returns. -/
structure OpensslBackend where
  groups : List Chars
  pqcGroups : PqcNames
  signatureAlgorithms : List Chars
  pqcSignatureAlgorithms : PqcNames

/-- One line of the back-end. -/
def readSetting (lists : List Chars × List Chars) (line : Chars) : List Chars × List Chars :=
  match matchSetting line with
  | none => lists
  | some (.groups, value) => (lists.1 ++ splitTokens value [':', '/'], lists.2)
  | some (.signatureAlgorithms, value) => (lists.1, lists.2 ++ splitTokens value [':', '/'])

/-- `parse_opensslcnf_backend`. -/
def parseOpensslcnfBackend (text : Chars) : OpensslBackend :=
  let (groups, sigalgs) := (splitLinesChars text).foldl readSetting ([], [])
  ⟨groups, classifyPqc groups pqcKemTokenRe, sigalgs, classifyPqc sigalgs pqcSigTokenRe⟩

/-- `_pqc_enabled`, for `tls_key_exchange`; none is a back-end that is missing or unreadable. -/
def tlsKeyExchange (backend : Option OpensslBackend) : Option Bool :=
  backend.map fun ssl => ssl.pqcGroups.reported

/-! ## The defaults of OpenSSL -/

/-- `OPENSSL_35_DEFAULT_GROUPS`. -/
def openssl35DefaultGroups : List Chars :=
  ["X25519MLKEM768".toList, "X25519".toList, "secp256r1".toList, "X448".toList,
    "secp384r1".toList, "secp521r1".toList, "ffdhe2048".toList, "ffdhe3072".toList]

/-- `":".join(names)`. -/
def joinColon : List Chars → Chars
  | [] => []
  | [name] => name
  | name :: rest => name ++ ':' :: joinColon rest

/-- `default_groups` of `detect_openssl_config`, by the configured groups (none where there are
none) and whether OpenSSL is at least 3.5. -/
def defaultGroups (configured : List Chars) (builtin : Bool) : List Chars :=
  if configured ≠ [] then configured else if builtin then openssl35DefaultGroups else []

/-- `pqc_key_exchange_by_default`. -/
def pqcKeyExchangeByDefault (configured : List Chars) (builtin : Bool) : Bool :=
  (parseOpensslcnfBackend
    ("Groups = ".toList ++ joinColon (defaultGroups configured builtin))).pqcGroups.reported

end PqcReadiness.Config
