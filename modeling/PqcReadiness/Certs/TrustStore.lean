import PqcReadiness.Certs.Conversions

/-!
# The trust store

`scan_trust_store` collects the certificates of PEM and DER files, classifies each by its
algorithm identifiers and counts the categories.

The files come as a list, in the order in which `_trust_store_candidates` finds them; a file
that cannot be read, or is too large, has no content.  `sha256` is `hashlib.sha256(...)
.hexdigest()`, of which nothing is used.

## Strategy

The loop over the certificates ends early only if a reader raises something else than
`DERError`.  Which certificates make it do that is `certAlgorithmOids_failsOnly_iff` and
`parseCertificate_failsOnly_iff`; the counters of the loop go along with the certificates
that are accepted (`Counts`).
-/

namespace PqcReadiness.Certs

open PqcReadiness.Lib PqcReadiness.Lib.Bytes

/-! ## Files -/

/-- The two spellings of a boundary line. -/
def boundaries (word : String) : List Bytes :=
  [encodeAscii ("-----" ++ word ++ " TRUSTED CERTIFICATE-----"),
    encodeAscii ("-----" ++ word ++ " CERTIFICATE-----")]

/-- What follows one of the texts at the start of the data. -/
def afterFirst (texts : List Bytes) (data : Bytes) : Option Bytes :=
  texts.findSome? fun text => if text.isPrefixOf data then some (data.drop text.length) else none

/-- The data up to the first end of a block, and what follows it. -/
def untilEnd : Bytes → Option (Bytes × Bytes)
  | [] => none
  | byte :: rest =>
      match afterFirst (boundaries "END") (byte :: rest) with
      | some after => some ([], after)
      | none => (untilEnd rest).map fun (body, after) => (byte :: body, after)

/-- `_PEM_CERT_RE.findall(data)`.  Every turn drops a byte at least, so that as many turns as
bytes are enough. -/
def pemBlocks : ℕ → Bytes → List Bytes
  | 0, _ => []
  | _ + 1, [] => []
  | turns + 1, byte :: rest =>
      match (afterFirst (boundaries "BEGIN") (byte :: rest)).bind untilEnd with
      | some (body, after) => body :: pemBlocks turns after
      | none => pemBlocks turns rest

/-- The value of a base 64 digit. -/
def base64Value (byte : UInt8) : Option ℕ :=
  let n := byte.toNat
  if 65 ≤ n ∧ n ≤ 90 then some (n - 65)
  else if 97 ≤ n ∧ n ≤ 122 then some (n - 71)
  else if 48 ≤ n ∧ n ≤ 57 then some (n + 4)
  else if n = 43 then some 62
  else if n = 47 then some 63
  else none

/-- Groups of four base 64 digits; the last one may be padded, and padding that nothing needs
is skipped. -/
def base64Groups : Bytes → Option Bytes
  | a :: b :: c :: d :: rest =>
      if (a :: b :: c :: d :: rest).all (· = 61) then some []
      else
        match base64Value a, base64Value b, base64Value c, base64Value d with
        | some va, some vb, some vc, some vd =>
            let bits := ((va * 64 + vb) * 64 + vc) * 64 + vd
            (base64Groups rest).map fun tail =>
              UInt8.ofNat (bits / 65536) :: UInt8.ofNat (bits / 256) :: UInt8.ofNat bits :: tail
        | some va, some vb, some vc, none =>
            let bits := (va * 64 + vb) * 64 + vc
            if d = 61 ∧ rest = [] then some [UInt8.ofNat (bits / 1024), UInt8.ofNat (bits / 4)]
            else none
        | some va, some vb, none, none =>
            if c = 61 ∧ d = 61 ∧ rest = [] then some [UInt8.ofNat ((va * 64 + vb) / 16)] else none
        | _, _, _, _ => none
  | short => if short.all (· = 61) then some [] else none

/-- `base64.b64decode(data, validate=True)`; none is `binascii.Error`. -/
def b64decode (data : Bytes) : Option Bytes :=
  if data.head? = some 61 then none else base64Groups data

/-- `TRUST_STORE_MAX_FILE_BYTES`. -/
def trustStoreMaxFileBytes : ℕ := 64 * 1024 * 1024

/-- The certificate element alone, without the trust settings behind it; an undecodable block
is kept as it is. -/
def certificateElement (der : Bytes) : Except Fault Bytes :=
  match derTlv der 0 der.length with
  | .ok element => .ok (der.take element.stop)
  | .error (.der _) => .ok der
  | .error fault => .error fault

/-- `bytes.split()` and `b"".join`: the data without ASCII whitespace. -/
def withoutSpace (body : Bytes) : Bytes :=
  body.filter fun byte => ¬ (byte = 32 ∨ (9 ≤ byte.toNat ∧ byte.toNat ≤ 13))

/-- The DER bytes of one PEM block; an undecodable one is skipped. -/
def blockCert (out : List Bytes) (body : Bytes) : Except Fault (List Bytes) :=
  match b64decode (withoutSpace body) with
  | none => .ok out
  | some der => do
      let element ← certificateElement der
      return out ++ [element]

/-- `_certs_in_file`, of a file that can be read or not. -/
def certsInFile (file : Option Bytes) : Except Fault (List Bytes) :=
  match file with
  | none => .ok []
  | some data =>
      if trustStoreMaxFileBytes < data.length then .ok []
      else
        let blocks := pemBlocks data.length data
        if blocks = [] then .ok (if data.head? = some 0x30 then [data] else [])
        else blocks.foldlM blockCert []

/-! ## The scan -/

/-- The counters and the certificates of the loop. -/
structure Scanned where
  total : ℕ
  pqcCerts : ℕ
  hybridCerts : ℕ
  classical : ℕ
  hybridComposite : ℕ
  purePqc : ℕ
  certificates : List Certificate

/-- Nothing scanned yet. -/
def Scanned.none : Scanned := ⟨0, 0, 0, 0, 0, 0, []⟩

/-- `cert_categories[category] += 1`. -/
def Scanned.addCategory (scanned : Scanned) : Category → Scanned
  | .classical => { scanned with classical := scanned.classical + 1 }
  | .hybridComposite => { scanned with hybridComposite := scanned.hybridComposite + 1 }
  | .purePqc => { scanned with purePqc := scanned.purePqc + 1 }

/-- The counters after a certificate with these algorithm identifiers. -/
def Scanned.count (scanned : Scanned) (oids : List String) : Scanned :=
  { scanned with
    total := scanned.total + 1
    pqcCerts := scanned.pqcCerts + if oids.any pqcOidRe.fullMatch then 1 else 0
    hybridCerts := scanned.hybridCerts +
      if hybridOidRes.any (fun re => oids.any re.fullMatch) then 1 else 0 }.addCategory
    (categoriseCertOids oids)

/-- The loop body of `scan_trust_store`. -/
def scanCertificate (sha256 : Bytes → String) (scanned : Scanned) (der : Bytes) :
    Except Fault Scanned :=
  match (certAlgorithmOids python der).ended with
  | .error (.der _) => .ok scanned
  | .error fault => .error fault
  | .ok oids =>
      match (parseCertificate python sha256 der).ended with
      | .ok certificate =>
          .ok ({ scanned with certificates := scanned.certificates ++ [certificate] }.count oids)
      | .error (.der _) => .ok (scanned.count oids)
      | .error fault => .error fault

/-- The result of `scan_trust_store`. -/
structure TrustStore where
  totalCerts : ℕ
  pqcCerts : ℕ
  hybridCerts : ℕ
  classical : ℕ
  hybridComposite : ℕ
  purePqc : ℕ
  totalFound : ℕ
  scannedCount : ℕ
  maxCerts : ℕ
  truncated : Bool
  certificates : List Certificate

/-- The unique certificates of the files. -/
def uniqueCerts (sha256 : Bytes → String) (files : List (Option Bytes)) :
    Except Fault (Dict String Bytes) :=
  files.foldlM (fun unique file => do
    let ders ← certsInFile file
    return ders.foldl (fun unique der => unique.update (sha256 der) fun old => old.getD der)
      unique) .empty

/-- `scan_trust_store`. -/
def scanTrustStore (sha256 : Bytes → String) (files : List (Option Bytes)) (maxCerts : ℕ) :
    Except Fault TrustStore := do
  raiseIf (maxCerts < 1) Fault.valueError
  let unique ← uniqueCerts sha256 files
  let toScan := unique.values.take maxCerts
  let scanned ← toScan.foldlM (scanCertificate sha256) .none
  return {
    totalCerts := scanned.total
    pqcCerts := scanned.pqcCerts
    hybridCerts := scanned.hybridCerts
    classical := scanned.classical
    hybridComposite := scanned.hybridComposite
    purePqc := scanned.purePqc
    totalFound := unique.values.length
    scannedCount := toScan.length
    maxCerts := maxCerts
    truncated := maxCerts < unique.values.length
    certificates := scanned.certificates }

/-! ## Which certificates stop the scan -/

/-- Everything that a walk comes to converts. -/
def AllConvert {ρ : Type} (walk : Reader ρ) : Prop :=
  ∀ conversion ∈ walk.log, conversion.Converts

/-- Whether `cert_algorithm_oids` returns. -/
def accepts (der : Bytes) : Bool :=
  match (certAlgorithmOids python der).ended with
  | .ok _ => true
  | .error _ => false

/-- A certificate that the scan gets past. -/
structure Scannable (sha256 : Bytes → String) (der : Bytes) : Prop where
  oids : AllConvert (certAlgorithmOids intended der)
  fields : accepts der → AllConvert (parseCertificate intended sha256 der)

theorem valueError_not_derError : ∀ fault, fault = .valueError → ¬ Fault.IsDerError fault := by
  intro fault hfault hder
  rw [hfault] at hder
  exact hder

theorem certAlgorithmOids_failsOnly_iff (der : Bytes) :
    FailsOnly Fault.IsDerError (certAlgorithmOids python der).ended ↔
      AllConvert (certAlgorithmOids intended der) :=
  (follows_certAlgorithmOids der).failsOnly_iff valueError_not_derError

theorem parseCertificate_failsOnly_iff (sha256 : Bytes → String) (der : Bytes) :
    FailsOnly Fault.IsDerError (parseCertificate python sha256 der).ended ↔
      AllConvert (parseCertificate intended sha256 der) :=
  (follows_parseCertificate sha256 der).failsOnly_iff valueError_not_derError

theorem scannable_iff (sha256 : Bytes → String) (der : Bytes) :
    Scannable sha256 der ↔
      FailsOnly Fault.IsDerError (certAlgorithmOids python der).ended ∧
        (accepts der → FailsOnly Fault.IsDerError (parseCertificate python sha256 der).ended) := by
  constructor
  · intro ⟨hoids, hfields⟩
    exact ⟨(certAlgorithmOids_failsOnly_iff der).mpr hoids,
      fun haccepts => (parseCertificate_failsOnly_iff sha256 der).mpr (hfields haccepts)⟩
  · intro ⟨hoids, hfields⟩
    exact ⟨(certAlgorithmOids_failsOnly_iff der).mp hoids,
      fun haccepts => (parseCertificate_failsOnly_iff sha256 der).mp (hfields haccepts)⟩

/-- The counters of a scan that got through certificates. -/
structure Counts (scanned : Scanned) (accepted : ℕ) : Prop where
  total : scanned.total = accepted
  categories : scanned.classical + scanned.hybridComposite + scanned.purePqc = accepted

section Loop

variable {sha256 : Bytes → String} {scanned : Scanned} {accepted : ℕ} {der : Bytes}

theorem Counts.count (hcounts : Counts scanned accepted) (oids : List String) :
    Counts (scanned.count oids) (accepted + 1) := by
  obtain ⟨htotal, hcategories⟩ := hcounts
  unfold Scanned.count
  cases categoriseCertOids oids with
  | classical => exact ⟨congrArg (· + 1) htotal, by simp only [Scanned.addCategory]; omega⟩
  | hybridComposite => exact ⟨congrArg (· + 1) htotal, by simp only [Scanned.addCategory]; omega⟩
  | purePqc => exact ⟨congrArg (· + 1) htotal, by simp only [Scanned.addCategory]; omega⟩

/-- One certificate: the scan goes on exactly if it is scannable, and counts it if it is
accepted. -/
theorem scanCertificate_spec (sha256 : Bytes → String) (scanned : Scanned) (der : Bytes) :
    (¬ Scannable sha256 der ∧ ∃ fault, scanCertificate sha256 scanned der = .error fault) ∨
      (Scannable sha256 der ∧ ∃ after, scanCertificate sha256 scanned der = .ok after ∧
        ∀ accepted, Counts scanned accepted →
          Counts after (accepted + if accepts der then 1 else 0)) := by
  rw [scannable_iff]
  cases hoids : (certAlgorithmOids python der).ended with
  | error fault =>
      have hrejects : accepts der = false := by simp [accepts, hoids]
      cases fault with
      | der message =>
          refine Or.inr ⟨⟨FailsOnly.error.mpr trivial, by simp [hrejects]⟩, scanned, ?_, ?_⟩
          · simp [scanCertificate, hoids]
          · intro accepted hcounts
            simpa [hrejects] using hcounts
      | valueError =>
          refine Or.inl ⟨fun hscannable => FailsOnly.error.mp hscannable.1, .valueError, ?_⟩
          simp [scanCertificate, hoids]
      | indexError =>
          refine Or.inl ⟨fun hscannable => FailsOnly.error.mp hscannable.1, .indexError, ?_⟩
          simp [scanCertificate, hoids]
  | ok oids =>
      have haccepts : accepts der = true := by simp [accepts, hoids]
      have hcount : ∀ {extended : Scanned} {accepted : ℕ}, Counts extended accepted →
          Counts (extended.count oids) (accepted + if accepts der then 1 else 0) := by
        intro extended accepted hcounts
        rw [if_pos haccepts]
        exact hcounts.count oids
      cases hparse : (parseCertificate python sha256 der).ended with
      | ok certificate =>
          refine Or.inr ⟨⟨FailsOnly.ok _, fun _ => FailsOnly.ok _⟩,
            { scanned with certificates := scanned.certificates ++ [certificate] }.count oids,
            ?_, ?_⟩
          · simp [scanCertificate, hoids, hparse]
          · intro accepted hcounts
            have hextended : Counts
                { scanned with certificates := scanned.certificates ++ [certificate] } accepted :=
              ⟨hcounts.total, hcounts.categories⟩
            exact hcount hextended
      | error fault =>
          cases fault with
          | der message =>
              refine Or.inr ⟨⟨FailsOnly.ok _, fun _ => FailsOnly.error.mpr trivial⟩,
                scanned.count oids, ?_, fun accepted hcounts => hcount hcounts⟩
              simp [scanCertificate, hoids, hparse]
          | valueError =>
              refine Or.inl ⟨fun hscannable => FailsOnly.error.mp (hscannable.2 haccepts),
                .valueError, ?_⟩
              simp [scanCertificate, hoids, hparse]
          | indexError =>
              refine Or.inl ⟨fun hscannable => FailsOnly.error.mp (hscannable.2 haccepts),
                .indexError, ?_⟩
              simp [scanCertificate, hoids, hparse]

/-- The loop over the certificates. -/
theorem scanLoop_spec (sha256 : Bytes → String) (ders : List Bytes) (scanned : Scanned) :
    ((¬ ∀ der ∈ ders, Scannable sha256 der) ∧
        ∃ fault, ders.foldlM (scanCertificate sha256) scanned = .error fault) ∨
      ((∀ der ∈ ders, Scannable sha256 der) ∧
        ∃ after, ders.foldlM (scanCertificate sha256) scanned = .ok after ∧
          ∀ accepted, Counts scanned accepted → Counts after (accepted + ders.countP accepts)) := by
  induction ders generalizing scanned with
  | nil => exact Or.inr ⟨by simp, scanned, rfl, fun accepted hcounts => hcounts⟩
  | cons der rest ih =>
      rw [List.foldlM_cons, List.forall_mem_cons]
      rcases scanCertificate_spec sha256 scanned der with
        ⟨hnot, fault, hfault⟩ | ⟨hscannable, next, hnext, hcounts⟩
      · rw [hfault, error_bind]
        exact Or.inl ⟨fun hall => hnot hall.1, fault, rfl⟩
      · rw [hnext, ok_bind]
        rcases ih next with ⟨hnot, hfault⟩ | ⟨hall, after, hafter, hrest⟩
        · exact Or.inl ⟨fun hboth => hnot hboth.2, hfault⟩
        · refine Or.inr ⟨⟨hscannable, hall⟩, after, hafter, ?_⟩
          intro accepted hbefore
          rw [List.countP_cons, Nat.add_comm (rest.countP accepts), ← Nat.add_assoc]
          exact hrest _ (hcounts accepted hbefore)

end Loop

/-! ## Collecting the certificates -/

theorem certificateElement_ok (der : Bytes) : ∃ element, certificateElement der = .ok element := by
  unfold certificateElement
  cases hread : derTlv der 0 der.length with
  | ok element => exact ⟨_, rfl⟩
  | error fault =>
      have hder := failsOnly_derTlv 0 le_rfl fault hread
      cases fault with
      | der message => exact ⟨_, rfl⟩
      | valueError => exact hder.elim
      | indexError => exact hder.elim

theorem certsInFile_ok (file : Option Bytes) : ∃ ders, certsInFile file = .ok ders := by
  have hblocks : ∀ (blocks : List Bytes) (out : List Bytes),
      ∃ ders, blocks.foldlM blockCert out = .ok ders := by
    intro blocks
    induction blocks with
    | nil => exact fun out => ⟨out, rfl⟩
    | cons body rest ih =>
        intro out
        rw [List.foldlM_cons, blockCert]
        cases b64decode (withoutSpace body) with
        | none => exact ih out
        | some der =>
            obtain ⟨element, helement⟩ := certificateElement_ok der
            dsimp only
            rw [helement]
            exact ih (out ++ [element])
  unfold certsInFile
  cases file with
  | none => exact ⟨[], rfl⟩
  | some data =>
      dsimp only
      split
      · exact ⟨[], rfl⟩
      · split
        · exact ⟨_, rfl⟩
        · exact hblocks _ []

theorem uniqueCerts_ok (sha256 : Bytes → String) (files : List (Option Bytes)) :
    ∃ unique, uniqueCerts sha256 files = .ok unique := by
  unfold uniqueCerts
  generalize Dict.empty = start
  induction files generalizing start with
  | nil => exact ⟨start, rfl⟩
  | cons file rest ih =>
      obtain ⟨ders, hders⟩ := certsInFile_ok file
      rw [List.foldlM_cons, hders]
      exact ih _

/-- The unique certificates that the scan classifies. -/
def scannedBlobs (sha256 : Bytes → String) (files : List (Option Bytes)) (maxCerts : ℕ) :
    List Bytes :=
  match uniqueCerts sha256 files with
  | .ok unique => unique.values.take maxCerts
  | .error _ => []

/-- What is promised of a scan: it returns, and its total is the sum of its categories and the
number of certificates whose algorithm identifiers can be read. -/
def ScanReturns (sha256 : Bytes → String) (files : List (Option Bytes)) (maxCerts : ℕ) : Prop :=
  ∃ store, scanTrustStore sha256 files maxCerts = .ok store ∧
    store.totalCerts = store.classical + store.hybridComposite + store.purePqc ∧
    store.totalCerts = (scannedBlobs sha256 files maxCerts).countP accepts

theorem scanReturns_iff (sha256 : Bytes → String) (files : List (Option Bytes)) {maxCerts : ℕ}
    (hmax : 0 < maxCerts) :
    ScanReturns sha256 files maxCerts ↔
      ∀ der ∈ scannedBlobs sha256 files maxCerts, Scannable sha256 der := by
  obtain ⟨unique, hunique⟩ := uniqueCerts_ok sha256 files
  have hblobs : scannedBlobs sha256 files maxCerts = unique.values.take maxCerts := by
    rw [scannedBlobs, hunique]
  have hguard : ¬ maxCerts < 1 := by omega
  have hstart : Counts Scanned.none 0 := ⟨rfl, rfl⟩
  unfold ScanReturns
  rw [hblobs, scanTrustStore, raiseIf_of_not hguard, ok_bind, hunique, ok_bind]
  rcases scanLoop_spec sha256 (unique.values.take maxCerts) .none with
    ⟨hnot, fault, hfault⟩ | ⟨hall, after, hafter, hcounts⟩
  · refine iff_of_false ?_ hnot
    intro ⟨store, hstore, _⟩
    dsimp only at hstore
    rw [hfault] at hstore
    cases hstore
  · refine iff_of_true ?_ hall
    have hfinal := hcounts 0 hstart
    rw [Nat.zero_add] at hfinal
    dsimp only
    rw [hafter, ok_bind]
    exact ⟨_, rfl, hfinal.total.trans hfinal.categories.symm, hfinal.total⟩

/-- **Both readers raise nothing but `DERError`, and the scan returns with the right total,
exactly if every object identifier and every year of a `UTCTime` that they come to can be
converted.** -/
theorem certificates_readable_iff (sha256 : Bytes → String) (der : Bytes)
    (files : List (Option Bytes)) {maxCerts : ℕ} (hmax : 0 < maxCerts) :
    (FailsOnly Fault.IsDerError (certAlgorithmOids python der).ended ↔
      AllConvert (certAlgorithmOids intended der)) ∧
    (FailsOnly Fault.IsDerError (parseCertificate python sha256 der).ended ↔
      AllConvert (parseCertificate intended sha256 der)) ∧
    (ScanReturns sha256 files maxCerts ↔
      ∀ der ∈ scannedBlobs sha256 files maxCerts, Scannable sha256 der) :=
  ⟨certAlgorithmOids_failsOnly_iff der, parseCertificate_failsOnly_iff sha256 der,
    scanReturns_iff sha256 files hmax⟩

theorem allConvert_oneTwo {der : Bytes}
    (hlog : (certAlgorithmOids intended der).log = [.oid [1, 2], .oid [1, 2]]) :
    AllConvert (certAlgorithmOids intended der) := by
  rw [AllConvert, hlog]
  intro conversion hmem
  simp only [List.mem_cons, List.not_mem_nil, or_false, or_self] at hmem
  rw [hmem]
  exact converts_oneTwo

/-- A certificate whose serial number has the wrong tag: its algorithm identifiers are read, and
`parse_certificate` raises `DERError`. -/
def oddSerialCert : Bytes :=
  [0x30, 0x16, 0x30, 0x14, 0x04, 0x00, 0x30, 0x03, 0x06, 0x01, 0x2A, 0x30, 0x00, 0x30, 0x00,
    0x30, 0x00, 0x30, 0x05, 0x30, 0x03, 0x06, 0x01, 0x2A]

/-- Its digest. -/
def oddSerialDigest (_ : Bytes) : String :=
  "1671422e666f05fce59bd617e32ae103e8f1a7a37d0f4a2afbbfd7474d42f402"

theorem oddSerialCert_scanned :
    0 < 1 ∧ ScanReturns oddSerialDigest [some oddSerialCert] 1 := by
  have hblobs : scannedBlobs oddSerialDigest [some oddSerialCert] 1 = [oddSerialCert] := by
    decide +kernel
  have hreadable :=
    certificates_readable_iff oddSerialDigest oddSerialCert [some oddSerialCert] Nat.one_pos
  refine ⟨Nat.one_pos, hreadable.2.2.mpr ?_⟩
  rw [hblobs]
  intro der hder
  obtain rfl := List.mem_singleton.mp hder
  refine ⟨allConvert_oneTwo rfl, ?_⟩
  intro _ conversion hmem
  have hfields : (parseCertificate intended oddSerialDigest oddSerialCert).log = [] := rfl
  rw [hfields] at hmem
  cases hmem

/-- A certificate whose validity starts at `XX0101000000Z`. -/
def badYearCert : Bytes :=
  [0x30, 0x35, 0x30, 0x33, 0x02, 0x01, 0x01, 0x30, 0x03, 0x06, 0x01, 0x2A, 0x30, 0x00,
    0x30, 0x1E, 0x17, 0x0D] ++ encodeAscii "XX0101000000Z" ++ [0x17, 0x0D] ++ encodeAscii "300101000000Z" ++
  [0x30, 0x00, 0x30, 0x05, 0x30, 0x03, 0x06, 0x01, 0x2A]

/-- The walk through `badYearCert` comes to its year. -/
theorem badYearCert_log (sha256 : Bytes → String) :
    Conversion.year ['X', 'X'] ∈ (parseCertificate intended sha256 badYearCert).log := by
  have hexpect : derExpect badYearCert 12 55 0x30 "issuer is not a SEQUENCE" =
      .ok ⟨0x30, 14, 14⟩ := rfl
  -- The issuer is empty, so that the loop of `_der_name` does not start.
  have hname : derName intended badYearCert 14 14 = ⟨[], .ok ""⟩ := by
    rw [derName, readElements, Scan.run_of_ge (Nat.lt_irrefl 14)]
    rfl
  have hissuer : (derParty intended badYearCert 12 55 "issuer is not a SEQUENCE").ended =
      .ok ("", 14) := by
    rw [derParty, Gen.lift_bind_ok hexpect, hname]
    rfl
  have hyear : Conversion.year ['X', 'X'] ∈ (derValidity intended badYearCert ⟨0x30, 16, 46⟩).log :=
    List.mem_singleton.mpr rfl
  refine Gen.mem_bind_log.mpr (Or.inr ⟨⟨0x30, 4, 55⟩, rfl, ?_⟩)
  refine Gen.mem_bind_log.mpr (Or.inr ⟨4, rfl, ?_⟩)
  refine Gen.mem_bind_log.mpr (Or.inr ⟨⟨0x02, 6, 7⟩, rfl, ?_⟩)
  refine Gen.mem_bind_log.mpr (Or.inr ⟨("1.2", 12), rfl, ?_⟩)
  refine Gen.mem_bind_log.mpr (Or.inr ⟨("", 14), hissuer, ?_⟩)
  refine Gen.mem_bind_log.mpr (Or.inr ⟨⟨0x30, 16, 46⟩, rfl, ?_⟩)
  exact Gen.mem_bind_log.mpr (Or.inl hyear)

/-- The year is converted outside the `try`, and the whole scan ends with `ValueError`. -/
theorem badYearCert_fault (sha256 : Bytes → String) :
    (parseCertificate python sha256 badYearCert).ended = .error .valueError ∧
      scanTrustStore sha256 [some badYearCert] 1 = .error .valueError := by
  have hyear : ¬ (Conversion.year ['X', 'X']).Converts := by
    rw [Conversion.Converts]
    decide
  obtain ⟨fault, hparse, rfl⟩ := (follows_parseCertificate sha256 badYearCert).stops
    ⟨.year ['X', 'X'], badYearCert_log sha256, hyear⟩
  have hoids : (certAlgorithmOids python badYearCert).ended = .ok ["1.2", "1.2"] := by
    rw [(follows_certAlgorithmOids badYearCert).same (allConvert_oneTwo rfl)]
    rfl
  have hscan : scanCertificate sha256 .none badYearCert = .error .valueError := by
    simp [scanCertificate, hoids, hparse]
  have hunique : uniqueCerts sha256 [some badYearCert] =
      .ok (Dict.empty.update (sha256 badYearCert) fun old => old.getD badYearCert) := rfl
  have htake : (Dict.empty.update (sha256 badYearCert) fun old =>
      old.getD badYearCert).values.take 1 = [badYearCert] := rfl
  refine ⟨hparse, ?_⟩
  rw [scanTrustStore, raiseIf_of_not (by decide), ok_bind, hunique, ok_bind]
  dsimp only
  rw [htake, List.foldlM_cons, hscan]
  rfl

/-- The digest of `badYearCert`. -/
def badYearDigest (_ : Bytes) : String :=
  "2658c93acaf416d5d26d8b07ff8aa1c9b6c5892091408df626b1bdf4cf2c30c2"

/-- **One bad year stops the scan of a trust store.** -/
theorem badYearCert_stops :
    (parseCertificate python badYearDigest badYearCert).ended = .error .valueError ∧
      scanTrustStore badYearDigest [some badYearCert] 1 = .error .valueError :=
  badYearCert_fault badYearDigest

end PqcReadiness.Certs
