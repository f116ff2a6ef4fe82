import PqcReadiness.Certs.Der
import PqcReadiness.Lib.Cursor

/-!
# Java keystores

`_parse_jks_certificates` and `_read_keystore`.  A stored keystore of version 2 comes back with all
its certificates in order and its number of private keys (`parseJksCertificates_stored`), and any
other bytes are read or are a `DERError`.

Both versions are accepted, but there is one reader for them, which skips the type of a certificate
also in version 1, where there is none.  `parseJksCertificates_version_one` says what becomes of the
first certificate then.
-/

namespace PqcReadiness.Certs

open PqcReadiness.Lib
open Bytes (At)

/-! ## The parser -/

/-- `_JKS_MAGIC`. -/
def jksMagic : ℕ := 0xFEEDFEED

/-- `_JCEKS_MAGIC`. -/
def jceksMagic : ℕ := 0xCECECECE

/-- The bound on the number of entries. -/
def maxJksEntries : ℕ := 100000

section Parser

variable (data : Bytes)

/-- `u32`. -/
def u32 (pos : ℕ) : Except Fault (ℕ × ℕ) := do
  raiseIf (data.length < pos + 4) (.der "truncated JKS")
  return (Bytes.field .big 4 data pos, pos + 4)

/-- `skip_utf`. -/
def skipUtf (pos : ℕ) : Except Fault ℕ := do
  raiseIf (data.length < pos + 2) (.der "truncated JKS string")
  return pos + 2 + Bytes.field .big 2 data pos

/-- `blob`. -/
def blob (pos : ℕ) : Except Fault (Bytes × ℕ) := do
  let (n, pos) ← u32 data pos
  raiseIf (data.length < pos + n) (.der "JKS entry runs past the file")
  return (Bytes.slice data pos (pos + n), pos + n)

/-- A certificate behind its type. -/
def jksCertificate (pos : ℕ) : Except Fault (Bytes × ℕ) := do
  let pos ← skipUtf data pos
  blob data pos

/-- The certificates of a chain. -/
def jksChain : ℕ → ℕ → Except Fault (List Bytes × ℕ)
  | 0, pos => .ok ([], pos)
  | count + 1, pos => do
      let (cert, pos) ← jksCertificate data pos
      let (certs, pos) ← jksChain count pos
      return (cert :: certs, pos)

/-- What an entry adds to the certificates and to the number of private keys. -/
structure JksFound where
  certs : List Bytes
  privateEntries : ℕ
  deriving DecidableEq

/-- Both together. -/
def JksFound.add (first second : JksFound) : JksFound :=
  ⟨first.certs ++ second.certs, first.privateEntries + second.privateEntries⟩

/-- An entry behind its tag, its alias and its timestamp. -/
def jksContents (tag pos : ℕ) : Except Fault (JksFound × ℕ) :=
  if tag = 1 then do
    let (n, pos) ← u32 data pos
    -- The key is skipped; that it ends inside the file is found out by what follows.
    let (count, pos) ← u32 data (pos + n)
    let (certs, pos) ← jksChain data count pos
    return (⟨certs, 1⟩, pos)
  else if tag = 2 then do
    let (cert, pos) ← jksCertificate data pos
    return (⟨[cert], 0⟩, pos)
  else .error (.der s!"unknown JKS entry tag {tag}")

/-- The loop over the entries. -/
def jksEntries : ℕ → ℕ → Except Fault JksFound
  | 0, _ => .ok ⟨[], 0⟩
  | count + 1, pos => do
      let (tag, pos) ← u32 data pos
      let pos ← skipUtf data pos
      let (found, pos) ← jksContents data tag (pos + 8)
      let rest ← jksEntries count pos
      return found.add rest

/-- `_parse_jks_certificates`. -/
def parseJksCertificates : Except Fault JksFound := do
  let (magic, pos) ← u32 data 0
  raiseIf (magic ≠ jksMagic) (.der "not a JKS keystore")
  let (version, pos) ← u32 data pos
  raiseIf (version ≠ 1 ∧ version ≠ 2) (.der "unsupported JKS version")
  let (count, pos) ← u32 data pos
  raiseIf (maxJksEntries < count) (.der "implausible JKS entry count")
  jksEntries data count pos

/-! ## Only DER errors -/

theorem failsOnly_u32 (pos : ℕ) : FailsOnly Fault.IsDerError (u32 data pos) :=
  (failsOnly_raiseIf trivial).bind fun _ _ => FailsOnly.ok _

theorem failsOnly_skipUtf (pos : ℕ) : FailsOnly Fault.IsDerError (skipUtf data pos) :=
  (failsOnly_raiseIf trivial).bind fun _ _ => FailsOnly.ok _

theorem failsOnly_jksCertificate (pos : ℕ) :
    FailsOnly Fault.IsDerError (jksCertificate data pos) := by
  refine (failsOnly_skipUtf data pos).bind fun next _ => ?_
  refine (failsOnly_u32 data next).bind fun length _ => ?_
  exact (failsOnly_raiseIf trivial).bind fun _ _ => FailsOnly.ok _

theorem failsOnly_jksChain (count pos : ℕ) :
    FailsOnly Fault.IsDerError (jksChain data count pos) := by
  induction count generalizing pos with
  | zero => exact FailsOnly.ok _
  | succ count ih =>
      refine (failsOnly_jksCertificate data pos).bind fun cert _ => ?_
      exact (ih cert.2).bind fun _ _ => FailsOnly.ok _

theorem failsOnly_jksContents (tag pos : ℕ) :
    FailsOnly Fault.IsDerError (jksContents data tag pos) := by
  rw [jksContents]
  split
  · refine (failsOnly_u32 data pos).bind fun length _ => ?_
    refine (failsOnly_u32 data _).bind fun count _ => ?_
    exact (failsOnly_jksChain data _ _).bind fun _ _ => FailsOnly.ok _
  · split
    · exact (failsOnly_jksCertificate data pos).bind fun _ _ => FailsOnly.ok _
    · exact FailsOnly.error.mpr trivial

theorem failsOnly_jksEntries (count pos : ℕ) :
    FailsOnly Fault.IsDerError (jksEntries data count pos) := by
  induction count generalizing pos with
  | zero => exact FailsOnly.ok _
  | succ count ih =>
      refine (failsOnly_u32 data pos).bind fun tag _ => ?_
      refine (failsOnly_skipUtf data tag.2).bind fun next _ => ?_
      refine (failsOnly_jksContents data _ _).bind fun found _ => ?_
      exact (ih found.2).bind fun _ _ => FailsOnly.ok _

/-- Nothing but `DERError` is raised. -/
theorem failsOnly_parseJksCertificates :
    FailsOnly Fault.IsDerError (parseJksCertificates data) := by
  refine (failsOnly_u32 data 0).bind fun magic _ => ?_
  refine (failsOnly_raiseIf trivial).bind fun _ _ => ?_
  refine (failsOnly_u32 data _).bind fun version _ => ?_
  refine (failsOnly_raiseIf trivial).bind fun _ _ => ?_
  refine (failsOnly_u32 data _).bind fun count _ => ?_
  exact (failsOnly_raiseIf trivial).bind fun _ _ => failsOnly_jksEntries data _ _

end Parser

/-! ## Encoding -/

/-- A certificate as it is stored, with its type. -/
structure JksCertificate where
  typeName : Bytes
  der : Bytes
  typeName_fits : typeName.length < 2 ^ 16
  der_fits : der.length < 2 ^ 32

/-- Its bytes; only version 2 stores the type. -/
def JksCertificate.bytes (version : ℕ) (cert : JksCertificate) : Bytes :=
  (if version = 2 then Bytes.counted .big 2 cert.typeName else []) ++ Bytes.counted .big 4 cert.der

/-- What an entry holds: an encrypted key with its chain, or a certificate. -/
inductive JksContents where
  | privateKey (key : Bytes) (chain : List JksCertificate) (key_fits : key.length < 2 ^ 32)
      (chain_fits : chain.length < 2 ^ 32)
  | trusted (cert : JksCertificate)

namespace JksContents

def tag : JksContents → ℕ
  | privateKey _ _ _ _ => 1
  | trusted _ => 2

/-- The certificates of an entry. -/
def certs : JksContents → List JksCertificate
  | privateKey _ chain _ _ => chain
  | trusted cert => [cert]

def bytes (version : ℕ) : JksContents → Bytes
  | privateKey key chain _ _ =>
      Bytes.counted .big 4 key ++
        (Bytes.ofNat .big 4 chain.length ++ chain.flatMap (JksCertificate.bytes version))
  | trusted cert => cert.bytes version

/-- What is to be found. -/
def found : JksContents → JksFound
  | privateKey _ chain _ _ => ⟨chain.map JksCertificate.der, 1⟩
  | trusted cert => ⟨[cert.der], 0⟩

end JksContents

/-- An entry as it is stored. -/
structure JksEntry where
  name : Bytes
  timestamp : Bytes
  contents : JksContents
  name_fits : name.length < 2 ^ 16
  timestamp_length : timestamp.length = 8

/-- The bytes of an entry. -/
def JksEntry.bytes (version : ℕ) (entry : JksEntry) : Bytes :=
  Bytes.ofNat .big 4 entry.contents.tag ++ (Bytes.counted .big 2 entry.name ++
    (entry.timestamp ++ entry.contents.bytes version))

/-- A keystore as it is stored, with the digest at its end. -/
structure StoredJks where
  version : ℕ
  entries : List JksEntry
  digest : Bytes
  known : version = 1 ∨ version = 2
  entries_fit : entries.length < 2 ^ 32

namespace StoredJks

variable (store : StoredJks)

/-- The bytes of a keystore. -/
def bytes : Bytes :=
  Bytes.ofNat .big 4 jksMagic ++ (Bytes.ofNat .big 4 store.version ++
    (Bytes.ofNat .big 4 store.entries.length ++
      (store.entries.flatMap (JksEntry.bytes store.version) ++ store.digest)))

/-- All certificates, in the order of the file. -/
def certs : List Bytes :=
  store.entries.flatMap fun entry => entry.contents.certs.map JksCertificate.der

/-- The number of entries with a private key. -/
def privateEntries : ℕ := store.entries.countP fun entry => entry.contents.tag = 1

end StoredJks

/-! ## Reading what was written -/

section RoundTrip

variable {data : Bytes} {pos version : ℕ}

theorem u32_of_at {n : ℕ} (hat : At data pos (Bytes.ofNat .big 4 n)) (hn : n < 2 ^ 32) :
    u32 data pos = .ok (n, pos + 4) := by
  have hle := hat.le (List.ne_nil_of_length_pos (by rw [Bytes.length_ofNat]; decide))
  rw [Bytes.length_ofNat] at hle
  rw [u32, raiseIf_of_not (by omega), ok_bind, Bytes.field_of_at hat hn]
  rfl

theorem skipUtf_of_at {bytes : Bytes} (hat : At data pos (Bytes.counted .big 2 bytes))
    (hbytes : bytes.length < 2 ^ 16) :
    skipUtf data pos = .ok (pos + (Bytes.counted .big 2 bytes).length) := by
  have hle := hat.counted_le (by decide)
  obtain ⟨hnumber, _⟩ := Bytes.counted_of_at hat hbytes
  rw [skipUtf, raiseIf_of_not (by omega), ok_bind, hnumber, Bytes.length_counted, Nat.add_assoc]
  rfl

theorem blob_of_at {bytes : Bytes} (hat : At data pos (Bytes.counted .big 4 bytes))
    (hbytes : bytes.length < 2 ^ 32) :
    blob data pos = .ok (bytes, pos + (Bytes.counted .big 4 bytes).length) := by
  have hle := hat.counted_le (by decide)
  obtain ⟨_, hcontents⟩ := Bytes.counted_of_at hat hbytes
  obtain ⟨hnumber, _⟩ := Bytes.at_append.mp hat
  rw [blob, u32_of_at hnumber hbytes, ok_bind]
  dsimp only
  rw [raiseIf_of_not (by omega), ok_bind, Bytes.slice_of_at hcontents, Bytes.length_counted,
    Nat.add_assoc]
  rfl

/-- A certificate with its type. -/
theorem jksCertificate_of_at {cert : JksCertificate} (hat : At data pos (cert.bytes 2)) :
    jksCertificate data pos = .ok (cert.der, pos + (cert.bytes 2).length) := by
  obtain ⟨htype, hder⟩ := Bytes.at_append.mp hat
  rw [if_pos rfl] at htype hder
  rw [jksCertificate, skipUtf_of_at htype cert.typeName_fits, ok_bind,
    blob_of_at hder cert.der_fits, JksCertificate.bytes, if_pos rfl, List.length_append,
    Nat.add_assoc]

theorem jksChain_of_at {chain : List JksCertificate}
    (hat : At data pos (chain.flatMap (JksCertificate.bytes version)))
    (hversion : version = 2 ∨ chain = []) :
    jksChain data chain.length pos = .ok (chain.map JksCertificate.der,
      pos + (chain.flatMap (JksCertificate.bytes version)).length) := by
  induction chain generalizing pos with
  | nil => rfl
  | cons cert rest ih =>
      obtain rfl := hversion.resolve_right nofun
      rw [List.flatMap_cons] at hat ⊢
      obtain ⟨hfirst, hrest⟩ := Bytes.at_append.mp hat
      rw [List.length_cons, jksChain, jksCertificate_of_at hfirst, ok_bind]
      dsimp only
      rw [ih hrest (.inl rfl), ok_bind, List.map_cons, List.length_append, Nat.add_assoc]
      rfl

/-- What an entry holds. -/
theorem jksContents_of_at {contents : JksContents} (hat : At data pos (contents.bytes version))
    (hversion : version = 2 ∨ contents.certs = []) :
    jksContents data contents.tag pos =
      .ok (contents.found, pos + (contents.bytes version).length) := by
  cases contents with
  | privateKey key chain key_fits chain_fits =>
      rw [JksContents.bytes] at hat ⊢
      obtain ⟨hkey, hrest⟩ := Bytes.at_append.mp hat
      obtain ⟨hcount, hchain⟩ := Bytes.at_append.mp hrest
      rw [Bytes.length_counted, ← Nat.add_assoc] at hcount hchain
      rw [Bytes.length_ofNat] at hchain
      rw [jksContents, JksContents.tag, if_pos rfl, u32_of_at (Bytes.at_append.mp hkey).1 key_fits,
        ok_bind]
      dsimp only
      rw [u32_of_at hcount chain_fits, ok_bind]
      dsimp only
      rw [jksChain_of_at hchain hversion, ok_bind, List.length_append, List.length_append,
        Bytes.length_counted, Bytes.length_ofNat]
      simp only [← Nat.add_assoc]
      rfl
  | trusted cert =>
      obtain rfl := hversion.resolve_right nofun
      rw [jksContents, JksContents.tag, if_neg (by decide), if_pos rfl, jksCertificate_of_at hat]
      rfl

/-- One turn of the loop over the entries, up to what the entry holds. -/
theorem jksEntries_cons {entry : JksEntry} (hat : At data pos (entry.bytes version)) (count : ℕ) :
    ∃ start, At data start (entry.contents.bytes version) ∧
      start + (entry.contents.bytes version).length = pos + (entry.bytes version).length ∧
      jksEntries data (count + 1) pos =
        jksContents data entry.contents.tag start >>= fun found =>
          (jksEntries data count found.2).map found.1.add := by
  rw [JksEntry.bytes] at hat ⊢
  obtain ⟨htag, hrest⟩ := Bytes.at_append.mp hat
  obtain ⟨hname, hrest⟩ := Bytes.at_append.mp hrest
  obtain ⟨_, hcontents⟩ := Bytes.at_append.mp hrest
  rw [Bytes.length_ofNat] at hname hcontents
  rw [entry.timestamp_length] at hcontents
  have hlt : entry.contents.tag < 2 ^ 32 := by
    cases entry.contents <;> simp [JksContents.tag]
  refine ⟨_, hcontents, ?_, ?_⟩
  · rw [List.length_append, List.length_append, List.length_append, Bytes.length_ofNat,
      entry.timestamp_length]
    omega
  · rw [jksEntries, u32_of_at htag hlt, ok_bind]
    dsimp only
    rw [skipUtf_of_at hname entry.name_fits, ok_bind]
    rfl

theorem jksEntries_of_at {entry : JksEntry} {count : ℕ} (hat : At data pos (entry.bytes version))
    (hversion : version = 2 ∨ entry.contents.certs = []) :
    jksEntries data (count + 1) pos =
      (jksEntries data count (pos + (entry.bytes version).length)).map
        entry.contents.found.add := by
  obtain ⟨start, hcontents, hstart, hturn⟩ := jksEntries_cons hat count
  rw [hturn, jksContents_of_at hcontents hversion, ok_bind, hstart]

/-- What the loop over stored entries finds. -/
theorem jksEntries_flatMap {entries : List JksEntry}
    (hat : At data pos (entries.flatMap (JksEntry.bytes version)))
    (hversion : version = 2 ∨ ∀ entry ∈ entries, entry.contents.certs = []) :
    jksEntries data entries.length pos = .ok
      ⟨entries.flatMap fun entry => entry.contents.certs.map JksCertificate.der,
        entries.countP fun entry => entry.contents.tag = 1⟩ := by
  induction entries generalizing pos with
  | nil => rfl
  | cons entry rest ih =>
      rw [List.flatMap_cons] at hat
      obtain ⟨hfirst, hrest⟩ := Bytes.at_append.mp hat
      have hentry : version = 2 ∨ entry.contents.certs = [] :=
        hversion.imp_right fun hnone => hnone entry List.mem_cons_self
      have hothers : version = 2 ∨ ∀ entry ∈ rest, entry.contents.certs = [] :=
        hversion.imp_right fun hnone other hother => hnone other (List.mem_cons_of_mem _ hother)
      rw [List.length_cons, jksEntries_of_at hfirst hentry, ih hrest hothers, List.flatMap_cons,
        List.countP_cons]
      cases entry.contents <;> simp [Except.map, JksFound.add, JksContents.found, JksContents.certs,
        JksContents.tag, Nat.add_comm]

end RoundTrip

section Stored

variable {store : StoredJks}

/-- What stands in front of the entries. -/
theorem parseJksCertificates_bytes :
    parseJksCertificates store.bytes =
      if maxJksEntries < store.entries.length then .error (.der "implausible JKS entry count")
      else jksEntries store.bytes store.entries.length 12 := by
  obtain ⟨hmagic, hrest⟩ := Bytes.at_append.mp (Bytes.at_zero store.bytes)
  obtain ⟨hversion, hrest⟩ := Bytes.at_append.mp hrest
  obtain ⟨hcount, _⟩ := Bytes.at_append.mp hrest
  rw [Bytes.length_ofNat] at hversion hcount
  rw [Bytes.length_ofNat] at hcount
  have hknown : ¬ (store.version ≠ 1 ∧ store.version ≠ 2) := by
    rintro ⟨hone, htwo⟩
    exact store.known.elim hone htwo
  rw [parseJksCertificates, u32_of_at hmagic (by decide), ok_bind]
  dsimp only
  rw [raiseIf_of_not (by simp), ok_bind,
    u32_of_at hversion (by rcases store.known with h | h <;> rw [h] <;> decide), ok_bind]
  dsimp only
  rw [raiseIf_of_not hknown, ok_bind, u32_of_at hcount store.entries_fit, ok_bind]
  dsimp only
  rw [raiseIf_bind]

theorem entries_at (store : StoredJks) :
    At store.bytes 12 (store.entries.flatMap (JksEntry.bytes store.version)) := by
  obtain ⟨_, hrest⟩ := Bytes.at_append.mp (Bytes.at_zero store.bytes)
  obtain ⟨_, hrest⟩ := Bytes.at_append.mp hrest
  obtain ⟨_, hrest⟩ := Bytes.at_append.mp hrest
  obtain ⟨hentries, _⟩ := Bytes.at_append.mp hrest
  simpa only [Bytes.length_ofNat] using hentries

theorem certs_eq_nil : store.certs = [] ↔ ∀ entry ∈ store.entries, entry.contents.certs = [] := by
  simp [StoredJks.certs]

theorem parseJksCertificates_ok (hversion : store.version = 2 ∨ store.certs = [])
    (hcount : store.entries.length ≤ maxJksEntries) :
    parseJksCertificates store.bytes = .ok ⟨store.certs, store.privateEntries⟩ := by
  rw [parseJksCertificates_bytes, if_neg (by omega)]
  exact jksEntries_flatMap (entries_at store) (hversion.imp_right certs_eq_nil.mp)

/-- **Round trip and errors**: the certificates of a stored keystore come back in order, with the
number of private keys, if there are not too many entries and every certificate has its type; and
any bytes are read or are a `DERError`. -/
theorem parseJksCertificates_stored :
    (∀ store : StoredJks, store.version = 2 ∨ store.certs = [] →
      store.entries.length ≤ maxJksEntries →
        parseJksCertificates store.bytes = .ok ⟨store.certs, store.privateEntries⟩) ∧
    ∀ data, FailsOnly Fault.IsDerError (parseJksCertificates data) :=
  ⟨fun _ hversion hcount => parseJksCertificates_ok hversion hcount,
    failsOnly_parseJksCertificates⟩

/-- A certificate of five bytes. -/
def smallCertificate : JksCertificate where
  typeName := [0x58]
  der := [0x30, 3, 2, 1, 7]
  typeName_fits := by decide
  der_fits := by decide

/-- An entry that holds it. -/
def smallEntry : JksEntry where
  name := [0x61]
  timestamp := List.replicate 8 0
  contents := .trusted smallCertificate
  name_fits := by decide
  timestamp_length := List.length_replicate

/-- A key of three bytes, with a chain of two certificates. -/
def keyEntry : JksEntry where
  name := [0x6B]
  timestamp := List.replicate 8 0
  contents := .privateKey [1, 2, 3]
    [smallCertificate, ⟨[0x58], [0x30, 3, 2, 1, 9], by decide, by decide⟩] (by decide) (by decide)
  name_fits := by decide
  timestamp_length := List.length_replicate

/-- A keystore of version 2 with a certificate and a key. -/
def mixedKeystore : StoredJks where
  version := 2
  entries := [smallEntry, keyEntry]
  digest := List.replicate 20 0
  known := .inr rfl
  entries_fit := by decide

theorem parseJksCertificates_mixed :
    parseJksCertificates mixedKeystore.bytes =
      .ok ⟨[[0x30, 3, 2, 1, 7], [0x30, 3, 2, 1, 7], [0x30, 3, 2, 1, 9]], 1⟩ :=
  parseJksCertificates_stored.1 mixedKeystore (.inl rfl) (by decide)

/-- Too many entries are refused, whatever they are. -/
theorem parseJksCertificates_of_many (hcount : maxJksEntries < store.entries.length) :
    parseJksCertificates store.bytes = .error (.der "implausible JKS entry count") := by
  rw [parseJksCertificates_bytes, if_pos hcount]

end Stored

/-! ## Version 1 -/

section VersionOne

variable {data : Bytes} {pos : ℕ}

/-- A first certificate of 64 KiB or more. -/
def FirstLong (certs : List Bytes) : Prop := ∃ cert ∈ certs.head?, 2 ^ 16 ≤ cert.length

/-- Without a type, the high half of the length is skipped, and the low half is read as the high
half of another. -/
theorem jksCertificate_version_one {cert : JksCertificate} (hat : At data pos (cert.bytes 1))
    (hpos : 0 < cert.der.length) (hlt : cert.der.length < 2 ^ 16) {found : Bytes × ℕ}
    (hok : jksCertificate data pos = .ok found) : 2 ^ 16 ≤ found.1.length := by
  have hder : At data pos (Bytes.counted .big 4 cert.der) := hat
  obtain ⟨hlength, _⟩ := Bytes.at_append.mp hder
  rw [Bytes.ofNat_big_add 2 2] at hlength
  obtain ⟨hhigh, hlow⟩ := Bytes.at_append.mp hlength
  rw [Bytes.length_ofNat] at hlow
  have hskip : Bytes.field .big 2 data pos = 0 := by
    rw [Bytes.field_of_at hhigh (by omega)]
    omega
  obtain ⟨next, hnext, hblob⟩ := except_bind_ok.mp hok
  obtain ⟨_, _, hnext⟩ := except_bind_ok.mp hnext
  obtain rfl : pos + 2 + Bytes.field .big 2 data pos = next := Except.ok.inj hnext
  rw [hskip, Nat.add_zero] at hblob
  obtain ⟨⟨n, start⟩, hn, hblob⟩ := except_bind_ok.mp hblob
  obtain ⟨_, hfits, hn⟩ := except_bind_ok.mp hn
  obtain ⟨rfl, rfl⟩ : Bytes.field .big 4 data (pos + 2) = n ∧ pos + 2 + 4 = start := by
    simpa using Except.ok.inj hn
  have hinside := raiseIf_ok.mp hfits
  obtain ⟨_, hend, hblob⟩ := except_bind_ok.mp hblob
  have hend := raiseIf_ok.mp hend
  obtain rfl := Except.ok.inj hblob
  have hle := Bytes.le_field_of_at hlow hlt (show pos + 2 + 2 + 2 ≤ data.length by omega)
  rw [Bytes.length_slice_of_le (by omega), Nat.add_sub_cancel_left]
  calc 2 ^ 16 ≤ cert.der.length * 256 ^ 2 := by omega
    _ ≤ Bytes.field .big 4 data (pos + 2) := hle

theorem jksContents_version_one {contents : JksContents} (hat : At data pos (contents.bytes 1))
    {cert : JksCertificate} {rest : List JksCertificate} (hcerts : contents.certs = cert :: rest)
    (hpos : 0 < cert.der.length) (hlt : cert.der.length < 2 ^ 16) {found : JksFound × ℕ}
    (hok : jksContents data contents.tag pos = .ok found) : FirstLong found.1.certs := by
  cases contents with
  | privateKey key chain key_fits chain_fits =>
      obtain rfl : chain = cert :: rest := hcerts
      obtain ⟨hkey, hrest⟩ := Bytes.at_append.mp hat
      obtain ⟨hcount, hchain⟩ := Bytes.at_append.mp hrest
      rw [Bytes.length_counted, ← Nat.add_assoc] at hcount hchain
      rw [Bytes.length_ofNat, List.flatMap_cons] at hchain
      rw [jksContents, JksContents.tag, if_pos rfl, u32_of_at (Bytes.at_append.mp hkey).1 key_fits,
        ok_bind] at hok
      dsimp only at hok
      rw [u32_of_at hcount chain_fits, ok_bind] at hok
      dsimp only at hok
      rw [List.length_cons, jksChain] at hok
      obtain ⟨chain, hchain', hok⟩ := except_bind_ok.mp hok
      obtain ⟨first, hfirst, hothers⟩ := except_bind_ok.mp hchain'
      obtain ⟨others, _, hothers⟩ := except_bind_ok.mp hothers
      obtain rfl := Except.ok.inj hothers
      obtain rfl := Except.ok.inj hok
      exact ⟨first.1, rfl,
        jksCertificate_version_one (Bytes.at_append.mp hchain).1 hpos hlt hfirst⟩
  | trusted trusted =>
      obtain ⟨rfl, rfl⟩ : trusted = cert ∧ [] = rest := by simpa [JksContents.certs] using hcerts
      rw [jksContents, JksContents.tag, if_neg (by decide), if_pos rfl] at hok
      obtain ⟨first, hfirst, hok⟩ := except_bind_ok.mp hok
      obtain rfl := Except.ok.inj hok
      exact ⟨first.1, rfl, jksCertificate_version_one hat hpos hlt hfirst⟩

theorem jksEntries_version_one {entries : List JksEntry}
    (hat : At data pos (entries.flatMap (JksEntry.bytes 1)))
    {cert : JksCertificate} {rest : List JksCertificate}
    (hcerts : entries.flatMap (fun entry => entry.contents.certs) = cert :: rest)
    (hpos : 0 < cert.der.length) (hlt : cert.der.length < 2 ^ 16) {found : JksFound}
    (hok : jksEntries data entries.length pos = .ok found) : FirstLong found.certs := by
  induction entries generalizing pos found with
  | nil => cases hcerts
  | cons entry others ih =>
      rw [List.flatMap_cons] at hat hcerts
      obtain ⟨hfirst, hothers⟩ := Bytes.at_append.mp hat
      cases hcontents : entry.contents.certs with
      | nil =>
          rw [hcontents, List.nil_append] at hcerts
          rw [List.length_cons, jksEntries_of_at hfirst (.inr hcontents)] at hok
          cases hrest : jksEntries data others.length (pos + (entry.bytes 1).length) with
          | error fault =>
              rw [hrest] at hok
              cases hok
          | ok after =>
              rw [hrest] at hok
              obtain rfl := Except.ok.inj hok
              have hnone : entry.contents.found.certs = [] := by
                cases hentry : entry.contents <;> rw [hentry] at hcontents <;>
                  simp_all [JksContents.certs, JksContents.found]
              have hfound : FirstLong after.certs := ih hothers hcerts hrest
              rwa [JksFound.add, hnone, List.nil_append]
      | cons first chain =>
          rw [hcontents, List.cons_append, List.cons.injEq] at hcerts
          obtain ⟨rfl, _⟩ := hcerts
          obtain ⟨start, hat, _, hturn⟩ := jksEntries_cons hfirst others.length
          rw [List.length_cons, hturn] at hok
          obtain ⟨here, hhere, hok⟩ := except_bind_ok.mp hok
          obtain ⟨long, hlong, hlength⟩ := jksContents_version_one hat hcontents hpos hlt hhere
          cases hrest : jksEntries data others.length here.2 with
          | error fault =>
              rw [hrest] at hok
              cases hok
          | ok after =>
              rw [hrest] at hok
              obtain rfl := Except.ok.inj hok
              refine ⟨long, ?_, hlength⟩
              rw [JksFound.add, List.head?_append, Option.mem_def.mp hlong]
              rfl

/-- A keystore of version 1 does not come back if its first certificate is shorter than 64 KiB. -/
theorem parseJksCertificates_version_one {store : StoredJks} (hversion : store.version = 1)
    {cert : Bytes} {rest : List Bytes} (hcerts : store.certs = cert :: rest)
    (hpos : 0 < cert.length) (hlt : cert.length < 2 ^ 16) (keys : ℕ) :
    parseJksCertificates store.bytes ≠ .ok ⟨store.certs, keys⟩ := by
  intro hok
  rw [parseJksCertificates_bytes] at hok
  split at hok
  · cases hok
  · have hmap : (store.entries.flatMap fun entry => entry.contents.certs).map JksCertificate.der =
        cert :: rest := by
      rw [← hcerts, StoredJks.certs, List.map_flatMap]
    obtain ⟨first, others, hfirst, rfl, _⟩ := List.map_eq_cons_iff.mp hmap
    have hat := entries_at store
    rw [hversion] at hat
    obtain ⟨long, hlong, hlength⟩ := jksEntries_version_one hat hfirst hpos hlt hok
    rw [hcerts, List.head?_cons, Option.mem_some_iff] at hlong
    rw [hlong] at hlt
    omega

end VersionOne

/-- A keystore with so many of these. -/
def smallKeystore (version count : ℕ) (known : version = 1 ∨ version = 2)
    (hcount : count < 2 ^ 32) : StoredJks where
  version := version
  entries := List.replicate count smallEntry
  digest := List.replicate 20 0
  known := known
  entries_fit := by rwa [List.length_replicate]

/-- Neither a keystore of version 2 with one entry too many nor one of version 1 with one entry
comes back. -/
theorem not_stored_many_versionOne :
    (∀ found,
      parseJksCertificates (smallKeystore 2 100001 (.inr rfl) (by decide)).bytes ≠ .ok found) ∧
      parseJksCertificates (smallKeystore 1 1 (.inl rfl) (by decide)).bytes =
        .error (.der "JKS entry runs past the file") := by
  refine ⟨fun found => ?_, by decide +kernel⟩
  rw [parseJksCertificates_of_many (by
    rw [smallKeystore, List.length_replicate]
    decide)]
  exact nofun

/-! ## `_read_keystore` -/

/-- `store_type`. -/
inductive StoreType where
  | jks
  | jceks
  | pkcs12
  | unknown
  deriving DecidableEq

/-- `MAX_KEYSTORE_BYTES`. -/
def maxKeystoreBytes : ℕ := 32 * 1024 * 1024

/-- A file: its size and its contents, or the text of the `OSError`. -/
structure StoreFile where
  path : String
  name : String
  size : Except String ℕ
  contents : Except String Bytes

/-- The record of a keystore. -/
structure StoreRecord where
  path : String
  sizeBytes : Option ℕ
  sha256 : Option String
  storeType : StoreType
  listed : Bool
  method : Option String
  privateKeyEntries : Option ℕ
  reason : Option String

/-- A record of a keystore that is not listed. -/
def StoreRecord.unlisted (path : String) (sizeBytes : Option ℕ) (sha256 : Option String)
    (storeType : StoreType) (reason : String) : StoreRecord :=
  ⟨path, sizeBytes, sha256, storeType, false, none, none, some reason⟩

section ReadKeystore

variable (sha256 : Bytes → String) (keytool : Option (List Bytes))

/-- `magic`. -/
def keystoreMagic (data : Bytes) : ℕ :=
  if 4 ≤ data.length then Bytes.toNat .big (Bytes.slice data 0 4) else 0

/-- What is made of the contents of a file; `keytool` is the answer of
`_keytool_list_cacerts`. -/
def readStore (path name : String) (size : ℕ) (data : Bytes) :
    Except Fault (StoreRecord × List Bytes) :=
  let digest := some (sha256 data)
  if keystoreMagic data = jksMagic then
    match parseJksCertificates data with
    | .ok found => .ok (⟨path, some size, digest, .jks, true, some "in-process",
        some found.privateEntries, none⟩, found.certs)
    | .error (.der message) =>
        .ok (.unlisted path size digest .jks ("unparseable JKS: " ++ message), [])
    | .error fault => .error fault
  else if keystoreMagic data = jceksMagic then
    .ok (.unlisted path size digest .jceks "JCEKS needs a password; not opened", [])
  else
    let storeType := if data.head? = some 0x30 then StoreType.pkcs12 else .unknown
    if name = "cacerts" then
      match keytool with
      | some certs => .ok (⟨path, some size, digest, storeType, true,
          some "keytool (default cacerts password)", none, none⟩, certs)
      | none => .ok (.unlisted path size digest storeType "keytool not available", [])
    else .ok (.unlisted path size digest storeType "password-protected; not opened", [])

/-- `_read_keystore`. -/
def readKeystore (file : StoreFile) : Except Fault (StoreRecord × List Bytes) :=
  match file.size, file.contents with
  | .error strerror, _ =>
      .ok (.unlisted file.path none none .unknown ("unreadable: " ++ strerror), [])
  | .ok size, contents =>
      if maxKeystoreBytes < size then
        .ok (.unlisted file.path size none .unknown "larger than the keystore size cap", [])
      else
        match contents with
        | .error strerror =>
            .ok (.unlisted file.path size none .unknown ("unreadable: " ++ strerror), [])
        | .ok data => readStore sha256 keytool file.path file.name size data

/-- Every file gets a record. -/
theorem readKeystore_total (file : StoreFile) :
    ∃ answer, readKeystore sha256 keytool file = .ok answer := by
  have hstore : ∀ size data, ∃ answer,
      readStore sha256 keytool file.path file.name size data = .ok answer := by
    intro size data
    rw [readStore]
    dsimp only
    split
    · cases hparse : parseJksCertificates data with
      | ok found => exact ⟨_, rfl⟩
      | error fault =>
          have hder := failsOnly_parseJksCertificates data fault hparse
          cases fault with
          | der message => exact ⟨_, rfl⟩
          | valueError => exact hder.elim
          | indexError => exact hder.elim
    · split
      · exact ⟨_, rfl⟩
      · split
        · cases keytool <;> exact ⟨_, rfl⟩
        · exact ⟨_, rfl⟩
  unfold readKeystore
  split
  · exact ⟨_, rfl⟩
  · split
    · exact ⟨_, rfl⟩
    · split
      · exact ⟨_, rfl⟩
      · exact hstore _ _

/-- The record of a file with a stored keystore. -/
theorem readKeystore_stored {store : StoredJks} (hversion : store.version = 2 ∨ store.certs = [])
    (hcount : store.entries.length ≤ maxJksEntries) {size : ℕ} (hsize : size ≤ maxKeystoreBytes)
    (path name : String) :
    readKeystore sha256 keytool ⟨path, name, .ok size, .ok store.bytes⟩ =
      .ok (⟨path, some size, some (sha256 store.bytes), .jks, true, some "in-process",
        some store.privateEntries, none⟩, store.certs) := by
  obtain ⟨hmagic, _⟩ := Bytes.at_append.mp (Bytes.at_zero store.bytes)
  have hinside := hmagic.le (List.ne_nil_of_length_pos (by rw [Bytes.length_ofNat]; decide))
  rw [Bytes.length_ofNat, Nat.zero_add] at hinside
  have hnumber : keystoreMagic store.bytes = jksMagic := by
    rw [keystoreMagic, if_pos hinside]
    exact Bytes.field_of_at hmagic (by decide)
  rw [readKeystore]
  dsimp only
  rw [if_neg (by omega), readStore, if_pos hnumber, parseJksCertificates_ok hversion hcount]

end ReadKeystore

end PqcReadiness.Certs
