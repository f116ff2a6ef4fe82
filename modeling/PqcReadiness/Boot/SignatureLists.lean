import PqcReadiness.Certs.TrustStore
import PqcReadiness.Lib.Cursor

/-!
# EFI signature databases

`parse_signature_lists`, the encoding of an array of signature lists, and what the two have to do
with each other: every entry of an encoded array is accounted for once, and whatever else is parsed
leaves an error behind (`parseSignatureLists_accounts`).

## Strategy

`walk` is what the two loops come to, in order: the entries, as places in the buffer, and what is
wrong with the lists.  `parse_signature_lists` accounts for these one after the other
(`parseSignatureLists_eq_walk`), so the sizes of a list are looked at in the walk only, and
certificates only in the accounts.
-/

namespace PqcReadiness.Boot

open PqcReadiness.Lib PqcReadiness.Certs
open Bytes (At)

/-! ## The parser -/

/-- Bytes in base 16. -/
def hexText (bytes : Bytes) : List Char := bytes.flatMap fun byte => (hexByte byte.toNat).toList

/-- `_guid`: the first three fields are stored lowest byte first. -/
def guid (raw : Bytes) : List Char :=
  hexText (Bytes.slice raw 0 4).reverse ++ '-' :: (hexText (Bytes.slice raw 4 6).reverse ++
    '-' :: (hexText (Bytes.slice raw 6 8).reverse ++ '-' :: (hexText (Bytes.slice raw 8 10) ++
      '-' :: hexText (Bytes.slice raw 10 16))))

/-- `EFI_CERT_X509`. -/
def efiCertX509 : List Char := "a5c059a1-94e4-4aa7-87b5-ab155c2bf072".toList

/-- `EFI_CERT_SHA256`. -/
def efiCertSha256 : List Char := "c1c41626-504c-4092-aca9-41f936934328".toList

/-- `EFI_CERT_RSA2048`. -/
def efiCertRsa2048 : List Char := "3c5766e8-269c-4e34-aa14-ed776e85b3b6".toList

/-- What is reported of a certificate. -/
structure CertSummary where
  subject : String
  issuer : String
  sha256 : String
  notAfter : String
  keyAlgorithm : String
  keySize : Option ℕ
  category : Category

/-- `_cert_summary`. -/
def certSummary (cert : Certificate) : CertSummary where
  subject := cert.subject
  issuer := cert.issuer
  sha256 := cert.sha256
  notAfter := cert.notAfter
  keyAlgorithm := cert.keyAlgorithm
  keySize := cert.keySize
  category := cert.category

/-- An element of `errors`. -/
inductive ListError where
  | truncated (pos : ℕ)
  | malformed (pos : ℕ)
  | partialEntry (pos : ℕ)
  | unparsable (message : String)
  deriving DecidableEq

/-- Its text. -/
def ListError.text : ListError → String
  | truncated pos => s!"truncated signature list header at offset {pos}"
  | malformed pos => s!"malformed signature list at offset {pos}"
  | partialEntry pos => s!"signature list at offset {pos} has a partial entry"
  | unparsable message => s!"unparsable X.509 entry: {message}"

/-- What `parse_signature_lists` returns. -/
structure SignatureDatabase where
  certificates : List CertSummary
  sha256Hashes : ℕ
  rsa2048Keys : ℕ
  otherEntries : Dict (List Char) ℕ
  errors : List ListError

/-- `errors.append(error)`. -/
def SignatureDatabase.addError (parsed : SignatureDatabase) (error : ListError) :
    SignatureDatabase :=
  { parsed with errors := parsed.errors ++ [error] }

/-- The header of a list. -/
structure ListHeader where
  sigType : List Char
  listSize : ℕ
  headerSize : ℕ
  sigSize : ℕ

/-- The header at an offset. -/
def listHeader (data : Bytes) (pos : ℕ) : ListHeader where
  sigType := guid (Bytes.slice data pos (pos + 16))
  listSize := Bytes.field .little 4 data (pos + 16)
  headerSize := Bytes.field .little 4 data (pos + 20)
  sigSize := Bytes.field .little 4 data (pos + 24)

/-- `list_size < 28 or end > len(data) or sig_size < 16 or first > end`. -/
def ListHeader.Malformed (header : ListHeader) (data : Bytes) (pos : ℕ) : Prop :=
  header.listSize < 28 ∨ data.length < pos + header.listSize ∨ header.sigSize < 16 ∨
    pos + header.listSize < pos + 28 + header.headerSize

instance (header : ListHeader) (data : Bytes) (pos : ℕ) : Decidable (header.Malformed data pos) :=
  inferInstanceAs (Decidable (_ ∨ _))

section Parser

variable (parse : Bytes → Except Fault Certificate)

/-- The body of the loop over the entries; `parse` is `parse_certificate`. -/
def signatureEntry (sigType : List Char) (payload : Bytes) (parsed : SignatureDatabase) :
    Except Fault SignatureDatabase :=
  if sigType = efiCertX509 then
    match parse payload with
    | .ok cert =>
        .ok { parsed with certificates := parsed.certificates ++ [certSummary cert] }
    | .error (.der message) => .ok (parsed.addError (.unparsable message))
    | .error fault => .error fault
  else if sigType = efiCertSha256 then
    .ok { parsed with sha256Hashes := parsed.sha256Hashes + 1 }
  else if sigType = efiCertRsa2048 then
    .ok { parsed with rsa2048Keys := parsed.rsa2048Keys + 1 }
  else .ok { parsed with otherEntries := parsed.otherEntries.bump sigType 1 }

/-- The loop over the lists. -/
def signatureLists (data : Bytes) (pos : ℕ) (parsed : SignatureDatabase) :
    Except Fault SignatureDatabase :=
  if pos < data.length then
    if data.length < pos + 28 then .ok (parsed.addError (.truncated pos))
    else
      let header := listHeader data pos
      let stop := pos + header.listSize
      let first := pos + 28 + header.headerSize
      if header.Malformed data pos then .ok (parsed.addError (.malformed pos))
      else do
        let parsed := if (stop - first) % header.sigSize ≠ 0 then
            parsed.addError (.partialEntry pos) else parsed
        let parsed ← (rangeStep first (stop + 1 - header.sigSize) header.sigSize).foldlM
          (fun parsed entry => signatureEntry parse header.sigType
            (Bytes.slice data (entry + 16) (entry + header.sigSize)) parsed) parsed
        signatureLists data stop parsed
  else .ok parsed
termination_by data.length - pos
decreasing_by
  simp only [ListHeader.Malformed, not_or, not_lt] at *
  show data.length - (pos + header.listSize) < data.length - pos
  omega

/-- `parse_signature_lists`. -/
def parseSignatureLists (data : Bytes) : Except Fault SignatureDatabase :=
  signatureLists parse data 0 ⟨[], 0, 0, .empty, []⟩

end Parser

/-! ## The walk -/

/-- What the loops come to. -/
inductive Visit where
  | entry (sigType : List Char) (start stop : ℕ)
  | error (error : ListError)
  deriving DecidableEq

/-- The entries and the errors, in order. -/
def walk (data : Bytes) (pos : ℕ) : List Visit :=
  if pos < data.length then
    if data.length < pos + 28 then [.error (.truncated pos)]
    else
      let header := listHeader data pos
      let stop := pos + header.listSize
      let first := pos + 28 + header.headerSize
      if header.Malformed data pos then [.error (.malformed pos)]
      else
        (if (stop - first) % header.sigSize ≠ 0 then [.error (.partialEntry pos)] else []) ++
          ((rangeStep first (stop + 1 - header.sigSize) header.sigSize).map fun entry =>
            .entry header.sigType entry (entry + header.sigSize)) ++
          walk data stop
  else []
termination_by data.length - pos
decreasing_by
  simp only [ListHeader.Malformed, not_or, not_lt] at *
  show data.length - (pos + header.listSize) < data.length - pos
  omega

/-- What is seen there: an entry's type and its data behind the owner, or what is wrong. -/
inductive Seen where
  | entry (sigType : List Char) (payload : Bytes)
  | error (error : ListError)
  deriving DecidableEq

/-- What is seen at a place. -/
def Visit.seen (data : Bytes) : Visit → Seen
  | .entry sigType start stop => .entry sigType (Bytes.slice data (start + 16) stop)
  | .error fault => .error fault

/-- What is made of it. -/
def account (parse : Bytes → Except Fault Certificate) (parsed : SignatureDatabase) :
    Seen → Except Fault SignatureDatabase
  | .entry sigType payload => signatureEntry parse sigType payload parsed
  | .error error => .ok (parsed.addError error)

section Walk

variable {data : Bytes} {pos : ℕ}

theorem signatureLists_eq_walk (parse : Bytes → Except Fault Certificate)
    (parsed : SignatureDatabase) :
    signatureLists parse data pos parsed =
      ((walk data pos).map (Visit.seen data)).foldlM (account parse) parsed := by
  fun_induction walk data pos generalizing parsed with
  | case1 pos hmore htruncated =>
      rw [signatureLists, if_pos hmore, if_pos htruncated]
      rfl
  | case2 pos hmore htruncated header hmalformed =>
      rw [signatureLists, if_pos hmore, if_neg htruncated]
      exact if_pos hmalformed
  | case3 pos hmore htruncated header stop first hmalformed ih =>
      have hpartial : ((if (stop - first) % header.sigSize ≠ 0 then
          [Visit.error (.partialEntry pos)] else []).map (Visit.seen data)).foldlM (account parse)
          parsed = .ok (if (stop - first) % header.sigSize ≠ 0 then
            parsed.addError (.partialEntry pos) else parsed) := by
        split <;> rfl
      rw [signatureLists, if_pos hmore, if_neg htruncated, List.map_append, List.map_append,
        List.foldlM_append, List.foldlM_append, hpartial, ok_bind, List.map_map, List.foldlM_map]
      refine (if_neg hmalformed).trans ?_
      exact congrArg (fun rest => _ >>= rest) (funext ih)
  | case4 pos hmore =>
      rw [signatureLists, if_neg hmore]
      rfl

theorem parseSignatureLists_eq_walk (parse : Bytes → Except Fault Certificate) :
    parseSignatureLists parse data =
      ((walk data 0).map (Visit.seen data)).foldlM (account parse) ⟨[], 0, 0, .empty, []⟩ :=
  signatureLists_eq_walk parse _

/-- An entry inside the buffer, with room for its owner. -/
def Visit.Inside (data : Bytes) : Visit → Prop
  | .entry _ start stop => start + 16 ≤ stop ∧ stop ≤ data.length
  | .error _ => True

/-- Only entries inside the buffer are visited. -/
theorem walk_inside : ∀ visit ∈ walk data pos, visit.Inside data := by
  fun_induction walk data pos with
  | case1 => simp [Visit.Inside]
  | case2 => simp [Visit.Inside]
  | case3 pos hmore htruncated header stop first hmalformed ih =>
      intro visit hvisit
      simp only [ListHeader.Malformed, not_or, not_lt] at hmalformed
      rcases List.mem_append.mp hvisit with hhere | hrest
      · rcases List.mem_append.mp hhere with hpartial | hentry
        · split at hpartial
          · rw [List.mem_singleton.mp hpartial]
            trivial
          · cases hpartial
        · obtain ⟨entry, hrange, rfl⟩ := List.mem_map.mp hentry
          obtain ⟨-, hlt⟩ := mem_rangeStep hrange
          have hstop : stop = pos + header.listSize := rfl
          exact ⟨by omega, by omega⟩
      · exact ih visit hrest
  | case4 => simp

end Walk

/-! ## Encoding -/

/-- A signature list as it is stored. -/
structure SignatureList where
  sigType : Bytes
  header : Bytes
  sigSize : ℕ
  entries : List Bytes
  sigType_length : sigType.length = 16
  sigSize_owner : 16 ≤ sigSize
  entries_length : ∀ entry ∈ entries, entry.length = sigSize
  sigSize_fits : sigSize < 2 ^ 32
  size_fits : 28 + header.length + entries.length * sigSize < 2 ^ 32

namespace SignatureList

variable (list : SignatureList)

/-- `SignatureListSize`. -/
def size : ℕ := 28 + list.header.length + list.entries.length * list.sigSize

/-- The bytes of a list. -/
def bytes : Bytes :=
  list.sigType ++ (Bytes.ofNat .little 4 list.size ++ (Bytes.ofNat .little 4 list.header.length ++
    (Bytes.ofNat .little 4 list.sigSize ++ (list.header ++ list.entries.flatten))))

/-- What is to be seen in it. -/
def seen : List Seen := list.entries.map fun entry => .entry (guid list.sigType) (entry.drop 16)

theorem length_entries : list.entries.flatten.length = list.entries.length * list.sigSize := by
  rw [List.length_flatten, List.map_congr_left list.entries_length, List.map_const',
    List.sum_replicate_nat]

theorem length_bytes : list.bytes.length = list.size := by
  simp only [bytes, List.length_append, Bytes.length_ofNat, list.sigType_length,
    list.length_entries, size]
  omega

end SignatureList

/-! ## Reading what was written -/

section RoundTrip

variable {data : Bytes} {pos : ℕ}

/-- The entries of a list, at their offsets. -/
theorem entries_of_at {size : ℕ} {entries : List Bytes} (hat : At data pos entries.flatten)
    (hlength : ∀ entry ∈ entries, entry.length = size) (sigType : List Char) :
    ((List.range entries.length).map (pos + size * ·)).map (fun entry =>
        Visit.seen data (.entry sigType entry (entry + size))) =
      entries.map fun entry => .entry sigType (entry.drop 16) := by
  induction entries generalizing pos with
  | nil => rfl
  | cons entry rest ih =>
      rw [List.forall_mem_cons] at hlength
      obtain ⟨hentry, hothers⟩ := hlength
      rw [List.flatten_cons] at hat
      obtain ⟨hfirst, hrest⟩ := Bytes.at_append.mp hat
      rw [hentry] at hrest
      have hpayload : Bytes.slice data (pos + 16) (pos + size) = entry.drop 16 := by
        have hslice := Bytes.slice_of_at hfirst
        rw [hentry] at hslice
        rw [← Bytes.slice_slice (show size ≤ pos + size - pos by omega), hslice, Bytes.slice,
          List.take_of_length_le (by rw [List.length_drop, hentry])]
      have hoffsets : (List.range rest.length).map ((pos + size * ·) ∘ Nat.succ) =
          (List.range rest.length).map (pos + size + size * ·) := by
        refine List.map_congr_left fun i _ => ?_
        rw [Function.comp_apply, Nat.mul_succ]
        omega
      rw [List.length_cons, List.range_succ_eq_map, List.map_cons, List.map_map, hoffsets,
        List.map_cons, ih hrest hothers, List.map_cons, Nat.mul_zero, Nat.add_zero, Visit.seen,
        hpayload]

/-- A list, and what is behind it. -/
theorem walk_of_at {list : SignatureList} (hat : At data pos list.bytes) :
    (walk data pos).map (Visit.seen data) =
      list.seen ++ (walk data (pos + list.bytes.length)).map (Visit.seen data) := by
  have hinside := hat.le (List.ne_nil_of_length_pos (by
    rw [list.length_bytes, SignatureList.size]
    omega))
  rw [list.length_bytes] at hinside ⊢
  obtain ⟨htype, hrest⟩ := Bytes.at_append.mp hat
  obtain ⟨hsize, hrest⟩ := Bytes.at_append.mp hrest
  obtain ⟨hheaderSize, hrest⟩ := Bytes.at_append.mp hrest
  obtain ⟨hsigSize, hrest⟩ := Bytes.at_append.mp hrest
  obtain ⟨-, hentries⟩ := Bytes.at_append.mp hrest
  simp only [Bytes.length_ofNat, list.sigType_length] at hsize hheaderSize hsigSize hentries
  have hslice := Bytes.slice_of_at htype
  rw [list.sigType_length] at hslice
  have hfits := list.size_fits
  have howner := list.sigSize_owner
  have hheader : listHeader data pos =
      ⟨guid list.sigType, list.size, list.header.length, list.sigSize⟩ := by
    rw [listHeader, hslice, Bytes.field_of_at hsize list.size_fits,
      Bytes.field_of_at hheaderSize (by omega), Bytes.field_of_at hsigSize list.sigSize_fits]
  have hwell : ¬ (listHeader data pos).Malformed data pos := by
    rw [hheader, ListHeader.Malformed]
    dsimp only
    rw [SignatureList.size] at *
    omega
  have hleft : pos + list.size - (pos + 28 + list.header.length) =
      list.entries.length * list.sigSize := by
    rw [SignatureList.size]
    omega
  rw [walk, if_pos (by rw [SignatureList.size] at hinside; omega),
    if_neg (by rw [SignatureList.size] at hinside; omega)]
  dsimp only
  rw [if_neg hwell, hheader]
  dsimp only
  rw [hleft, Nat.mul_mod_left, if_neg (by decide), List.nil_append, List.map_append, List.map_map,
    rangeStep_fits (by rw [SignatureList.size]; omega) (by omega), hleft,
    Nat.mul_div_cancel _ (by omega)]
  congr 1
  exact entries_of_at hentries list.entries_length (guid list.sigType)

/-- The lists of an array. -/
theorem walk_flatMap {lists : List SignatureList}
    (hat : At data pos (lists.flatMap SignatureList.bytes))
    (hend : pos + (lists.flatMap SignatureList.bytes).length = data.length) :
    (walk data pos).map (Visit.seen data) = lists.flatMap SignatureList.seen := by
  induction lists generalizing pos with
  | nil =>
      rw [walk, if_neg (by simpa using hend.ge)]
      rfl
  | cons list rest ih =>
      rw [List.flatMap_cons] at hat hend ⊢
      rw [List.length_append] at hend
      obtain ⟨hfirst, hrest⟩ := Bytes.at_append.mp hat
      rw [walk_of_at hfirst, ih hrest (by omega)]

end RoundTrip

/-! ## What is no array -/

section Converse

variable {data : Bytes} {pos : ℕ}

/-- Slices of one length in a row. -/
theorem flatten_slices (data : Bytes) (first size count : ℕ) :
    ((List.range count).map fun i =>
        Bytes.slice data (first + size * i) (first + size * i + size)).flatten =
      Bytes.slice data first (first + count * size) := by
  induction count with
  | zero => simp [Bytes.slice]
  | succ count ih =>
      rw [List.range_succ, List.map_append, List.flatten_append, ih, List.map_singleton,
        List.flatten_singleton, Nat.mul_comm size count,
        Bytes.slice_append_slice (by omega) (by omega), Nat.succ_mul, Nat.add_assoc]

theorem ofNat_field {off : ℕ} (hinside : off + 4 ≤ data.length) :
    Bytes.ofNat .little 4 (Bytes.field .little 4 data off) = Bytes.slice data off (off + 4) := by
  have hback := Bytes.ofNat_toNat .little (Bytes.slice data off (off + 4))
  rwa [Bytes.length_slice_of_le hinside, Nat.add_sub_cancel_left] at hback

/-- A list without a fault, as one that was stored. -/
theorem stored_of_wellFormed (hwell : ¬ (listHeader data pos).Malformed data pos)
    (hwhole : ((listHeader data pos).listSize - (28 + (listHeader data pos).headerSize)) %
      (listHeader data pos).sigSize = 0) :
    ∃ list : SignatureList,
      list.bytes = Bytes.slice data pos (pos + (listHeader data pos).listSize) := by
  simp only [ListHeader.Malformed, not_or, not_lt] at hwell
  have hdvd := Nat.div_mul_cancel (Nat.dvd_of_mod_eq_zero hwhole)
  have hlistSize : (listHeader data pos).listSize < 2 ^ 32 := Bytes.field_lt .little 4 data _
  have hsigSize : (listHeader data pos).sigSize < 2 ^ 32 := Bytes.field_lt .little 4 data _
  -- The fields of the list that is to be found, under short names.
  obtain ⟨count, hcount⟩ : ∃ count, count =
      ((listHeader data pos).listSize - (28 + (listHeader data pos).headerSize)) /
        (listHeader data pos).sigSize := ⟨_, rfl⟩
  rw [← hcount] at hdvd
  let first := pos + 28 + (listHeader data pos).headerSize
  have hfirst : first = pos + 28 + (listHeader data pos).headerSize := rfl
  have hentry : ∀ i < count, first + (listHeader data pos).sigSize * i +
      (listHeader data pos).sigSize ≤ pos + (listHeader data pos).listSize := by
    intro i hi
    have hmul : (i + 1) * (listHeader data pos).sigSize ≤ count * (listHeader data pos).sigSize :=
      Nat.mul_le_mul_right _ hi
    rw [Nat.succ_mul, Nat.mul_comm i] at hmul
    omega
  have hheader : (Bytes.slice data (pos + 28) first).length = (listHeader data pos).headerSize := by
    rw [Bytes.length_slice_of_le (by omega)]
    omega
  have hentries : ((List.range count).map fun i => Bytes.slice data
      (first + (listHeader data pos).sigSize * i)
      (first + (listHeader data pos).sigSize * i + (listHeader data pos).sigSize)).length =
        count := by
    rw [List.length_map, List.length_range]
  refine ⟨⟨Bytes.slice data pos (pos + 16), Bytes.slice data (pos + 28) first,
    (listHeader data pos).sigSize, (List.range count).map fun i => Bytes.slice data
      (first + (listHeader data pos).sigSize * i)
      (first + (listHeader data pos).sigSize * i + (listHeader data pos).sigSize),
    ?_, hwell.2.2.1, ?_, hsigSize, ?_⟩, ?_⟩
  · rw [Bytes.length_slice_of_le (by omega), Nat.add_sub_cancel_left]
  · intro entry hmem
    obtain ⟨i, hi, rfl⟩ := List.mem_map.mp hmem
    have hle := hentry i (List.mem_range.mp hi)
    rw [Bytes.length_slice_of_le (by omega), Nat.add_sub_cancel_left]
  · rw [hheader, hentries]
    omega
  · have hsize : 28 + (listHeader data pos).headerSize + count * (listHeader data pos).sigSize =
        (listHeader data pos).listSize := by omega
    rw [SignatureList.bytes, SignatureList.size]
    dsimp only
    rw [hheader, hentries, hsize, flatten_slices]
    have hstop : first + count * (listHeader data pos).sigSize =
        pos + (listHeader data pos).listSize := by omega
    have hlist : Bytes.ofNat .little 4 (listHeader data pos).listSize =
        Bytes.slice data (pos + 16) (pos + 20) := ofNat_field (by omega)
    have hhead : Bytes.ofNat .little 4 (listHeader data pos).headerSize =
        Bytes.slice data (pos + 20) (pos + 24) := ofNat_field (by omega)
    have hsig : Bytes.ofNat .little 4 (listHeader data pos).sigSize =
        Bytes.slice data (pos + 24) (pos + 28) := ofNat_field (by omega)
    rw [hstop, hlist, hhead, hsig]
    -- Six slices in a row, from the last two on.
    repeat rw [Bytes.slice_append_slice (by omega) (by omega)]

/-- Where nothing is wrong, there is an array. -/
theorem array_of_walk (hright : ∀ error, .error error ∉ walk data pos) :
    ∃ lists : List SignatureList, data.drop pos = lists.flatMap SignatureList.bytes := by
  fun_induction walk data pos with
  | case1 => simp at hright
  | case2 => simp at hright
  | case3 pos hmore htruncated header stop first hmalformed ih =>
      have hrest : ∀ error, .error error ∉ walk data stop := fun error hmem =>
        hright error (List.mem_append_right _ hmem)
      have hwhole : (stop - first) % header.sigSize = 0 := by
        by_contra hpartial
        refine hright (.partialEntry pos) ?_
        rw [if_pos hpartial]
        simp
      obtain ⟨lists, hlists⟩ := ih hrest
      have hsizes : stop - first = header.listSize - (28 + header.headerSize) := by
        have hstop : stop = pos + header.listSize := rfl
        have hfirst : first = pos + 28 + header.headerSize := rfl
        omega
      rw [hsizes] at hwhole
      obtain ⟨list, hlist⟩ := stored_of_wellFormed hmalformed hwhole
      refine ⟨list :: lists, ?_⟩
      rw [List.flatMap_cons, ← hlists, hlist]
      exact (Bytes.slice_append_drop (Nat.le_add_right _ _)).symm
  | case4 pos hmore => exact ⟨[], List.drop_eq_nil_of_le (by omega)⟩

end Converse

/-! ## Names of types -/

theorem hexByte_toList (byte : ℕ) :
    (hexByte byte).toList = [Nat.digitChar (byte / 16), Nat.digitChar (byte % 16)] := by
  simp [hexByte]

theorem length_hexText (bytes : Bytes) : (hexText bytes).length = 2 * bytes.length := by
  induction bytes with
  | nil => rfl
  | cons byte rest ih =>
      have hcons : hexText (byte :: rest) = (hexByte byte.toNat).toList ++ hexText rest := rfl
      rw [hcons, List.length_append, ih, hexByte_toList, List.length_cons]
      simp only [List.length_cons, List.length_nil]
      omega

theorem hexText_injective : Function.Injective hexText := by
  have hdigit : ∀ m n : Fin 16, Nat.digitChar m = Nat.digitChar n → m = n := by decide
  intro first
  induction first with
  | nil =>
      intro second hsame
      have hlength := congrArg List.length hsame
      rw [length_hexText, length_hexText] at hlength
      exact (List.length_eq_zero_iff.mp (by simpa using hlength.symm)).symm
  | cons byte rest ih =>
      intro second hsame
      cases second with
      | nil =>
          have hlength := congrArg List.length hsame
          rw [length_hexText, length_hexText] at hlength
          simp at hlength
      | cons other others =>
          have hcons : (hexByte byte.toNat).toList ++ hexText rest =
              (hexByte other.toNat).toList ++ hexText others := hsame
          rw [hexByte_toList, hexByte_toList] at hcons
          have hbyte : byte.toNat < 256 := byte.toNat_lt
          have hother : other.toNat < 256 := other.toNat_lt
          obtain ⟨hhigh, hcons⟩ := List.cons.inj hcons
          obtain ⟨hlow, hrest⟩ := List.cons.inj hcons
          have hhigh : byte.toNat / 16 = other.toNat / 16 := congrArg Fin.val
            (hdigit ⟨byte.toNat / 16, by omega⟩ ⟨other.toNat / 16, by omega⟩ hhigh)
          have hlow : byte.toNat % 16 = other.toNat % 16 := congrArg Fin.val
            (hdigit ⟨byte.toNat % 16, by omega⟩ ⟨other.toNat % 16, by omega⟩ hlow)
          have hsame : byte = other := UInt8.toNat_inj.mp (by omega)
          rw [hsame, ih hrest]

/-- Types with the same text are the same. -/
theorem guid_injective {first second : Bytes} (hfirst : first.length = 16)
    (hsecond : second.length = 16) (hsame : guid first = guid second) : first = second := by
  have hpart : ∀ {start stop : ℕ} {rest others : List Char}, stop ≤ 16 →
      hexText (Bytes.slice first start stop) ++ rest =
        hexText (Bytes.slice second start stop) ++ others →
      Bytes.slice first start stop = Bytes.slice second start stop ∧ rest = others := by
    intro start stop rest others hstop happend
    obtain ⟨hpart, hrest⟩ := List.append_inj happend (by
      rw [length_hexText, length_hexText, Bytes.length_slice_of_le (by omega),
        Bytes.length_slice_of_le (by omega)])
    exact ⟨hexText_injective hpart, hrest⟩
  have hback : ∀ {start stop : ℕ} {rest others : List Char}, stop ≤ 16 →
      hexText (Bytes.slice first start stop).reverse ++ rest =
        hexText (Bytes.slice second start stop).reverse ++ others →
      Bytes.slice first start stop = Bytes.slice second start stop ∧ rest = others := by
    intro start stop rest others hstop happend
    obtain ⟨hpart, hrest⟩ := List.append_inj happend (by
      rw [length_hexText, length_hexText, List.length_reverse, List.length_reverse,
        Bytes.length_slice_of_le (by omega), Bytes.length_slice_of_le (by omega)])
    exact ⟨List.reverse_injective (hexText_injective hpart), hrest⟩
  obtain ⟨htimeLow, hrest⟩ := hback (by decide) hsame
  obtain ⟨htimeMid, hrest⟩ := hback (by decide) (List.cons.inj hrest).2
  obtain ⟨htimeHigh, hrest⟩ := hback (by decide) (List.cons.inj hrest).2
  obtain ⟨hclock, hrest⟩ := hpart (by decide) (List.cons.inj hrest).2
  have hnode := hexText_injective (List.cons.inj hrest).2
  have hsplit : ∀ raw : Bytes, raw.length = 16 → raw = Bytes.slice raw 0 4 ++
      (Bytes.slice raw 4 6 ++ (Bytes.slice raw 6 8 ++ (Bytes.slice raw 8 10 ++
        Bytes.slice raw 10 16))) := by
    intro raw hraw
    rw [Bytes.slice_append_slice (by decide) (by decide),
      Bytes.slice_append_slice (by decide) (by decide),
      Bytes.slice_append_slice (by decide) (by decide),
      Bytes.slice_append_slice (by decide) (by decide), ← hraw, Bytes.slice_all]
  rw [hsplit first hfirst, hsplit second hsecond, htimeLow, htimeMid, htimeHigh, hclock, hnode]

/-! ## The accounts -/

section Accounts

variable (parse : Bytes → Except Fault Certificate)

/-- The data of the entries of a type. -/
def payloads (name : List Char) (seen : List Seen) : List Bytes :=
  seen.filterMap fun
    | .entry sigType payload => if sigType = name then some payload else none
    | .error _ => none

/-- The certificate of an entry. -/
def certificateOf (payload : Bytes) : Option CertSummary :=
  match parse payload with
  | .ok cert => some (certSummary cert)
  | .error _ => none

/-- The error that is reported there, if any. -/
def errorOf : Seen → Option ListError
  | .entry sigType payload =>
      if sigType = efiCertX509 then
        match parse payload with
        | .error (.der message) => some (.unparsable message)
        | _ => none
      else none
  | .error fault => some fault

/-- A type that is only counted. -/
def IsOther (name : List Char) : Prop :=
  name ≠ efiCertX509 ∧ name ≠ efiCertSha256 ∧ name ≠ efiCertRsa2048

/-- Everything that is seen is in one account. -/
structure Accounted (seen : List Seen) (parsed : SignatureDatabase) : Prop where
  certificates : parsed.certificates = (payloads efiCertX509 seen).filterMap (certificateOf parse)
  errors : parsed.errors = seen.filterMap (errorOf parse)
  sha256Hashes : parsed.sha256Hashes = (payloads efiCertSha256 seen).length
  rsa2048Keys : parsed.rsa2048Keys = (payloads efiCertRsa2048 seen).length
  other : ∀ name, IsOther name →
    parsed.otherEntries.count name = (payloads name seen).length
  total : parsed.certificates.length + parsed.errors.length + parsed.sha256Hashes +
    parsed.rsa2048Keys + parsed.otherEntries.total = seen.length

/-- The certificates that are seen can be parsed, or are refused with `DERError`. -/
def DerOnly (seen : List Seen) : Prop :=
  ∀ payload ∈ payloads efiCertX509 seen, FailsOnly Fault.IsDerError (parse payload)

variable {parse}

theorem Accounted.nil : Accounted parse [] ⟨[], 0, 0, .empty, []⟩ where
  certificates := rfl
  errors := rfl
  sha256Hashes := rfl
  rsa2048Keys := rfl
  other _ _ := rfl
  total := rfl

theorem payloads_concat (name : List Char) (seen : List Seen) (sigType : List Char)
    (payload : Bytes) : payloads name (seen ++ [.entry sigType payload]) =
      payloads name seen ++ if sigType = name then [payload] else [] := by
  rw [payloads, List.filterMap_append]
  congr 1
  by_cases hname : sigType = name <;> simp [hname]

theorem payloads_concat_error (name : List Char) (seen : List Seen) (fault : ListError) :
    payloads name (seen ++ [.error fault]) = payloads name seen := by
  simp [payloads, List.filterMap_append]

/-- An entry that is no certificate. -/
theorem Accounted.counted {seen : List Seen} {parsed : SignatureDatabase} {sigType : List Char}
    (haccounted : Accounted parse seen parsed) (hcert : sigType ≠ efiCertX509) (payload : Bytes) :
    ∃ after, signatureEntry parse sigType payload parsed = .ok after ∧
      Accounted parse (seen ++ [.entry sigType payload]) after := by
  have hcertificates : payloads efiCertX509 (seen ++ [.entry sigType payload]) =
      payloads efiCertX509 seen := by
    rw [payloads_concat, if_neg hcert, List.append_nil]
  have herrors : (seen ++ [Seen.entry sigType payload]).filterMap (errorOf parse) =
      seen.filterMap (errorOf parse) := by
    simp [List.filterMap_append, errorOf, hcert]
  have htotal := haccounted.total
  rw [signatureEntry, if_neg hcert]
  by_cases hsha : sigType = efiCertSha256
  · refine ⟨_, if_pos hsha, ?_⟩
    have hrsa : sigType ≠ efiCertRsa2048 := by
      rw [hsha]
      decide
    constructor
    · rw [hcertificates, haccounted.certificates]
    · rw [herrors, haccounted.errors]
    · rw [payloads_concat, if_pos hsha, List.length_append, haccounted.sha256Hashes]
      rfl
    · rw [payloads_concat, if_neg hrsa, List.append_nil, haccounted.rsa2048Keys]
    · intro name hother
      rw [payloads_concat, if_neg (by rw [hsha]; exact hother.2.1.symm), List.append_nil]
      exact haccounted.other name hother
    · rw [List.length_append, List.length_singleton, ← htotal]
      dsimp only
      omega
  rw [if_neg hsha]
  by_cases hrsa : sigType = efiCertRsa2048
  · refine ⟨_, if_pos hrsa, ?_⟩
    constructor
    · rw [hcertificates, haccounted.certificates]
    · rw [herrors, haccounted.errors]
    · rw [payloads_concat, if_neg hsha, List.append_nil, haccounted.sha256Hashes]
    · rw [payloads_concat, if_pos hrsa, List.length_append, haccounted.rsa2048Keys]
      rfl
    · intro name hother
      rw [payloads_concat, if_neg (by rw [hrsa]; exact hother.2.2.symm), List.append_nil]
      exact haccounted.other name hother
    · rw [List.length_append, List.length_singleton, ← htotal]
      dsimp only
      omega
  · refine ⟨_, if_neg hrsa, ?_⟩
    constructor
    · rw [hcertificates, haccounted.certificates]
    · rw [herrors, haccounted.errors]
    · rw [payloads_concat, if_neg hsha, List.append_nil, haccounted.sha256Hashes]
    · rw [payloads_concat, if_neg hrsa, List.append_nil, haccounted.rsa2048Keys]
    · intro name hother
      rw [payloads_concat, Dict.count_bump, haccounted.other name hother, List.length_append]
      by_cases hname : sigType = name
      · rw [if_pos hname, if_pos hname.symm]
        rfl
      · rw [if_neg hname, if_neg (Ne.symm hname)]
        rfl
    · rw [List.length_append, List.length_singleton, ← htotal]
      dsimp only
      rw [Dict.total_bump]
      omega

/-- An entry with a certificate. -/
theorem Accounted.certificate {seen : List Seen} {parsed : SignatureDatabase}
    (haccounted : Accounted parse seen parsed) {payload : Bytes}
    (hder : FailsOnly Fault.IsDerError (parse payload)) :
    ∃ after, signatureEntry parse efiCertX509 payload parsed = .ok after ∧
      Accounted parse (seen ++ [.entry efiCertX509 payload]) after := by
  have hothers : ∀ name, name ≠ efiCertX509 →
      payloads name (seen ++ [.entry efiCertX509 payload]) = payloads name seen := by
    intro name hname
    rw [payloads_concat, if_neg hname.symm, List.append_nil]
  have htotal := haccounted.total
  rw [signatureEntry, if_pos rfl]
  cases hparse : parse payload with
  | ok cert =>
      refine ⟨_, rfl, ?_⟩
      constructor
      · rw [payloads_concat, if_pos rfl, List.filterMap_append, ← haccounted.certificates]
        simp [certificateOf, hparse]
      · rw [List.filterMap_append, ← haccounted.errors]
        simp [errorOf, hparse]
      · rw [hothers _ (by decide), haccounted.sha256Hashes]
      · rw [hothers _ (by decide), haccounted.rsa2048Keys]
      · intro name hother
        rw [hothers _ hother.1]
        exact haccounted.other name hother
      · simp only [List.length_append, List.length_singleton]
        omega
  | error fault =>
      cases fault with
      | der message =>
          refine ⟨_, rfl, ?_⟩
          constructor
          · rw [payloads_concat, if_pos rfl, List.filterMap_append, SignatureDatabase.addError,
              ← haccounted.certificates]
            simp [certificateOf, hparse]
          · rw [List.filterMap_append, SignatureDatabase.addError, ← haccounted.errors]
            simp [errorOf, hparse]
          · rw [hothers _ (by decide), SignatureDatabase.addError, haccounted.sha256Hashes]
          · rw [hothers _ (by decide), SignatureDatabase.addError, haccounted.rsa2048Keys]
          · intro name hother
            rw [hothers _ hother.1]
            exact haccounted.other name hother
          · simp only [SignatureDatabase.addError, List.length_append, List.length_singleton]
            omega
      | valueError => exact (hder _ hparse).elim
      | indexError => exact (hder _ hparse).elim

/-- Something that is wrong. -/
theorem Accounted.fault {seen : List Seen} {parsed : SignatureDatabase}
    (haccounted : Accounted parse seen parsed) (fault : ListError) :
    Accounted parse (seen ++ [.error fault]) (parsed.addError fault) where
  certificates := by
    rw [payloads_concat_error]
    exact haccounted.certificates
  errors := by
    rw [List.filterMap_append, SignatureDatabase.addError, haccounted.errors]
    rfl
  sha256Hashes := by
    rw [payloads_concat_error]
    exact haccounted.sha256Hashes
  rsa2048Keys := by
    rw [payloads_concat_error]
    exact haccounted.rsa2048Keys
  other name hother := by
    rw [payloads_concat_error]
    exact haccounted.other name hother
  total := by
    have htotal := haccounted.total
    simp only [SignatureDatabase.addError, List.length_append, List.length_singleton]
    omega

/-- One thing more. -/
theorem Accounted.snoc {seen : List Seen} {parsed : SignatureDatabase}
    (haccounted : Accounted parse seen parsed) {next : Seen}
    (hder : ∀ payload, next = .entry efiCertX509 payload →
      FailsOnly Fault.IsDerError (parse payload)) :
    ∃ after, account parse parsed next = .ok after ∧ Accounted parse (seen ++ [next]) after := by
  cases next with
  | error fault => exact ⟨_, rfl, haccounted.fault fault⟩
  | entry sigType payload =>
      by_cases hcert : sigType = efiCertX509
      · subst hcert
        exact haccounted.certificate (hder payload rfl)
      · exact haccounted.counted hcert payload

/-- What is made of all that is seen. -/
theorem accounted_foldlM {seen : List Seen} (hder : DerOnly parse seen) :
    ∃ parsed, seen.foldlM (account parse) ⟨[], 0, 0, .empty, []⟩ = .ok parsed ∧
      Accounted parse seen parsed := by
  induction seen using List.reverseRecOn with
  | nil => exact ⟨_, rfl, .nil⟩
  | append_singleton seen next ih =>
      have hfirst : DerOnly parse seen := by
        intro payload hpayload
        refine hder payload ?_
        rw [payloads, List.filterMap_append]
        exact List.mem_append_left _ hpayload
      obtain ⟨parsed, hparsed, haccounted⟩ := ih hfirst
      obtain ⟨after, hafter, haccounted⟩ := haccounted.snoc fun payload (hnext : next = _) => by
        refine hder payload ?_
        rw [payloads, List.filterMap_append, hnext]
        simp
      refine ⟨after, ?_, haccounted⟩
      rw [List.foldlM_append, hparsed, ok_bind, List.foldlM_cons, hafter]
      rfl

end Accounts

/-! ## Soundness and completeness -/

/-- `parse_signature_lists` with `parse_certificate`. -/
def parseDatabase (sha256 : Bytes → String) (data : Bytes) : Except Fault SignatureDatabase :=
  parseSignatureLists (fun der => (parseCertificate python sha256 der).ended) data

/-- The number of entries of a type in an array. -/
def entriesOfType (raw : Bytes) (lists : List SignatureList) : ℕ :=
  ((lists.filter (·.sigType = raw)).map (·.entries.length)).sum

theorem length_payloads_flatMap {raw : Bytes} (hraw : raw.length = 16)
    (lists : List SignatureList) :
    (payloads (guid raw) (lists.flatMap SignatureList.seen)).length = entriesOfType raw lists := by
  induction lists with
  | nil => rfl
  | cons list rest ih =>
      have hsplit : payloads (guid raw) (list.seen ++ rest.flatMap SignatureList.seen) =
          payloads (guid raw) list.seen ++ payloads (guid raw) (rest.flatMap SignatureList.seen) :=
        List.filterMap_append
      rw [List.flatMap_cons, hsplit, List.length_append, ih, entriesOfType, entriesOfType]
      by_cases htype : list.sigType = raw
      · have hall : payloads (guid raw) list.seen = list.entries.map (·.drop 16) := by
          simp [payloads, SignatureList.seen, List.filterMap_map, htype]
        rw [hall, List.length_map, List.filter_cons_of_pos (by simpa using htype), List.map_cons,
          List.sum_cons]
      · have hname : guid list.sigType ≠ guid raw := fun hsame =>
          htype (guid_injective list.sigType_length hraw hsame)
        have hnone : payloads (guid raw) list.seen = [] := by
          simp [payloads, SignatureList.seen, hname]
        rw [hnone, List.filter_cons_of_neg (by simpa using htype), List.length_nil, Nat.zero_add]

/-- **Accounting and errors**: in an array of signature lists every entry is in one account, and
nothing is wrong but certificates, if `parse_certificate` raises nothing but `DERError` for them; of
any bytes only entries inside the buffer are visited; and if it raises nothing else for those,
nothing is raised, and without an error the bytes are an array. -/
theorem parseSignatureLists_accounts (sha256 : Bytes → String) :
    let parse := fun der => (parseCertificate python sha256 der).ended
    (∀ lists : List SignatureList, DerOnly parse (lists.flatMap SignatureList.seen) →
      ∃ parsed, parseDatabase sha256 (lists.flatMap SignatureList.bytes) = .ok parsed ∧
        Accounted parse (lists.flatMap SignatureList.seen) parsed ∧
        (∀ raw, raw.length = 16 → IsOther (guid raw) →
          parsed.otherEntries.count (guid raw) = entriesOfType raw lists) ∧
        ∀ error ∈ parsed.errors, ∃ message, error = .unparsable message) ∧
    ∀ data, parseDatabase sha256 data =
        ((walk data 0).map (Visit.seen data)).foldlM (account parse) ⟨[], 0, 0, .empty, []⟩ ∧
      (∀ visit ∈ walk data 0, visit.Inside data) ∧
      (DerOnly parse ((walk data 0).map (Visit.seen data)) →
        ∃ parsed, parseDatabase sha256 data = .ok parsed ∧
          (parsed.errors = [] →
            ∃ lists : List SignatureList, data = lists.flatMap SignatureList.bytes)) := by
  intro parse
  constructor
  · intro lists hder
    obtain ⟨parsed, hparsed, haccounted⟩ := accounted_foldlM hder
    refine ⟨parsed, ?_, haccounted, fun raw hraw hother => ?_, fun error herror => ?_⟩
    · rw [parseDatabase, parseSignatureLists_eq_walk,
        walk_flatMap (Bytes.at_zero _) (Nat.zero_add _)]
      exact hparsed
    · rw [haccounted.other _ hother, length_payloads_flatMap hraw]
    · rw [haccounted.errors] at herror
      obtain ⟨seen, hseen, hof⟩ := List.mem_filterMap.mp herror
      obtain ⟨list, -, hlist⟩ := List.mem_flatMap.mp hseen
      obtain ⟨entry, -, rfl⟩ := List.mem_map.mp hlist
      rw [errorOf] at hof
      split at hof
      · split at hof
        · exact ⟨_, (Option.some.inj hof).symm⟩
        · cases hof
      · cases hof
  · refine fun data => ⟨parseSignatureLists_eq_walk parse, walk_inside, fun hder => ?_⟩
    obtain ⟨parsed, hparsed, haccounted⟩ := accounted_foldlM hder
    refine ⟨parsed, (parseSignatureLists_eq_walk parse).trans hparsed, fun hnone => ?_⟩
    have hright : ∀ error, .error error ∉ walk data 0 := by
      intro error hmem
      have herror : error ∈ parsed.errors := by
        rw [haccounted.errors]
        refine List.mem_filterMap.mpr ⟨.error error, ?_, rfl⟩
        exact List.mem_map.mpr ⟨_, hmem, rfl⟩
      rw [hnone] at herror
      cases herror
    exact array_of_walk hright

/-- A list of two hashes. -/
def hashList : SignatureList where
  sigType := [0x26, 0x16, 0xC4, 0xC1, 0x4C, 0x50, 0x92, 0x40, 0xAC, 0xA9, 0x41, 0xF9, 0x36, 0x93,
    0x43, 0x28]
  header := []
  sigSize := 48
  entries := [List.replicate 48 1, List.replicate 48 2]
  sigType_length := rfl
  sigSize_owner := by decide
  entries_length := by decide
  sigSize_fits := by decide
  size_fits := by decide

/-- A list with one certificate, which is cut off. -/
def cutList : SignatureList where
  sigType := [0xA1, 0x59, 0xC0, 0xA5, 0xE4, 0x94, 0xA7, 0x4A, 0x87, 0xB5, 0xAB, 0x15, 0x5C, 0x2B,
    0xF0, 0x72]
  header := [0, 0]
  sigSize := 17
  entries := [List.replicate 16 0 ++ [0x30]]
  sigType_length := rfl
  sigSize_owner := by decide
  entries_length := by decide
  sigSize_fits := by decide
  size_fits := by decide

theorem parseSignatureLists_accounts_cut :
    ∃ parsed message,
      parseDatabase (fun _ => "") ([hashList, cutList].flatMap SignatureList.bytes) = .ok parsed ∧
        parsed.sha256Hashes = 2 ∧ parsed.certificates = [] ∧
        parsed.errors = [.unparsable message] := by
  have hseen : [hashList, cutList].flatMap SignatureList.seen =
      [.entry efiCertSha256 (List.replicate 32 1), .entry efiCertSha256 (List.replicate 32 2),
        .entry efiCertX509 [0x30]] := by
    rfl
  have hcut : payloads efiCertX509 ([hashList, cutList].flatMap SignatureList.seen) = [[0x30]] := by
    rw [hseen]
    decide
  obtain ⟨message, hparse⟩ : ∃ message, (parseCertificate python (fun _ => "") [0x30]).ended =
      .error (.der message) := ⟨_, rfl⟩
  obtain ⟨parsed, hparsed, haccounted, -, -⟩ :=
    (parseSignatureLists_accounts fun _ => "").1 [hashList, cutList] (by
      intro payload hpayload fault hfault
      rw [hcut, List.mem_singleton] at hpayload
      rw [hpayload] at hfault
      obtain rfl := Except.error.inj (hparse.symm.trans hfault)
      trivial)
  refine ⟨parsed, message, hparsed, ?_, ?_, ?_⟩
  · rw [haccounted.sha256Hashes, hseen]
    decide
  · rw [haccounted.certificates, hcut, List.filterMap_cons, certificateOf, hparse]
    rfl
  · have hnone : ∀ payload, errorOf (fun der => (parseCertificate python (fun _ => "") der).ended)
        (.entry efiCertSha256 payload) = none := by
      intro payload
      rw [errorOf, if_neg (by decide)]
    have herror : errorOf (fun der => (parseCertificate python (fun _ => "") der).ended)
        (.entry efiCertX509 [0x30]) = some (.unparsable message) := by
      rw [errorOf, if_pos rfl, hparse]
    rw [haccounted.errors, hseen, List.filterMap_cons_none (hnone _),
      List.filterMap_cons_none (hnone _), List.filterMap_cons_some herror, List.filterMap_nil]

end PqcReadiness.Boot
