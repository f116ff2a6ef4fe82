import Mathlib.Tactic.IntervalCases
import PqcReadiness.Certs.Conversions
import PqcReadiness.Certs.Encode

/-!
# Reading what was encoded

`parse_certificate` on the encoding of a certificate.

## Strategy

Each reader has a lemma about the element that it reads, at any position of any buffer
(`StandsAt`), for the intended conversions.  Together they give the whole run of the parser
(`parseCertificate_encode`): what it converts, and the record that it returns.  The program
returns the same record if everything converts, and raises otherwise.
-/

namespace PqcReadiness.Certs

open PqcReadiness.Lib PqcReadiness.Lib.Bytes PqcReadiness.Lib.Asn1

/-! ## Elements -/

section Elements

variable {buf content : Bytes} {pos stop : ℕ} {tag : UInt8}

theorem byteAt_standsAt {byte : UInt8} {rest : Bytes} (hstands : StandsAt buf pos (byte :: rest)) :
    byteAt buf pos = .ok byte.toNat := by
  rw [byteAt, hstands.getElem?]

/-- An element is read where it stands. -/
theorem derTlv_element (hstands : StandsAt buf pos (element tag content))
    (hfits : pos + (element tag content).length ≤ stop) (htag : tag.toNat % 0x20 ≠ 0x1F)
    (hsize : content.length < 2 ^ 32) :
    derTlv buf pos stop = .ok ⟨tag.toNat, pos + (header tag content).length,
      pos + (element tag content).length⟩ := by
  have hheader := header_length_pos tag content
  rw [length_element] at hfits
  have htagByte : byteAt buf pos = .ok tag.toNat := byteAt_standsAt hstands.left
  rw [derTlv, raiseIf_of_not (by omega), ok_bind, htagByte, ok_bind, raiseIf_of_not htag, ok_bind]
  have hlength : StandsAt buf (pos + 1) (lengthBytes content.length) := hstands.left.tail
  rw [length_element]
  unfold header at hfits ⊢
  rw [List.length_cons] at hfits ⊢
  by_cases hshort : content.length < 0x80
  · have hbytes : lengthBytes content.length = [UInt8.ofNat content.length] := if_pos hshort
    rw [hbytes] at hlength hfits ⊢
    have hfirst : (UInt8.ofNat content.length).toNat = content.length := by
      rw [UInt8.toNat_ofNat']
      omega
    rw [byteAt_standsAt hlength, ok_bind, hfirst, if_pos hshort, elementAt]
    simp only [List.length_cons, List.length_nil] at hfits ⊢
    rw [raiseIf_of_not (by omega), ok_bind]
    exact congrArg (fun stop => Except.ok (Tlv.mk tag.toNat (pos + 2) stop)) (by omega)
  · have hbytes : lengthBytes content.length = UInt8.ofNat (0x80 + byteWidth content.length) ::
        ofNat .big (byteWidth content.length) content.length := if_neg hshort
    have hwide : byteWidth content.length ≤ 4 := byteWidth_le (by simpa using hsize)
    have hpositive : 0 < byteWidth content.length := byteWidth_pos (by omega)
    rw [hbytes] at hlength hfits ⊢
    have hfirst : (UInt8.ofNat (0x80 + byteWidth content.length)).toNat =
        0x80 + byteWidth content.length := by
      rw [UInt8.toNat_ofNat']
      omega
    have hwidth : (0x80 + byteWidth content.length) % 0x80 = byteWidth content.length := by omega
    have hnumber := hlength.tail.slice
    rw [length_ofNat] at hnumber
    simp only [List.length_cons, length_ofNat] at hfits ⊢
    rw [byteAt_standsAt hlength, ok_bind, hfirst, if_neg (by omega), hwidth,
      raiseIf_of_not (by omega), ok_bind, raiseIf_of_not (by omega), ok_bind, hnumber,
      toNat_ofNat (lt_pow_byteWidth _), elementAt, raiseIf_of_not (by omega), ok_bind]
    exact congrArg₂ (fun start stop => Except.ok (Tlv.mk tag.toNat start stop)) (by omega) (by omega)

/-- Reading the first of several parts. -/
structure ReadsElement (buf : Bytes) (pos stop : ℕ) (tag : UInt8) (content rest : Bytes)
    (start after : ℕ) : Prop where
  read : derTlv buf pos stop = .ok ⟨tag.toNat, start, after⟩
  inside : Encloses buf start after content
  behind : Encloses buf after stop rest

theorem ReadsElement.value {rest : Bytes} {start after : ℕ}
    (hreads : ReadsElement buf pos stop tag content rest start after) :
    valueOf buf ⟨tag.toNat, start, after⟩ = content :=
  hreads.inside.slice

/-- The first part is read, and what follows it is left. -/
theorem readsElement {rest : Bytes} (hencloses : Encloses buf pos stop (element tag content ++ rest))
    (htag : tag.toNat % 0x20 ≠ 0x1F) :
    ∃ start after, ReadsElement buf pos stop tag content rest start after := by
  have hsmall := hencloses.small
  have hstop := hencloses.stop_eq
  rw [List.length_append] at hsmall hstop
  have hlength := length_element tag content
  refine ⟨_, _, derTlv_element hencloses.stands.left (by omega) htag (by omega),
    ⟨hencloses.stands.left.right, ?_, by omega⟩, ⟨hencloses.stands.right, by omega, by omega⟩⟩
  rw [hlength, Nat.add_assoc]

/-- The last part. -/
theorem readsLast (hencloses : Encloses buf pos stop (element tag content))
    (htag : tag.toNat % 0x20 ≠ 0x1F) :
    ∃ start after, ReadsElement buf pos stop tag content [] start after := by
  rw [← List.append_nil (element tag content)] at hencloses
  exact readsElement hencloses htag

theorem elements_body {σ : Type} {use : Tlv → σ → Reader σ} {read : Tlv} {log : List Conversion}
    {state after : σ} (hread : derTlv buf pos stop = .ok read)
    (huse : use read state = ⟨log, .ok after⟩) :
    (elements buf stop use).body pos state = ⟨log, .ok (read.stop, after)⟩ := by
  have hbody : (elements buf stop use).body pos state = (do
      let read ← derTlv buf pos stop
      let after ← use read state
      return (read.stop, after)) := rfl
  rw [hbody, Gen.lift_bind_ok hread]
  exact Gen.bind_pure_eq huse

/-- The loop over encoded elements, of which each has its conversions and its effect. -/
theorem readElements_flatMap {σ τ : Type} {use : Tlv → σ → Reader σ} {encode : τ → Bytes}
    {convert : τ → List Conversion} {effect : σ → τ → σ} {xs : List τ} {start : ℕ} (state : σ)
    (hbody : ∀ x ∈ xs, ∀ pos rest state, Encloses buf pos stop (encode x ++ rest) →
      ∃ after, (elements buf stop use).body pos state = ⟨convert x, .ok (after, effect state x)⟩ ∧
        Encloses buf after stop rest)
    (hencloses : Encloses buf start stop (xs.flatMap encode)) :
    readElements buf start stop use state =
      ⟨xs.flatMap convert, .ok (xs.foldl effect state)⟩ := by
  induction xs generalizing start state with
  | nil =>
      have hend := hencloses.eq_of_nil
      exact Scan.run_of_ge (by omega)
  | cons x rest ih =>
      rw [List.flatMap_cons] at hencloses
      obtain ⟨after, hturn, hrest⟩ := hbody x List.mem_cons_self start _ state hencloses
      have hadvances : start < after :=
        (elements buf stop use).advances (congrArg Gen.ended hturn)
      have hinside := hrest.le
      have hloop := ih (effect state x) (fun y hy => hbody y (List.mem_cons_of_mem x hy)) hrest
      rw [readElements] at hloop ⊢
      rw [Scan.run_of_lt (by omega), hturn, Gen.bind_of_ok rfl]
      dsimp only
      rw [hloop]
      rfl

end Elements

/-! ## Object identifiers -/

theorem oidArcs_leadingGroups (arcs : List ℕ) (n : ℕ) (rest : Bytes) :
    oidArcs arcs 0 (leadingGroups n ++ rest) = oidArcs arcs n rest := by
  induction n using Nat.strong_induction_on generalizing rest with
  | _ n ih =>
      rw [leadingGroups]
      split
      · next hzero => rw [hzero, List.nil_append]
      · next hpositive =>
          rw [List.append_assoc, ih (n / 128) (Nat.div_lt_self (by omega) (by decide)),
            List.singleton_append, oidArcs]
          have hgroup : (UInt8.ofNat (0x80 + n % 128)).toNat = 0x80 + n % 128 := by
            rw [UInt8.toNat_ofNat']
            omega
          rw [hgroup, if_neg (by omega)]
          exact congrArg (fun bits => oidArcs arcs bits rest) (by omega)

theorem oidArcs_base128 (arcs : List ℕ) (arc : ℕ) (rest : Bytes) :
    oidArcs arcs 0 (base128 arc ++ rest) = oidArcs (arcs ++ [arc]) 0 rest := by
  have hgroup : (UInt8.ofNat (arc % 128)).toNat = arc % 128 := by
    rw [UInt8.toNat_ofNat']
    omega
  rw [base128, List.append_assoc, oidArcs_leadingGroups, List.singleton_append, oidArcs]
  rw [hgroup, if_pos (by omega)]
  exact congrArg (fun last => oidArcs (arcs ++ [last]) 0 rest) (by omega)

theorem oidArcs_flatMap (arcs rest : List ℕ) :
    oidArcs arcs 0 (rest.flatMap base128) = arcs ++ rest := by
  induction rest generalizing arcs with
  | nil =>
      rw [List.flatMap_nil, oidArcs, List.append_nil]
  | cons arc rest ih =>
      rw [List.flatMap_cons, oidArcs_base128, ih, List.append_assoc, List.singleton_append]

/-- An object identifier is read as it was written. -/
theorem derOid_content (oid : Oid) :
    derOid intended oid.content = ⟨[.oid oid.arcs], .ok (oidText oid)⟩ := by
  have htop := oid.top_le
  have hsecond := oid.second_lt
  have honeByte := oid.oneByte
  have hfirst : (UInt8.ofNat (40 * oid.top + oid.second)).toNat = 40 * oid.top + oid.second := by
    rw [UInt8.toNat_ofNat']
    omega
  have hwellFormed : ¬ (oid.content = [] ∨ 0x80 ≤ (oid.content.getLastD 0).toNat) := by
    have hlast := oid.content_last
    rintro (hempty | hunterminated)
    · cases hempty
    · omega
  have hbyte : byteAt oid.content 0 = .ok (40 * oid.top + oid.second) := by
    rw [← hfirst]
    rfl
  have hdiv : min ((40 * oid.top + oid.second) / 40) 2 = oid.top := by omega
  have hmod : 40 * oid.top + oid.second - 40 * oid.top = oid.second := by omega
  have hrest : oid.content.drop 1 = oid.rest.flatMap base128 := rfl
  rw [derOid, Gen.lift_bind_ok (raiseIf_of_not hwellFormed), Gen.lift_bind_ok hbyte,
    Gen.lift_bind_ok (raiseIf_of_not (by omega))]
  dsimp only
  rw [hdiv, hmod, hrest, oidArcs_flatMap]
  rfl

section Readers

variable {buf rest : Bytes} {pos stop : ℕ}

theorem derAlgorithmOid_encode {algorithm : SignatureAlgorithm}
    (hencloses : Encloses buf pos stop (algorithm.encode ++ rest)) :
    ∃ after, derAlgorithmOid intended buf pos stop =
        ⟨[.oid algorithm.oid.arcs], .ok (oidText algorithm.oid, after)⟩ ∧
      Encloses buf after stop rest := by
  obtain ⟨start, after, halgorithm⟩ := readsElement hencloses (by decide)
  obtain ⟨first, last, hobject⟩ := readsElement halgorithm.inside (by decide)
  refine ⟨after, ?_, halgorithm.behind⟩
  rw [derAlgorithmOid, Gen.lift_bind_ok halgorithm.read, Gen.lift_bind_ok (raiseIf_of_not (by simp))]
  dsimp only
  rw [Gen.lift_bind_ok hobject.read, Gen.lift_bind_ok (raiseIf_of_not (by simp)), hobject.value,
    derOid_content]
  rfl

/-! ## Names -/

/-- The text of an attribute. -/
def Attribute.text (attr : Attribute) : String :=
  (find (oidText attr.type) nameAttrs).getD (oidText attr.type) ++ "=" ++
    rfc4514Escape (derString attr.value.tag.toNat attr.value.content)

/-- The conversions of a relative distinguished name. -/
def rdnConversions (rdn : Rdn) : List Conversion := rdn.flatMap fun attr => [.oid attr.type.arcs]

/-- The text of a relative distinguished name. -/
def rdnTextOf (rdn : Rdn) : String :=
  join "+" (rdn.foldl (fun parts attr => parts ++ [attr.text]) [])

/-- The conversions of a name. -/
def nameConversions (name : List Rdn) : List Conversion := name.flatMap rdnConversions

/-- The text of a name. -/
def nameText (name : List Rdn) : String :=
  join "," (name.foldl (fun rdns rdn => rdns ++ [rdnTextOf rdn]) []).reverse

theorem attributeText_encode {attr : Attribute} {after : ℕ} {start : ℕ}
    (hencloses : Encloses buf start after (encodeOid attr.type ++ attr.value.encode)) :
    attributeText intended buf ⟨0x30, start, after⟩ = ⟨[.oid attr.type.arcs], .ok attr.text⟩ := by
  obtain ⟨first, last, htype⟩ := readsElement hencloses (by decide)
  obtain ⟨_, _, hvalue⟩ := readsLast htype.behind attr.value.lowTag
  rw [attributeText, Gen.lift_bind_ok (raiseIf_of_not (by simp)), Gen.lift_bind_ok htype.read,
    Gen.lift_bind_ok (raiseIf_of_not (by simp)), htype.value, derOid_content, Gen.bind_of_ok rfl]
  dsimp only
  rw [Gen.lift_bind_ok hvalue.read, hvalue.value]
  rfl

theorem rdnText_encode {rdn : Rdn} {start after : ℕ}
    (hencloses : Encloses buf start after (rdn.flatMap Attribute.encode)) :
    rdnText intended buf ⟨0x31, start, after⟩ = ⟨rdnConversions rdn, .ok (rdnTextOf rdn)⟩ := by
  rw [rdnText, Gen.lift_bind_ok (raiseIf_of_not (by simp))]
  apply Gen.bind_pure_eq
  refine readElements_flatMap [] ?_ hencloses
  intro attr _ pos rest parts hattr
  obtain ⟨start, after, hpair⟩ := readsElement hattr (by decide)
  refine ⟨after, ?_, hpair.behind⟩
  exact elements_body hpair.read (Gen.bind_pure_eq (attributeText_encode hpair.inside))

theorem derName_encode {name : List Rdn} {start after : ℕ}
    (hencloses : Encloses buf start after (name.flatMap encodeRdn)) :
    derName intended buf start after = ⟨nameConversions name, .ok (nameText name)⟩ := by
  rw [derName]
  apply Gen.bind_pure_eq
  refine readElements_flatMap [] ?_ hencloses
  intro rdn _ pos rest rdns hrdn
  obtain ⟨start, after, hset⟩ := readsElement hrdn (by decide)
  refine ⟨after, ?_, hset.behind⟩
  exact elements_body hset.read (Gen.bind_pure_eq (rdnText_encode hset.inside))

theorem derExpect_encode {tag : UInt8} {expected : ℕ} {content : Bytes} {start after : ℕ}
    (message : String) (hreads : ReadsElement buf pos stop tag content rest start after)
    (htag : tag.toNat = expected) :
    derExpect buf pos stop expected message = .ok ⟨expected, start, after⟩ := by
  rw [derExpect, hreads.read, ok_bind, raiseIf_of_not (not_not.mpr htag), htag]
  rfl

theorem derParty_encode {name : List Rdn} (message : String)
    (hencloses : Encloses buf pos stop (encodeName name ++ rest)) :
    ∃ after, derParty intended buf pos stop message =
        ⟨nameConversions name, .ok (nameText name, after)⟩ ∧ Encloses buf after stop rest := by
  obtain ⟨start, after, hname⟩ := readsElement hencloses (by decide)
  refine ⟨after, ?_, hname.behind⟩
  have hexpect : derExpect buf pos stop 0x30 message = .ok ⟨0x30, start, after⟩ :=
    derExpect_encode message hname rfl
  rw [derParty, Gen.lift_bind_ok hexpect]
  exact Gen.bind_pure_eq (derName_encode hname.inside)

/-! ## Times -/

theorem fieldMatches_month {n : ℕ} (hlow : 1 ≤ n) (hhigh : n ≤ 12) (rest : List Char) :
    ∃ others, fieldMatches monthField (twoDigits n ++ rest) = (n, rest) :: others := by
  interval_cases n <;> exact ⟨_, rfl⟩

theorem fieldMatches_day {n : ℕ} (hlow : 1 ≤ n) (hhigh : n ≤ 31) (rest : List Char) :
    ∃ others, fieldMatches dayField (twoDigits n ++ rest) = (n, rest) :: others := by
  interval_cases n <;> exact ⟨_, rfl⟩

theorem fieldMatches_hour {n : ℕ} (hhigh : n ≤ 23) (rest : List Char) :
    ∃ others, fieldMatches hourField (twoDigits n ++ rest) = (n, rest) :: others := by
  interval_cases n <;> exact ⟨_, rfl⟩

theorem fieldMatches_minute {n : ℕ} (hhigh : n ≤ 59) (rest : List Char) :
    ∃ others, fieldMatches minuteField (twoDigits n ++ rest) = (n, rest) :: others := by
  interval_cases n <;> exact ⟨_, rfl⟩

theorem fieldMatches_second {n : ℕ} (hhigh : n ≤ 59) (rest : List Char) :
    ∃ others, fieldMatches secondField (twoDigits n ++ rest) = (n, rest) :: others := by
  interval_cases n <;> exact ⟨_, rfl⟩

theorem digitValue_digitChar (n : ℕ) : digitValue (digitChar n) = some (n % 10) := by
  have hn : n % 10 < 10 := Nat.mod_lt n (by decide)
  unfold digitChar
  interval_cases n % 10 <;> rfl

theorem fieldMatches_year {n : ℕ} (hhigh : n ≤ 9999) (rest : List Char) :
    fieldMatches yearField (twoDigits (n / 100) ++ twoDigits (n % 100) ++ rest) = [(n, rest)] := by
  have hdigits : ∀ m, isDigit (digitChar m) = true := by
    intro m
    rw [isDigit, digitValue_digitChar]
    rfl
  have hvalue : (((n / 100 / 10 % 10) * 10 + n / 100 % 10) * 10 + n % 100 / 10 % 10) * 10 +
      n % 100 % 10 = n := by omega
  simp only [fieldMatches, yearField, twoDigits, List.filterMap_cons, List.filterMap_nil,
    List.length_cons, List.length_nil, List.cons_append, List.nil_append, List.take_succ_cons,
    List.take_zero, List.drop_succ_cons, List.drop_zero, List.zip_cons_cons, List.zip_nil_right,
    List.all_cons, List.all_nil, hdigits, digitValue_digitChar, List.foldl_cons, List.foldl_nil,
    Option.getD_some, Nat.zero_mul, Nat.zero_add, Bool.and_self, and_self, if_true, hvalue]

/-- The digits of a time. -/
def BrokenDownTime.digits (time : BrokenDownTime) : List Char :=
  twoDigits (time.year / 100) ++ twoDigits (time.year % 100) ++ BrokenDownTime.rest time

/-- A time of the calendar is read as it was written. -/
theorem strptime_digits (instant : Instant) :
    strptime (BrokenDownTime.digits instant.time) = some instant.time := by
  have hmonth := instant.month
  have hday := instant.day
  have hdays : daysInMonth instant.time.year instant.time.month ≤ 31 := by
    unfold daysInMonth
    split
    · split <;> decide
    · split <;> decide
  have hvalid : instant.time.valid = true := by
    simp [BrokenDownTime.valid, instant.year.1, hday.2, instant.second]
  obtain ⟨months, hmonths⟩ := fieldMatches_month hmonth.1 hmonth.2
    (twoDigits instant.time.day ++ twoDigits instant.time.hour ++ twoDigits instant.time.minute ++
      twoDigits instant.time.second)
  obtain ⟨days, hdaysField⟩ := fieldMatches_day hday.1 (hday.2.trans hdays)
    (twoDigits instant.time.hour ++ twoDigits instant.time.minute ++ twoDigits instant.time.second)
  obtain ⟨hours, hhours⟩ := fieldMatches_hour instant.hour
    (twoDigits instant.time.minute ++ twoDigits instant.time.second)
  obtain ⟨minutes, hminutes⟩ := fieldMatches_minute instant.minute (twoDigits instant.time.second)
  obtain ⟨seconds, hseconds⟩ := fieldMatches_second instant.second []
  have htimes : ∃ others, brokenDownTimes (BrokenDownTime.digits instant.time) =
      (instant.time, []) :: others := by
    simp only [List.append_nil, List.append_assoc] at hmonths hdaysField hhours hminutes hseconds
    unfold brokenDownTimes BrokenDownTime.digits BrokenDownTime.rest
    rw [fieldMatches_year instant.year.2]
    simp only [List.flatMap_cons, List.append_assoc, hmonths, hdaysField, hhours, hminutes,
      hseconds, List.map_cons, List.cons_append]
    exact ⟨_, rfl⟩
  obtain ⟨others, htimes⟩ := htimes
  rw [strptime, htimes]
  exact if_pos hvalid

theorem isoTime_digits (instant : Instant) (rest : List Char) :
    isoTime (BrokenDownTime.digits instant.time ++ rest) = .ok instant.time.isoformat := by
  have htake : (BrokenDownTime.digits instant.time ++ rest).take 14 =
      BrokenDownTime.digits instant.time := List.take_left' rfl
  rw [isoTime, htake, strptime_digits]

theorem intOfChars_twoDigits {n : ℕ} (hn : n < 100) : intOfChars (twoDigits n) = some (n : ℤ) := by
  interval_cases n <;> rfl

theorem digitChar_lt (n : ℕ) : (digitChar n).toNat < 0x80 := by
  have hn : n % 10 < 10 := Nat.mod_lt n (by decide)
  unfold digitChar
  interval_cases n % 10 <;> decide

theorem text_ascii (time : CertTime) : ∀ c ∈ time.text, c.toNat < 0x80 := by
  cases time with
  | utc instant years => simp [CertTime.text, BrokenDownTime.rest, twoDigits, digitChar_lt]
  | generalized instant => simp [CertTime.text, BrokenDownTime.rest, twoDigits, digitChar_lt]

theorem replaceAscii_ascii {text : List Char} (hascii : ∀ c ∈ text, c.toNat < 0x80) :
    replaceAscii (text.map fun c => UInt8.ofNat c.toNat) = text := by
  rw [replaceAscii, List.map_map]
  refine (List.map_congr_left fun c hc => ?_).trans (List.map_id text)
  have hbyte : (UInt8.ofNat c.toNat).toNat = c.toNat := by
    have hsmall := hascii c hc
    rw [UInt8.toNat_ofNat']
    omega
  simp only [Function.comp_apply, hbyte, if_pos (hascii c hc), Char.ofNat_toNat, id]

/-- The conversions of a time. -/
def timeConversions : CertTime → List Conversion
  | .utc instant _ => [.year (twoDigits (instant.time.year % 100))]
  | .generalized _ => []

/-- Either form is read as its instant. -/
theorem derTime_text (time : CertTime) :
    derTime intended time.tag.toNat (time.text.map fun c => UInt8.ofNat c.toNat) =
      ⟨timeConversions time, .ok time.instant.time.isoformat⟩ := by
  rw [derTime, replaceAscii_ascii (text_ascii time)]
  cases time with
  | generalized instant =>
      have hlast : (CertTime.generalized instant).text.getLast? = some 'Z' :=
        List.getLast?_concat
      have htag : (CertTime.generalized instant).tag.toNat = 0x18 := rfl
      rw [Gen.lift_bind_ok (raiseIf_of_not (not_not.mpr hlast)), htag, if_neg (by decide),
        Gen.lift_bind_ok (raiseIf_of_not (by decide))]
      exact congrArg (Gen.mk []) (isoTime_digits instant ['Z'])
  | utc instant years =>
      have hlast : (CertTime.utc instant years).text.getLast? = some 'Z' := List.getLast?_concat
      have htake : (CertTime.utc instant years).text.take 2 = twoDigits (instant.time.year % 100) := rfl
      have hyear : convertYear intended (twoDigits (instant.time.year % 100)) =
          ⟨[.year (twoDigits (instant.time.year % 100))],
            .ok ((instant.time.year % 100 : ℕ) : ℤ)⟩ := by
        have hint := intOfChars_twoDigits (Nat.mod_lt instant.time.year (by decide : 0 < 100))
        rw [convertYear, Gen.bind_of_ok (Gen.yield_ended _)]
        simp only [intended, hint]
        rfl
      have hcentury : (if (50 : ℤ) ≤ ((instant.time.year % 100 : ℕ) : ℤ) then ['1', '9'] else ['2', '0']) =
          twoDigits (instant.time.year / 100) := by
        split
        · next hfifty =>
            have hdiv : instant.time.year / 100 = 19 := by omega
            rw [hdiv]
            rfl
        · next hfifty =>
            have hdiv : instant.time.year / 100 = 20 := by omega
            rw [hdiv]
            rfl
      have htag : (CertTime.utc instant years).tag.toNat = 0x17 := rfl
      have htext : twoDigits (instant.time.year / 100) ++ (CertTime.utc instant years).text =
          BrokenDownTime.digits instant.time ++ ['Z'] := by
        simp [CertTime.text, BrokenDownTime.digits]
      rw [Gen.lift_bind_ok (raiseIf_of_not (not_not.mpr hlast)), if_pos htag, htake, hyear,
        Gen.bind_of_ok rfl]
      dsimp only
      rw [hcentury, htext, isoTime_digits]
      rfl

theorem derValidity_encode {cert : AbstractCertificate} {start after : ℕ}
    (hencloses : Encloses buf start after (cert.notBefore.encode ++ cert.notAfter.encode)) :
    derValidity intended buf ⟨0x30, start, after⟩ =
      ⟨timeConversions cert.notBefore ++ timeConversions cert.notAfter,
        .ok (cert.notBefore.instant.time.isoformat, cert.notAfter.instant.time.isoformat)⟩ := by
  have hlow : ∀ time : CertTime, time.tag.toNat % 0x20 ≠ 0x1F := by
    intro time
    cases time with
    | utc instant years => exact (by decide : (0x17 : UInt8).toNat % 0x20 ≠ 0x1F)
    | generalized instant => exact (by decide : (0x18 : UInt8).toNat % 0x20 ≠ 0x1F)
  obtain ⟨_, _, hfirst⟩ := readsElement hencloses (hlow cert.notBefore)
  obtain ⟨_, _, hsecond⟩ := readsLast hfirst.behind (hlow cert.notAfter)
  rw [derValidity, Gen.lift_bind_ok hfirst.read]
  dsimp only
  rw [Gen.lift_bind_ok hsecond.read, hfirst.value, hsecond.value]
  exact Gen.bind_eq (derTime_text _) (Gen.bind_pure_eq (derTime_text _))

/-! ## Keys -/

/-- The conversions of the parameters of an EC key. -/
def EcParameters.conversions : EcParameters → List Conversion
  | .absent => []
  | .namedCurve curve => [.oid curve.arcs]
  | .explicit _ _ => []

/-- The conversions of a key. -/
def PublicKey.conversions (key : PublicKey) : List Conversion :=
  .oid key.oid.arcs ::
    match key with
    | .ec parameters _ => parameters.conversions
    | .rsa _ _ _ _ => []
    | .other _ _ _ _ _ => []

/-- The name and the size of a curve. -/
def curveRecord (curve : Oid) : String × Option ℕ :=
  match find (oidText curve) ecCurves with
  | some (name, bits) => (name, some bits)
  | none => (oidText curve, none)

/-- What is read of a key. -/
def PublicKey.record : PublicKey → SpkiKey
  | .rsa pss _ modulus _ =>
      ⟨oidText (oidRsa pss), if pss then "RSASSA-PSS" else "RSA", some (Nat.size modulus)⟩
  | .ec (.namedCurve curve) _ =>
      ⟨oidText oidEc, "EC " ++ (curveRecord curve).1, (curveRecord curve).2⟩
  | .ec _ _ => ⟨oidText oidEc, "EC", none⟩
  | .other oid _ _ _ _ =>
      let known := (find (oidText oid) spkiAlgorithms).getD (oidText oid, none)
      ⟨oidText oid, known.1, known.2⟩

theorem rsaKeySize_encode {modulus : ℕ} {exponent : Bytes} (size : Option ℕ)
    (hencloses : Encloses buf pos stop (element 0x03
      (0x00 :: element 0x30 (element 0x02 (integer modulus) ++ exponent)))) :
    rsaKeySize buf pos stop size = .ok (some (Nat.size modulus)) := by
  obtain ⟨start, after, hbits⟩ := readsLast hencloses (by decide)
  have hinside := hbits.inside
  have hstop := hinside.stop_eq
  have hsmall := hinside.small
  rw [List.length_cons] at hstop hsmall
  have hkeyInside : Encloses buf (start + 1) after
      (element 0x30 (element 0x02 (integer modulus) ++ exponent)) :=
    ⟨hinside.stands.tail, by omega, by omega⟩
  obtain ⟨_, _, hkey⟩ := readsLast hkeyInside (by decide)
  obtain ⟨_, _, hmodulus⟩ := readsElement hkey.inside (by decide)
  rw [rsaKeySize, hbits.read, ok_bind]
  dsimp only
  have hbitsTag : (0x03 : UInt8).toNat = 0x03 := rfl
  have hkeyTag : (0x30 : UInt8).toNat = 0x30 := rfl
  have hmodulusTag : (0x02 : UInt8).toNat = 0x02 := rfl
  rw [if_pos ⟨hbitsTag, hinside.lt_of_cons⟩, hkey.read, ok_bind]
  dsimp only
  rw [if_pos hkeyTag, hmodulus.read, ok_bind, if_pos hmodulusTag, hmodulus.value, derIntBits, toNat_integer]
  rfl

theorem ecKey_namedCurve {curve : Oid} (oid name : String) (size : Option ℕ)
    (hencloses : Encloses buf pos stop (encodeOid curve)) :
    ecKey intended buf oid pos stop name size =
      ⟨[.oid curve.arcs], .ok ⟨oid, "EC " ++ (curveRecord curve).1, (curveRecord curve).2⟩⟩ := by
  obtain ⟨_, _, hcurve⟩ := readsLast hencloses (by decide)
  have htag : (0x06 : UInt8).toNat = 0x06 := rfl
  rw [ecKey, Gen.lift_bind_ok hcurve.read, if_pos htag, hcurve.value, derOid_content,
    Gen.bind_of_ok rfl]
  dsimp only
  unfold curveRecord
  cases find (oidText curve) ecCurves <;> rfl

theorem ecKey_explicit {parameters : AnyElement} (hnotOid : parameters.tag ≠ 0x06)
    (oid name : String) (size : Option ℕ) (hencloses : Encloses buf pos stop parameters.encode) :
    ecKey intended buf oid pos stop name size = ⟨[], .ok ⟨oid, name, size⟩⟩ := by
  obtain ⟨_, _, hparameters⟩ := readsLast hencloses parameters.lowTag
  have htag : ¬ parameters.tag.toNat = 0x06 := by
    intro htag
    exact hnotOid (UInt8.toNat_inj.mp htag)
  rw [ecKey, Gen.lift_bind_ok hparameters.read, if_neg htag]
  rfl

theorem dot_mem_oidText (oid : Oid) : '.' ∈ (oidText oid).toList := by
  unfold oidText dotted Oid.arcs
  rw [List.map_cons, List.map_cons, join, String.toList_append, String.toList_append]
  · simp
  · simp

/-- The names of the RSA algorithms stand for their object identifiers only. -/
theorem notRsa_name {oid : Oid} (hrsa : ∀ pss, oidText oid ≠ oidText (oidRsa pss)) :
    ¬ (((find (oidText oid) spkiAlgorithms).getD (oidText oid, none)).1 = "RSA" ∨
      ((find (oidText oid) spkiAlgorithms).getD (oidText oid, none)).1 = "RSASSA-PSS") := by
  have htable : ∀ entry ∈ spkiAlgorithms, entry.2.1 = "RSA" ∨ entry.2.1 = "RSASSA-PSS" →
      entry.1 = oidText (oidRsa false) ∨ entry.1 = oidText (oidRsa true) := by decide +kernel
  cases hfind : find (oidText oid) spkiAlgorithms with
  | some known =>
      intro hname
      rcases htable _ (mem_of_find_eq_some hfind) hname with hplain | hpss
      · exact hrsa false hplain
      · exact hrsa true hpss
  | none =>
      have hdot := dot_mem_oidText oid
      rintro (hname | hname)
      · rw [Option.getD_none] at hname
        dsimp only at hname
        rw [hname] at hdot
        exact absurd hdot (by decide)
      · rw [Option.getD_none] at hname
        dsimp only at hname
        rw [hname] at hdot
        exact absurd hdot (by decide)

/-- A key is read as it was written. -/
theorem spkiKey_encode {key : PublicKey}
    (hencloses : Encloses buf pos stop
      (element 0x30 (encodeOid key.oid ++ key.parameters) ++ element 0x03 key.bits)) :
    spkiKey intended buf pos stop = ⟨key.conversions, .ok key.record⟩ := by
  obtain ⟨start, after, halgorithm⟩ := readsElement hencloses (by decide)
  obtain ⟨first, last, hobject⟩ := readsElement halgorithm.inside (by decide)
  have hbehind := halgorithm.behind
  have hparameters := hobject.behind
  rw [spkiKey, Gen.lift_bind_ok halgorithm.read, Gen.lift_bind_ok (raiseIf_of_not (by simp))]
  dsimp only
  rw [Gen.lift_bind_ok hobject.read, hobject.value, derOid_content, Gen.bind_of_ok rfl]
  dsimp only
  cases key with
  | rsa pss parameters modulus exponent =>
      have hnotEc : oidText (oidRsa pss) ≠ "1.2.840.10045.2.1" := by
        cases pss <;> decide +kernel
      have hknown : (find (oidText (oidRsa pss)) spkiAlgorithms).getD (oidText (oidRsa pss), none) =
          (if pss then "RSASSA-PSS" else "RSA", none) := by
        cases pss <;> decide +kernel
      have hname : (if pss then "RSASSA-PSS" else "RSA") = "RSA" ∨
          (if pss then "RSASSA-PSS" else "RSA") = "RSASSA-PSS" := by
        cases pss <;> decide
      have hsize := rsaKeySize_encode none hbehind
      unfold PublicKey.oid
      rw [if_neg (fun h => hnotEc h.1), hknown, if_pos hname, Gen.lift_bind_ok hsize]
      rfl
  | ec parameters point =>
      have hoid : oidText oidEc = "1.2.840.10045.2.1" := by decide +kernel
      have hknown : (find (oidText oidEc) spkiAlgorithms).getD (oidText oidEc, none) =
          ("EC", none) := by decide +kernel
      unfold PublicKey.oid
      rw [hknown]
      cases parameters with
      | absent =>
          have hend := hparameters.eq_of_nil
          rw [if_neg (fun h => absurd h.2 (by omega)), if_neg (by decide)]
          rfl
      | namedCurve curve =>
          rw [if_pos ⟨hoid, hparameters.lt_of_cons⟩, ecKey_namedCurve _ _ _ hparameters]
          rfl
      | explicit parameters notOid =>
          rw [if_pos ⟨hoid, hparameters.lt_of_cons⟩, ecKey_explicit notOid _ _ _ hparameters]
          rfl
  | other oid parameters bits notEc notRsa =>
      have hoid : oidText oid ≠ "1.2.840.10045.2.1" := by
        have hec : oidText oidEc = "1.2.840.10045.2.1" := by decide +kernel
        rw [← hec]
        exact notEc
      unfold PublicKey.oid
      rw [if_neg (fun h => hoid h.1), if_neg (notRsa_name notRsa)]
      rfl

/-! ## Extensions -/

/-- The dictionary after one more extension. -/
def addExtensionTo (exts : Dict String Bytes) (extension : Extension) : Dict String Bytes :=
  exts.update (oidText extension.oid) fun _ => extension.octets

theorem extensionElement_encode {critical : Bool} {octets : Bytes}
    (hencloses : Encloses buf pos stop
      ((if critical then element 0x01 [0xFF] else []) ++ element 0x04 octets)) :
    ∃ start after, extensionElement buf pos stop = .ok ⟨0x04, start, after⟩ ∧
      valueOf buf ⟨0x04, start, after⟩ = octets := by
  cases critical with
  | true =>
      obtain ⟨_, _, hcritical⟩ := readsElement hencloses (by decide)
      obtain ⟨start, after, hvalue⟩ := readsLast hcritical.behind (by decide)
      refine ⟨start, after, ?_, hvalue.value⟩
      have htag : (0x01 : UInt8).toNat = 0x01 := rfl
      rw [extensionElement, hcritical.read, ok_bind, if_pos htag, hvalue.read]
      rfl
  | false =>
      obtain ⟨start, after, hvalue⟩ := readsLast hencloses (by decide)
      refine ⟨start, after, ?_, hvalue.value⟩
      have htag : ¬ (0x04 : UInt8).toNat = 0x01 := by decide
      rw [extensionElement, hvalue.read, ok_bind, if_neg htag]
      rfl

theorem addExtension_encode {extension : Extension} {start after : ℕ} (exts : Dict String Bytes)
    (hencloses : Encloses buf start after (encodeOid extension.oid ++
      (if extension.critical then element 0x01 [0xFF] else []) ++ element 0x04 extension.octets)) :
    addExtension intended buf ⟨0x30, start, after⟩ exts =
      ⟨[.oid extension.oid.arcs], .ok (addExtensionTo exts extension)⟩ := by
  rw [List.append_assoc] at hencloses
  obtain ⟨_, _, hobject⟩ := readsElement hencloses (by decide)
  obtain ⟨first, last, hread, hvalue⟩ := extensionElement_encode hobject.behind
  rw [addExtension, Gen.lift_bind_ok hobject.read, hobject.value, derOid_content,
    Gen.bind_of_ok rfl]
  dsimp only
  rw [Gen.lift_bind_ok hread, if_pos rfl, hvalue]
  rfl

/-- The conversions of extensions. -/
def extensionConversions (extensions : List Extension) : List Conversion :=
  extensions.flatMap fun extension => [.oid extension.oid.arcs]

theorem extensions_encode {exts : List Extension} {start after : ℕ}
    (hencloses : Encloses buf start after (element 0x30 (exts.flatMap Extension.encode))) :
    extensions intended buf start after =
      ⟨extensionConversions exts, .ok (exts.foldl addExtensionTo .empty)⟩ := by
  obtain ⟨first, last, hsequence⟩ := readsLast hencloses (by decide)
  rw [extensions, Gen.lift_bind_ok hsequence.read, Gen.lift_bind_ok (raiseIf_of_not (by simp))]
  refine readElements_flatMap Dict.empty ?_ hsequence.inside
  intro extension _ pos rest exts hextension
  obtain ⟨start, after, hpair⟩ := readsElement hextension (by decide)
  refine ⟨after, ?_, hpair.behind⟩
  exact elements_body hpair.read (addExtension_encode exts hpair.inside)

/-- One turn of the loop behind the key. -/
theorem trailing_turn {tag : UInt8} {content : Bytes} {start after : ℕ} {log : List Conversion}
    {exts exts' : Dict String Bytes}
    (hreads : ReadsElement buf pos stop tag content rest start after)
    (huse : trailingElement intended buf ⟨tag.toNat, start, after⟩ exts = ⟨log, .ok exts'⟩) :
    readElements buf pos stop (trailingElement intended buf) exts =
      ⟨log ++ (readElements buf after stop (trailingElement intended buf) exts').log,
        (readElements buf after stop (trailingElement intended buf) exts').ended⟩ := by
  have hbody := elements_body hreads.read huse
  have hadvances : pos < after :=
    (elements buf stop (trailingElement intended buf)).advances (congrArg Gen.ended hbody)
  have hinside := hreads.behind.le
  rw [readElements, Scan.run_of_lt (by omega), hbody, Gen.bind_of_ok rfl]
  rfl

/-- A unique identifier is skipped. -/
theorem trailing_skip {tag : UInt8} {id : Option Bytes} (exts : Dict String Bytes)
    (hlow : tag.toNat % 0x20 ≠ 0x1F) (htag : tag.toNat ≠ 0xA3)
    (hencloses : Encloses buf pos stop (encodeOptional tag id ++ rest)) :
    ∃ after, readElements buf pos stop (trailingElement intended buf) exts =
        readElements buf after stop (trailingElement intended buf) exts ∧
      Encloses buf after stop rest := by
  cases id with
  | none => exact ⟨pos, rfl, hencloses⟩
  | some content =>
      obtain ⟨start, after, hreads⟩ := readsElement hencloses hlow
      refine ⟨after, ?_, hreads.behind⟩
      have huse : trailingElement intended buf ⟨tag.toNat, start, after⟩ exts = ⟨[], .ok exts⟩ :=
        if_neg htag
      rw [trailing_turn hreads huse, List.nil_append]

/-- What follows the key: of the optional elements, only the extensions are used. -/
theorem trailing_encode {cert : AbstractCertificate}
    (hencloses : Encloses buf pos stop cert.encodeTrailing) :
    readElements buf pos stop (trailingElement intended buf) Dict.empty =
      ⟨extensionConversions cert.extensionList,
        .ok (cert.extensionList.foldl addExtensionTo .empty)⟩ := by
  unfold AbstractCertificate.encodeTrailing at hencloses
  rw [List.append_assoc] at hencloses
  obtain ⟨first, hfirst, hencloses⟩ := trailing_skip Dict.empty (by decide) (by decide) hencloses
  obtain ⟨second, hsecond, hencloses⟩ := trailing_skip Dict.empty (by decide) (by decide) hencloses
  rw [hfirst, hsecond]
  unfold AbstractCertificate.extensionList
  cases hextensions : cert.extensions with
  | none =>
      rw [hextensions] at hencloses
      have hend := hencloses.eq_of_nil
      rw [readElements, Scan.run_of_ge (by omega)]
      rfl
  | some exts =>
      rw [hextensions] at hencloses
      obtain ⟨start, after, hreads⟩ := readsLast hencloses (by decide)
      have htag : (0xA3 : UInt8).toNat = 0xA3 := rfl
      have huse : trailingElement intended buf ⟨(0xA3 : UInt8).toNat, start, after⟩ Dict.empty =
          ⟨extensionConversions exts, .ok (exts.foldl addExtensionTo .empty)⟩ := by
        rw [trailingElement, if_pos htag]
        exact extensions_encode hreads.inside
      have hend := hreads.behind.eq_of_nil
      have hdone : readElements buf after stop (trailingElement intended buf)
          (exts.foldl addExtensionTo .empty) = ⟨[], .ok (exts.foldl addExtensionTo .empty)⟩ :=
        Scan.run_of_ge (by omega)
      rw [trailing_turn hreads huse, hdone, List.append_nil]
      rfl

/-! ## Basic constraints -/

/-- The flag is read as it was written. -/
theorem basicConstraintsCa_encode (constraints : BasicConstraints)
    (hsize : constraints.encode.length < 2 ^ 32) :
    basicConstraintsCa constraints.encode = .ok constraints.ca := by
  have hwhole : Encloses constraints.encode 0 constraints.encode.length constraints.encode :=
    ⟨standsAt_self _, (Nat.zero_add _).symm, hsize⟩
  obtain ⟨start, after, hsequence⟩ := readsLast hwhole (by decide)
  have hinside := hsequence.inside
  have hsequenceTag : (0x30 : UInt8).toNat = 0x30 := rfl
  have hflagTag : (0x01 : UInt8).toNat = 0x01 := rfl
  have hlengthTag : ¬ (0x02 : UInt8).toNat = 0x01 := by decide
  rw [basicConstraintsCa, hsequence.read, ok_bind]
  dsimp only
  obtain ⟨ca, pathLen⟩ := constraints
  cases ca with
  | true =>
      obtain ⟨first, last, hflag⟩ := readsElement hinside (by decide)
      have hlt := hflag.inside.lt_of_cons
      have hadvances := derTlv_advances hflag.read
      dsimp only at hadvances
      have hbyte := byteAt_standsAt hflag.inside.stands
      rw [if_neg (not_or.mpr ⟨not_not.mpr hsequenceTag, by omega⟩), hflag.read, ok_bind]
      dsimp only
      rw [if_pos ⟨hflagTag, hlt⟩, hbyte]
      rfl
  | false =>
      cases pathLen with
      | none =>
          have hend := hinside.eq_of_nil
          rw [if_pos (Or.inr (by omega))]
          rfl
      | some length =>
          obtain ⟨first, last, hlength⟩ := readsLast hinside (by decide)
          have hadvances := derTlv_advances hlength.read
          dsimp only at hadvances
          rw [if_neg (not_or.mpr ⟨not_not.mpr hsequenceTag, by omega⟩), hlength.read, ok_bind]
          dsimp only
          rw [if_neg (fun h => hlengthTag h.1)]
          rfl

/-- The last basic constraints extension. -/
def lastConstraints (exts : List Extension) : Option Extension :=
  (exts.filter Extension.isBasicConstraints).getLast?

theorem oidText_basicConstraints : oidText oidOfBasicConstraints = oidBasicConstraints := by
  decide +kernel

/-- The dictionary has the last basic constraints. -/
theorem get?_extensions (exts : List Extension) (known : Dict String Bytes) :
    (exts.foldl addExtensionTo known).get? oidBasicConstraints =
      ((lastConstraints exts).map Extension.octets <|> known.get? oidBasicConstraints) := by
  induction exts generalizing known with
  | nil => rfl
  | cons extension rest ih =>
      rw [List.foldl_cons, ih, addExtensionTo, Dict.get?_update]
      unfold lastConstraints
      by_cases hconstraints : extension.isBasicConstraints
      · have hoid : oidText extension.oid = oidBasicConstraints := by
          obtain ⟨critical, value⟩ := extension
          cases value with
          | basicConstraints constraints => exact oidText_basicConstraints
          | other oid value different => cases hconstraints
        rw [List.filter_cons_of_pos hconstraints, if_pos hoid.symm]
        cases hlast : (rest.filter Extension.isBasicConstraints).getLast? with
        | none =>
            rw [List.getLast?_eq_none_iff.mp hlast]
            rfl
        | some last =>
            rw [List.getLast?_cons, hlast]
            rfl
      · have hoid : ¬ oidBasicConstraints = oidText extension.oid := by
          obtain ⟨critical, value⟩ := extension
          cases value with
          | basicConstraints constraints => exact absurd rfl hconstraints
          | other oid value different => exact fun h => different h.symm
        rw [List.filter_cons_of_neg hconstraints, if_neg hoid]

theorem isCa_extensions {exts : List Extension}
    (hsize : ∀ extension ∈ exts, extension.octets.length < 2 ^ 32) :
    isCa (exts.foldl addExtensionTo .empty) =
      .ok (((lastConstraints exts).map Extension.saysCa).getD false) := by
  rw [isCa, get?_extensions, Dict.get?_empty]
  cases hlast : lastConstraints exts with
  | none => rfl
  | some last =>
      have hmem := List.mem_of_getLast? hlast
      obtain ⟨hmem, hconstraints⟩ := List.mem_filter.mp hmem
      have hsmall := hsize last hmem
      obtain ⟨critical, value⟩ := last
      cases value with
      | other oid value different => cases hconstraints
      | basicConstraints constraints => exact basicConstraintsCa_encode constraints hsmall

end Readers

/-! ## Certificates -/

namespace AbstractCertificate

variable (cert : AbstractCertificate)

/-- Does the certificate say that its subject is a CA, by its last basic constraints? -/
def lastSaysCa : Bool := ((lastConstraints cert.extensionList).map Extension.saysCa).getD false

/-- What `parse_certificate` returns for the certificate. -/
def record (sha256 : Bytes → String) : Certificate where
  sha256 := sha256 cert.encode
  serial := hex cert.serial
  subject := nameText cert.subject
  issuer := nameText cert.issuer
  notBefore := cert.notBefore.instant.time.isoformat
  notAfter := cert.notAfter.instant.time.isoformat
  category := categoriseCertOids [oidText cert.signatureAlgorithm.oid, cert.publicKey.record.oid]
  signatureAlgorithmOid := oidText cert.signatureAlgorithm.oid
  keyAlgorithm := cert.publicKey.record.name
  keyAlgorithmOid := cert.publicKey.record.oid
  keySize := cert.publicKey.record.size
  isCa := cert.lastSaysCa
  selfSigned := nameText cert.subject = nameText cert.issuer
  role :=
    if cert.lastSaysCa ∨ (nameText cert.subject = nameText cert.issuer ∧
        (lastConstraints cert.extensionList).isNone) then .ca
    else .leaf

/-- What `parse_certificate` converts. -/
def conversions : List Conversion :=
  [.oid cert.signatureAlgorithm.oid.arcs] ++ (nameConversions cert.issuer ++
    ((timeConversions cert.notBefore ++ timeConversions cert.notAfter) ++
      (nameConversions cert.subject ++ (cert.publicKey.conversions ++
        extensionConversions cert.extensionList))))

end AbstractCertificate

section Whole

variable {cert : AbstractCertificate}

theorem octets_small (hsize : cert.content.length < 2 ^ 32) :
    ∀ extension ∈ cert.extensionList, extension.octets.length < 2 ^ 32 := by
  intro extension hextension
  unfold AbstractCertificate.extensionList at hextension
  cases hextensions : cert.extensions with
  | none =>
      rw [hextensions] at hextension
      cases hextension
  | some exts =>
      rw [hextensions] at hextension
      obtain ⟨before, after, hsplit⟩ := List.append_of_mem hextension
      rw [Option.getD_some] at hsplit
      simp only [AbstractCertificate.content, AbstractCertificate.tbs,
        AbstractCertificate.encodeTrailing, hextensions, hsplit, Option.map_some, encodeOptional,
        length_element, List.length_append, List.flatMap_append, List.flatMap_cons,
        Extension.encode] at hsize
      omega

theorem tbsCertificate_encode (hsize : cert.content.length < 2 ^ 32) :
    ∃ start stop, tbsCertificate cert.encode = .ok ⟨0x30, start, stop⟩ ∧
      Encloses cert.encode start stop cert.tbs := by
  have hwhole := derTlv_element (standsAt_self cert.encode)
    (Nat.le_of_eq (Nat.zero_add cert.encode.length)) (by decide) hsize
  have hcontent : Encloses cert.encode (0 + (header 0x30 cert.content).length)
      (0 + cert.encode.length) cert.content :=
    ⟨(standsAt_self cert.encode).right, by rw [AbstractCertificate.encode, length_element, Nat.add_assoc],
      hsize⟩
  obtain ⟨start, stop, htbs⟩ := readsElement hcontent (by decide)
  refine ⟨start, stop, ?_, htbs.inside⟩
  have hread : derTlv cert.encode (0 + (header 0x30 cert.content).length)
      (0 + (element 0x30 cert.content).length) = .ok ⟨(0x30 : UInt8).toNat, start, stop⟩ := htbs.read
  rw [tbsCertificate, hwhole, ok_bind, raiseIf_of_not (by simp), ok_bind]
  dsimp only
  rw [hread, ok_bind, raiseIf_of_not (by simp)]
  rfl

/-- The optional version is skipped. -/
theorem afterVersion_encode {buf rest : Bytes} {pos stop : ℕ} {serial : Bytes}
    (hencloses : Encloses buf pos stop (cert.encodeVersion ++ (element 0x02 serial ++ rest))) :
    ∃ after, afterVersion buf pos stop = .ok after ∧
      Encloses buf after stop (element 0x02 serial ++ rest) := by
  unfold AbstractCertificate.encodeVersion at hencloses
  cases hversion : cert.version with
  | none =>
      rw [hversion] at hencloses
      have hbyte : byteAt buf pos = .ok (0x02 : UInt8).toNat := byteAt_standsAt hencloses.stands
      have htag : ¬ (0x02 : UInt8).toNat = 0xA0 := by decide
      refine ⟨pos, ?_, hencloses⟩
      rw [afterVersion, if_pos hencloses.lt_of_cons, hbyte, ok_bind, if_neg htag]
      rfl
  | some version =>
      rw [hversion] at hencloses
      have hbyte : byteAt buf pos = .ok (0xA0 : UInt8).toNat := byteAt_standsAt hencloses.stands
      have htag : (0xA0 : UInt8).toNat = 0xA0 := rfl
      obtain ⟨start, after, hreads⟩ := readsElement hencloses (by decide)
      refine ⟨after, ?_, hreads.behind⟩
      rw [afterVersion, if_pos hencloses.lt_of_cons, hbyte, ok_bind, if_pos htag, hreads.read]
      rfl

/-- **The whole run with the intended conversions.** -/
theorem parseCertificate_encode (sha256 : Bytes → String) (hsize : cert.content.length < 2 ^ 32) :
    parseCertificate intended sha256 cert.encode = ⟨cert.conversions, .ok (cert.record sha256)⟩ := by
  obtain ⟨start, stop, htbs, hencloses⟩ := tbsCertificate_encode hsize
  obtain ⟨pos, hpos, hencloses⟩ := afterVersion_encode hencloses
  obtain ⟨_, _, hserial⟩ := readsElement hencloses (by decide)
  obtain ⟨_, hsignature, hencloses⟩ := derAlgorithmOid_encode hserial.behind
  obtain ⟨_, hissuer, hencloses⟩ := derParty_encode "issuer is not a SEQUENCE" hencloses
  obtain ⟨_, _, hvalidity⟩ := readsElement hencloses (by decide)
  obtain ⟨_, hsubject, hencloses⟩ := derParty_encode "subject is not a SEQUENCE" hvalidity.behind
  obtain ⟨_, _, hspki⟩ := readsElement hencloses (by decide)
  have hserialRead : derExpect cert.encode pos stop 0x02 "serialNumber is not an INTEGER" =
      .ok ⟨0x02, _, _⟩ := derExpect_encode _ hserial rfl
  have hvalidityRead : derExpect cert.encode _ stop 0x30 "validity is not a SEQUENCE" =
      .ok ⟨0x30, _, _⟩ := derExpect_encode _ hvalidity rfl
  have hspkiRead : derExpect cert.encode _ stop 0x30 "subjectPublicKeyInfo is not a SEQUENCE" =
      .ok ⟨0x30, _, _⟩ := derExpect_encode _ hspki rfl
  rw [parseCertificate, Gen.lift_bind_ok htbs, Gen.lift_bind_ok hpos,
    Gen.lift_bind_ok hserialRead]
  refine Gen.bind_eq hsignature (Gen.bind_eq hissuer ?_)
  dsimp only
  rw [Gen.lift_bind_ok hvalidityRead]
  refine Gen.bind_eq (derValidity_encode hvalidity.inside) (Gen.bind_eq hsubject ?_)
  dsimp only
  rw [Gen.lift_bind_ok hspkiRead]
  refine Gen.bind_eq (spkiKey_encode hspki.inside) ?_
  dsimp only
  rw [trailing_encode hspki.behind, Gen.bind_of_ok rfl]
  dsimp only
  rw [Gen.lift_bind_ok (isCa_extensions (octets_small hsize))]
  have hserialValue : valueOf cert.encode ⟨0x02, _, _⟩ = cert.serial := hserial.value
  have hconstraints : ((cert.extensionList.foldl addExtensionTo .empty).get?
      oidBasicConstraints).isNone = (lastConstraints cert.extensionList).isNone := by
    rw [get?_extensions, Dict.get?_empty]
    cases lastConstraints cert.extensionList <;> rfl
  rw [hserialValue, hconstraints, Gen.pure_log, Gen.pure_ended, List.append_nil]
  rfl

end Whole

/-! ## The round trip -/

/-- What a record has to say of the certificate. -/
structure RoundTrip (cert : AbstractCertificate) (record : Certificate) : Prop where
  serial : record.serial = hex cert.serial
  signatureOid : record.signatureAlgorithmOid = oidText cert.signatureAlgorithm.oid
  keyOid : record.keyAlgorithmOid = oidText cert.publicKey.oid
  notBefore : record.notBefore = cert.notBefore.instant.time.isoformat
  notAfter : record.notAfter = cert.notAfter.instant.time.isoformat
  modulus : ∀ pss parameters modulus exponent, cert.publicKey = .rsa pss parameters modulus exponent →
    record.keySize = some (Nat.size modulus)
  curve : ∀ curve point, cert.publicKey = .ec (.namedCurve curve) point →
    record.keyAlgorithm = "EC " ++ (curveRecord curve).1 ∧ record.keySize = (curveRecord curve).2
  ca : record.isCa = true ↔ ∃ extension ∈ cert.extensionList, extension.saysCa

namespace AbstractCertificate

variable (cert : AbstractCertificate)

/-- The object identifiers of a name. -/
def nameOids (name : List Rdn) : List Oid := name.flatMap fun rdn => rdn.map Attribute.type

/-- The object identifier of the named curve, if the key has one. -/
def curveOids : List Oid :=
  match cert.publicKey with
  | .ec (.namedCurve curve) _ => [curve]
  | _ => []

/-- The object identifiers of the certificate that are shown or compared. -/
def oids : List Oid :=
  [cert.signatureAlgorithm.oid] ++ nameOids cert.issuer ++ nameOids cert.subject ++
    [cert.publicKey.oid] ++ cert.curveOids ++ cert.extensionList.map Extension.oid

/-- No arc of an object identifier has more than 4300 digits. -/
def ArcsPrintable : Prop := ∀ oid ∈ cert.oids, ∀ arc ∈ oid.arcs, arc < 10 ^ intMaxStrDigits

/-- If a basic constraints extension says that the subject is a CA, so does the last one. -/
def LastConstraintsDecide : Prop :=
  (∃ extension ∈ cert.extensionList, extension.saysCa) →
    ∃ extension ∈ lastConstraints cert.extensionList, extension.saysCa

end AbstractCertificate

variable {cert : AbstractCertificate}

theorem lastSaysCa_iff :
    cert.lastSaysCa = true ↔ ∃ extension ∈ lastConstraints cert.extensionList, extension.saysCa := by
  unfold AbstractCertificate.lastSaysCa
  cases lastConstraints cert.extensionList <;> simp

theorem saysCa_of_last
    (hlast : ∃ extension ∈ lastConstraints cert.extensionList, extension.saysCa) :
    ∃ extension ∈ cert.extensionList, extension.saysCa := by
  obtain ⟨extension, hextension, hca⟩ := hlast
  have hmem := List.mem_of_getLast? hextension
  exact ⟨extension, (List.mem_filter.mp hmem).1, hca⟩

theorem record_oid (key : PublicKey) : key.record.oid = oidText key.oid := by
  cases key with
  | rsa pss parameters modulus exponent => rfl
  | ec parameters point => cases parameters <;> rfl
  | other oid parameters bits notEc notRsa => rfl

/-- The record is right about everything but the last part. -/
theorem roundTrip_record_iff (sha256 : Bytes → String) :
    RoundTrip cert (cert.record sha256) ↔ cert.LastConstraintsDecide := by
  constructor
  · intro hround hca
    exact lastSaysCa_iff.mp (hround.ca.mpr hca)
  · intro hlast
    refine ⟨rfl, rfl, record_oid _, rfl, rfl, ?_, ?_, ?_⟩
    · intro pss parameters modulus exponent hkey
      unfold AbstractCertificate.record
      rw [hkey]
      rfl
    · intro curve point hkey
      unfold AbstractCertificate.record
      rw [hkey]
      exact ⟨rfl, rfl⟩
    · exact ⟨fun hca => saysCa_of_last (lastSaysCa_iff.mp hca),
        fun hca => lastSaysCa_iff.mpr (hlast hca)⟩

/-- The conversion of an object identifier. -/
def OidConverts (oid : Oid) : Prop := ∀ arc ∈ oid.arcs, arc < 10 ^ intMaxStrDigits

theorem nameConversions_iff (name : List Rdn) :
    (∀ conversion ∈ nameConversions name, conversion.Converts) ↔
      ∀ oid ∈ AbstractCertificate.nameOids name, OidConverts oid := by
  have hrdn : ∀ rdn : Rdn, (∀ conversion ∈ rdnConversions rdn, conversion.Converts) ↔
      ∀ oid ∈ rdn.map Attribute.type, OidConverts oid := by
    intro rdn
    unfold rdnConversions
    rw [List.forall_mem_flatMap, List.forall_mem_map]
    exact forall₂_congr fun attr _ => List.forall_mem_singleton
  unfold nameConversions AbstractCertificate.nameOids
  rw [List.forall_mem_flatMap, List.forall_mem_flatMap]
  exact forall₂_congr fun rdn _ => hrdn rdn

theorem timeConversions_convert (time : CertTime) :
    ∀ conversion ∈ timeConversions time, conversion.Converts := by
  cases time with
  | generalized instant =>
      intro conversion hmem
      cases hmem
  | utc instant years =>
      intro conversion hmem
      obtain rfl := List.mem_singleton.mp hmem
      rw [Conversion.Converts, intOfChars_twoDigits (Nat.mod_lt _ (by decide))]
      rfl

theorem keyConversions_iff (cert : AbstractCertificate) :
    (∀ conversion ∈ cert.publicKey.conversions, conversion.Converts) ↔
      OidConverts cert.publicKey.oid ∧ ∀ oid ∈ cert.curveOids, OidConverts oid := by
  unfold PublicKey.conversions AbstractCertificate.curveOids
  rw [List.forall_mem_cons]
  refine and_congr_right fun _ => ?_
  cases cert.publicKey with
  | rsa pss parameters modulus exponent => simp
  | ec parameters point =>
      cases parameters <;> simp [EcParameters.conversions, Conversion.Converts, OidConverts]
  | other oid parameters bits notEc notRsa => simp

theorem extensionConversions_iff (exts : List Extension) :
    (∀ conversion ∈ extensionConversions exts, conversion.Converts) ↔
      ∀ oid ∈ exts.map Extension.oid, OidConverts oid := by
  unfold extensionConversions
  rw [List.forall_mem_flatMap, List.forall_mem_map]
  exact forall₂_congr fun extension _ => List.forall_mem_singleton

/-- What is converted are the object identifiers, and years that are numbers. -/
theorem conversions_iff :
    (∀ conversion ∈ cert.conversions, conversion.Converts) ↔ cert.ArcsPrintable := by
  have htimes : ∀ conversion ∈ timeConversions cert.notBefore ++ timeConversions cert.notAfter,
      conversion.Converts :=
    List.forall_mem_append.mpr ⟨timeConversions_convert _, timeConversions_convert _⟩
  have hall : cert.ArcsPrintable ↔ ∀ oid ∈ cert.oids, OidConverts oid := Iff.rfl
  rw [hall]
  unfold AbstractCertificate.conversions AbstractCertificate.oids
  simp only [List.forall_mem_append, nameConversions_iff, keyConversions_iff,
    extensionConversions_iff, List.forall_mem_singleton]
  constructor
  · rintro ⟨hsig, hissuer, _, hsubject, ⟨hkey, hcurve⟩, hexts⟩
    exact ⟨⟨⟨⟨⟨hsig, hissuer⟩, hsubject⟩, hkey⟩, hcurve⟩, hexts⟩
  · rintro ⟨⟨⟨⟨⟨hsig, hissuer⟩, hsubject⟩, hkey⟩, hcurve⟩, hexts⟩
    exact ⟨hsig, hissuer, List.forall_mem_append.mp htimes, hsubject, ⟨hkey, hcurve⟩, hexts⟩

/-- The program on an encoded certificate that can be converted. -/
theorem parsed_of_converts (sha256 : Bytes → String) (hsize : cert.content.length < 2 ^ 32)
    (harcs : cert.ArcsPrintable) :
    (parseCertificate python sha256 cert.encode).ended = .ok (cert.record sha256) := by
  have hintended := parseCertificate_encode sha256 hsize
  have hconverts := conversions_iff.mpr harcs
  rw [(follows_parseCertificate sha256 cert.encode).same (by rw [hintended]; exact hconverts),
    hintended]

/-- The program on one that cannot. -/
theorem raises_of_not_converts (sha256 : Bytes → String) (hsize : cert.content.length < 2 ^ 32)
    (harcs : ¬ cert.ArcsPrintable) :
    (parseCertificate python sha256 cert.encode).ended = .error .valueError := by
  have hintended := parseCertificate_encode sha256 hsize
  rw [← conversions_iff] at harcs
  push Not at harcs
  obtain ⟨fault, hfault, rfl⟩ := (follows_parseCertificate sha256 cert.encode).stops
    (by rw [hintended]; exact harcs)
  exact hfault

/-- **The record of an encoded certificate is right, exactly if no arc of its object identifiers has
more than 4300 digits and, where a basic constraints extension says that the subject is a CA, the
last one does.** -/
theorem encode_parsed_iff (sha256 : Bytes → String) (cert : AbstractCertificate)
    (hsize : cert.content.length < 2 ^ 32) :
    (∃ record, (parseCertificate python sha256 cert.encode).ended = .ok record ∧
      RoundTrip cert record) ↔ cert.ArcsPrintable ∧ cert.LastConstraintsDecide := by
  by_cases harcs : cert.ArcsPrintable
  · rw [parsed_of_converts sha256 hsize harcs, ← roundTrip_record_iff sha256]
    constructor
    · rintro ⟨record, hrecord, hround⟩
      obtain rfl := Except.ok.inj hrecord
      exact ⟨harcs, hround⟩
    · rintro ⟨_, hround⟩
      exact ⟨_, rfl, hround⟩
  · rw [raises_of_not_converts sha256 hsize harcs]
    constructor
    · rintro ⟨record, hrecord, _⟩
      cases hrecord
    · rintro ⟨hprintable, _⟩
      exact absurd hprintable harcs

/-! ### Certificates with an Ed25519 key -/

/-- `1.3.101.112`. -/
def oidEd25519 : Oid := ⟨1, 3, [101, 112], oidEc.top_le, by decide, by decide⟩

/-- The first second of 2020. -/
def startOf2020 : Instant :=
  ⟨⟨2020, 1, 1, 0, 0, 0⟩, by decide, by decide, by decide, by decide, by decide, by decide⟩

/-- An authority with these attributes of its name and these extensions. -/
def authority (subject : Rdn) (exts : List Extension) : AbstractCertificate where
  version := some [0x02]
  serial := [0x01]
  signatureAlgorithm := ⟨oidEd25519, []⟩
  issuer := [subject]
  notBefore := .utc startOf2020 (by decide)
  notAfter := .generalized startOf2020
  subject := [subject]
  publicKey := .other oidEd25519 [] [] (by decide +kernel) (by decide +kernel)
  issuerUniqueId := none
  subjectUniqueId := none
  extensions := some exts
  signature := []

/-- Basic constraints. -/
def constraintsOf (ca : Bool) : Extension := ⟨true, .basicConstraints ⟨ca, none⟩⟩

theorem authority_parsed :
    (authority [] [constraintsOf true]).content.length < 2 ^ 32 ∧
    ∃ record, (parseCertificate python (fun _ => "")
        (authority [] [constraintsOf true]).encode).ended = .ok record ∧
      RoundTrip (authority [] [constraintsOf true]) record := by
  have hsize : (authority [] [constraintsOf true]).content.length < 2 ^ 32 := by decide +kernel
  refine ⟨hsize, (encode_parsed_iff _ _ hsize).mpr ⟨?_, ?_⟩⟩
  · unfold AbstractCertificate.ArcsPrintable
    decide +kernel
  · intro _
    exact ⟨constraintsOf true, rfl, rfl⟩

theorem length_ed25519_encode : (SignatureAlgorithm.encode ⟨oidEd25519, []⟩).length = 7 := by
  decide +kernel

theorem length_key_encode : (authority [] []).publicKey.encode.length = 12 := by
  decide +kernel

/-- An empty attribute of type `1.2.` and the arc. -/
def attributeOf (arc : ℕ) : Attribute :=
  ⟨⟨1, 2, [arc], oidEc.top_le, oidEc.second_lt, oidEc.oneByte⟩, ⟨0x0C, [], by decide⟩⟩

theorem authority_small {arc : ℕ} (harc : arc < 128 ^ 2100 * 128) :
    (authority [attributeOf arc] []).content.length < 2 ^ 32 := by
  have hgroups : (base128 arc).length ≤ 2101 := length_base128_le 2100 harc
  have hcontent : (attributeOf arc).type.content.length = 1 + (base128 arc).length := by
    simp [attributeOf, Oid.content, Nat.add_comm]
  have hvalue : (attributeOf arc).value.encode.length = 2 := rfl
  have hoid : (encodeOid (attributeOf arc).type).length ≤ 2108 := by
    have hle := @length_element_le (attributeOf arc).type.content 0x06 (by omega)
    rw [encodeOid]
    omega
  have hattr : (attributeOf arc).encode.length ≤ 2116 := by
    have hle := @length_element_le
      (encodeOid (attributeOf arc).type ++ (attributeOf arc).value.encode) 0x30
      (by rw [List.length_append]; omega)
    rw [List.length_append] at hle
    rw [Attribute.encode]
    omega
  have hrdn : (encodeRdn [attributeOf arc]).length ≤ 2122 := by
    have hle := @length_element_le (attributeOf arc).encode 0x31 (by omega)
    rw [encodeRdn, List.flatMap_singleton]
    omega
  have hname : (encodeName [[attributeOf arc]]).length ≤ 2128 := by
    have hle := @length_element_le (encodeRdn [attributeOf arc]) 0x30 (by omega)
    rw [encodeName, List.flatMap_singleton]
    omega
  have hissuer : (encodeName (authority [attributeOf arc] []).issuer).length ≤ 2128 := hname
  have hsubject : (encodeName (authority [attributeOf arc] []).subject).length ≤ 2128 := hname
  have hversion : (authority [attributeOf arc] []).encodeVersion.length = 5 := rfl
  have hserial : (element 0x02 (authority [attributeOf arc] []).serial).length = 3 := rfl
  have hsignature : (authority [attributeOf arc] []).signatureAlgorithm.encode.length = 7 :=
    length_ed25519_encode
  have hvalidity : (authority [attributeOf arc] []).encodeValidity.length = 34 := rfl
  have hkey : (authority [attributeOf arc] []).publicKey.encode.length = 12 := length_key_encode
  have htrailing : (authority [attributeOf arc] []).encodeTrailing.length = 4 := rfl
  have htbs : (authority [attributeOf arc] []).tbs.length ≤ 4321 := by
    simp only [AbstractCertificate.tbs, List.length_append]
    omega
  have hbits : (element 0x03 (0x00 :: (authority [attributeOf arc] []).signature)).length = 3 := rfl
  have hle := @length_element_le (authority [attributeOf arc] []).tbs 0x30 (by omega)
  simp only [AbstractCertificate.content, List.length_append]
  omega

theorem not_arcsPrintable_authority {arc : ℕ} (harc : ¬ arc < 10 ^ intMaxStrDigits) :
    ¬ (authority [attributeOf arc] []).ArcsPrintable := by
  intro hprintable
  have hmem : (attributeOf arc).type ∈ (authority [attributeOf arc] []).oids := by
    simp [AbstractCertificate.oids, AbstractCertificate.nameOids, authority]
  have hlast : arc ∈ (attributeOf arc).type.arcs := List.mem_cons_of_mem 1 (List.mem_cons_of_mem 2
    (List.mem_singleton.mpr rfl))
  exact harc (hprintable _ hmem arc hlast)

/-- The certificates whose encoding is not read back: two basic constraints extensions, of which
the first says that the subject is a CA, and an attribute type whose last arc has 4301 digits. -/
theorem not_encode_parsed :
    ((authority [] [constraintsOf true, constraintsOf false]).content.length < 2 ^ 32 ∧
      ∃ record, (parseCertificate python (fun _ => "")
          (authority [] [constraintsOf true, constraintsOf false]).encode).ended = .ok record ∧
        record.isCa = false) ∧
    (authority [attributeOf (10 ^ 4300)] []).content.length < 2 ^ 32 ∧
      (parseCertificate python (fun _ => "")
        (authority [attributeOf (10 ^ 4300)] []).encode).ended = .error .valueError := by
  refine ⟨⟨by decide +kernel, _, parsed_of_converts _ (by decide +kernel) ?_, rfl⟩, ?_, ?_⟩
  · unfold AbstractCertificate.ArcsPrintable
    decide +kernel
  · exact authority_small (by decide +kernel)
  · exact raises_of_not_converts _ (authority_small (by decide +kernel))
      (not_arcsPrintable_authority (by decide +kernel))

end PqcReadiness.Certs
