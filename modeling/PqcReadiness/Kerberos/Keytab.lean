import PqcReadiness.Lib.Cursor
import PqcReadiness.Lib.Generator
import PqcReadiness.Lib.Utf8

/-!
# Keytabs

`parse_keytab`, the encoding of a keytab in both format versions, and three things together
(`parseKeytab_faithful`): the entries of an encoded keytab come back, nothing but `KeytabError` is
raised on any bytes, and the contents of the keys do not count.

## Strategy

A record is read in two parts: what stands before the contents of the key, and what follows them.
The first part of an encoded record is read piece by piece (`keytabHead_of_at`).  It reads no byte
behind itself, whatever the buffer is (`keytabHead_reads`), so two buffers that differ in key
contents give the same, record by record.
-/

namespace PqcReadiness.Kerberos

open PqcReadiness.Lib
open Bytes (At Agree)

/-! ## The parser -/

/-- `ENCTYPES`. -/
def enctypeTable : List (ℤ × String × String) :=
  [(1, "des-cbc-crc", "deprecated"),
    (2, "des-cbc-md4", "deprecated"),
    (3, "des-cbc-md5", "deprecated"),
    (5, "des3-cbc-md5", "deprecated"),
    (7, "des3-cbc-sha1", "deprecated"),
    (16, "des3-cbc-sha1", "deprecated"),
    (17, "aes128-cts-hmac-sha1-96", "aes128"),
    (18, "aes256-cts-hmac-sha1-96", "ok"),
    (19, "aes128-cts-hmac-sha256-128", "aes128"),
    (20, "aes256-cts-hmac-sha384-192", "ok"),
    (23, "arcfour-hmac", "deprecated"),
    (24, "arcfour-hmac-exp", "deprecated"),
    (25, "camellia128-cts-cmac", "aes128"),
    (26, "camellia256-cts-cmac", "ok")]

/-- The name and the status of an enctype. -/
def enctypeOf (number : ℤ) : String × String :=
  ((enctypeTable.find? (·.1 = number)).map Prod.snd).getD ("etype-" ++ toString number, "unknown")

/-- What is raised: a `KeytabError`, or the error of `struct`. -/
inductive KeytabFault where
  | keytab (message : String)
  | struct
  deriving DecidableEq

/-- An entry of the result. -/
structure KeytabEntry where
  principal : List Char
  kvno : ℕ
  enctype : String
  enctypeNumber : ℤ
  status : String

section Parser

variable (order : ByteOrder) (data : Bytes)

/-- `take`, of so many bytes. -/
def takeField (width start limit : ℕ) : Except KeytabFault ℕ :=
  if limit < start + width then .error (.keytab "truncated record")
  else if data.length < start + width then .error .struct
  else .ok (Bytes.field order width data start)

/-- `data_field`. -/
def dataField (start limit : ℕ) : Except KeytabFault (Bytes × ℕ) := do
  let n ← takeField order data 2 start limit
  raiseIf (limit < start + 2 + n) (.keytab "truncated data field")
  return (Bytes.slice data (start + 2) (start + 2 + n), start + 2 + n)

/-- The loop over the components. -/
def components : ℕ → ℕ → ℕ → Except KeytabFault (List Bytes × ℕ)
  | 0, start, _ => .ok ([], start)
  | count + 1, start, limit => do
      let (comp, next) ← dataField order data start limit
      let (comps, last) ← components count next limit
      return (comp :: comps, last)

/-- What stands in a record before the contents of the key, and where these are. -/
structure KeytabHead where
  realm : Bytes
  comps : List Bytes
  kvno8 : ℕ
  enctype : ℤ
  keyStart : ℕ
  keyLength : ℕ

/-- Behind the name type, which version 1 does not have, and the timestamp. -/
def behindTimestamp (version start : ℕ) : ℕ := (if version = 2 then start + 4 else start) + 4

/-- A record up to the contents of its key. -/
def keytabHead (version start limit : ℕ) : Except KeytabFault KeytabHead := do
  let count ← takeField order data 2 start limit
  -- Version 1 counts the realm; `range` of a negative number is empty.
  let count := if version = 1 then count - 1 else count
  let (realm, next) ← dataField order data (start + 2) limit
  let (comps, next) ← components order data count next limit
  let next := behindTimestamp version next
  let kvno8 ← takeField order data 1 next limit
  raiseIf (limit < next + 1 + 4) (.keytab "truncated record")
  let enctype ← takeField order data 2 (next + 1) limit
  let keyLength ← takeField order data 2 (next + 3) limit
  return ⟨realm, comps, kvno8, Bytes.signed 2 enctype, next + 5, keyLength⟩

/-- `kvno`: the number behind the key, if there is one that is not zero. -/
def keytabKvno (kvno8 start limit : ℕ) : Except KeytabFault ℕ :=
  if 4 ≤ limit - start then do
    let kvno32 ← takeField order data 4 start limit
    return if kvno32 ≠ 0 then kvno32 else kvno8
  else .ok kvno8

/-- The result for a record. -/
def KeytabHead.entry (head : KeytabHead) (kvno : ℕ) : KeytabEntry where
  principal := List.intercalate ['/'] (head.comps.map (replaceUtf8From .start)) ++
    '@' :: replaceUtf8From .start head.realm
  kvno := kvno
  enctype := (enctypeOf head.enctype).1
  enctypeNumber := head.enctype
  status := (enctypeOf head.enctype).2

/-- A record. -/
def keytabEntry (version start limit : ℕ) : Except KeytabFault KeytabEntry := do
  let head ← keytabHead order data version start limit
  let next := head.keyStart + head.keyLength
  raiseIf (limit < next) (.keytab "key runs past its record")
  let kvno ← keytabKvno order data head.kvno8 next limit
  return head.entry kvno

/-- The loop over the records. -/
def keytabEntries (version start : ℕ) : Except KeytabFault (List KeytabEntry) :=
  if start + 4 ≤ data.length then
    match takeField order data 4 start data.length with
    | .error fault => .error fault
    | .ok bits =>
        let length := Bytes.signed 4 bits
        if length = 0 then .ok []
        else if length < 0 then keytabEntries version (start + 4 + length.natAbs)
        else if data.length < start + 4 + length.natAbs then
          .error (.keytab "record runs past the end of the file")
        else do
          let entry ← keytabEntry order data version (start + 4) (start + 4 + length.natAbs)
          let rest ← keytabEntries version (start + 4 + length.natAbs)
          return entry :: rest
  else .ok []
termination_by data.length - start

end Parser

/-- What `parse_keytab` returns. -/
structure Keytab where
  formatVersion : ℕ
  entries : List KeytabEntry

/-- The order of the numbers in a version. -/
def keytabOrder (native : ByteOrder) (version : ℕ) : ByteOrder :=
  if version = 2 then .big else native

/-- `parse_keytab`. -/
def parseKeytab (native : ByteOrder) (data : Bytes) : Except KeytabFault Keytab :=
  match data with
  | first :: version :: _ =>
      if first = 5 ∧ (version = 1 ∨ version = 2) then do
        let entries ← keytabEntries (keytabOrder native version.toNat) data version.toNat 2
        return ⟨version.toNat, entries⟩
      else .error (.keytab "not an MIT keytab (bad version bytes)")
  | _ => .error (.keytab "not an MIT keytab (bad version bytes)")

/-! ## Only key errors -/

/-- A `KeytabError`. -/
def KeytabFault.IsKeytabError (fault : KeytabFault) : Prop := fault ≠ .struct

section Total

variable {order : ByteOrder} {data : Bytes} {limit : ℕ}

theorem takeField_fails (hlimit : limit ≤ data.length) (width start : ℕ) :
    FailsOnly KeytabFault.IsKeytabError (takeField order data width start limit) := by
  rw [takeField]
  split
  · exact FailsOnly.error.mpr nofun
  · rw [if_neg (by omega)]
    exact FailsOnly.ok _

theorem dataField_fails (hlimit : limit ≤ data.length) (start : ℕ) :
    FailsOnly KeytabFault.IsKeytabError (dataField order data start limit) := by
  refine (takeField_fails hlimit 2 start).bind fun n _ => ?_
  exact (failsOnly_raiseIf nofun).bind fun _ _ => FailsOnly.ok _

theorem components_fails (hlimit : limit ≤ data.length) (count start : ℕ) :
    FailsOnly KeytabFault.IsKeytabError (components order data count start limit) := by
  induction count generalizing start with
  | zero => exact FailsOnly.ok _
  | succ count ih =>
      refine (dataField_fails hlimit start).bind fun field _ => ?_
      exact (ih field.2).bind fun _ _ => FailsOnly.ok _

theorem keytabHead_fails (hlimit : limit ≤ data.length) (version start : ℕ) :
    FailsOnly KeytabFault.IsKeytabError (keytabHead order data version start limit) := by
  refine (takeField_fails hlimit 2 start).bind fun count _ => ?_
  refine (dataField_fails hlimit _).bind fun realm _ => ?_
  refine (components_fails hlimit _ _).bind fun comps _ => ?_
  refine (takeField_fails hlimit 1 _).bind fun kvno8 _ => ?_
  refine (failsOnly_raiseIf nofun).bind fun _ _ => ?_
  refine (takeField_fails hlimit 2 _).bind fun enctype _ => ?_
  exact (takeField_fails hlimit 2 _).bind fun _ _ => FailsOnly.ok _

theorem keytabEntry_fails (hlimit : limit ≤ data.length) (version start : ℕ) :
    FailsOnly KeytabFault.IsKeytabError (keytabEntry order data version start limit) := by
  refine (keytabHead_fails hlimit version start).bind fun head _ => ?_
  refine (failsOnly_raiseIf nofun).bind fun _ _ => FailsOnly.bind ?_ fun _ _ => FailsOnly.ok _
  rw [keytabKvno]
  split
  · exact (takeField_fails hlimit 4 _).bind fun _ _ => FailsOnly.ok _
  · exact FailsOnly.ok _

theorem keytabEntries_fails (version start : ℕ) :
    FailsOnly KeytabFault.IsKeytabError (keytabEntries order data version start) := by
  fun_induction keytabEntries order data version start with
  | case1 start hmore fault hfault =>
      exact FailsOnly.error.mpr (takeField_fails le_rfl 4 start fault hfault)
  | case2 => exact FailsOnly.ok _
  | case3 start hmore bits hbits length hzero hnegative ih => exact ih
  | case4 => exact FailsOnly.error.mpr nofun
  | case5 start hmore bits hbits length hzero hpositive hinside ih =>
      refine (keytabEntry_fails (by omega) _ _).bind fun entry _ => ?_
      exact ih.bind fun rest _ => FailsOnly.ok _
  | case6 => exact FailsOnly.ok _

/-- Nothing but `KeytabError` is raised. -/
theorem parseKeytab_fails (native : ByteOrder) (data : Bytes) :
    FailsOnly KeytabFault.IsKeytabError (parseKeytab native data) := by
  unfold parseKeytab
  split
  · split
    · exact (keytabEntries_fails _ _).bind fun _ _ => FailsOnly.ok _
    · exact FailsOnly.error.mpr nofun
  · exact FailsOnly.error.mpr nofun

end Total

/-! ## Encoding -/

/-- A key version: eight bits, or also thirty-two. -/
inductive Kvno where
  | short (n : UInt8)
  | long (n : UInt32)

namespace Kvno

def value : Kvno → ℕ
  | short n => n.toNat
  | long n => n.toNat

/-- The eight bits. -/
def low (kvno : Kvno) : ℕ := kvno.value % 256

/-- What stands behind the key. -/
def tail (order : ByteOrder) : Kvno → Bytes
  | short _ => []
  | long n => Bytes.ofNat order 4 n.toNat

end Kvno

/-- An entry as it is stored. -/
structure StoredEntry where
  realm : Bytes
  comps : List Bytes
  nameType : Bytes
  timestamp : Bytes
  kvno : Kvno
  enctype : ℤ
  key : Bytes

/-- A counted field. -/
def countedField (order : ByteOrder) (bytes : Bytes) : Bytes :=
  Bytes.ofNat order 2 bytes.length ++ bytes

namespace StoredEntry

variable (stored : StoredEntry) (order : ByteOrder) (version : ℕ)

/-- The number of components that is stored. -/
def count : ℕ := if version = 1 then stored.comps.length + 1 else stored.comps.length

/-- The bytes in front of the contents of the key. -/
def headBytes : Bytes :=
  Bytes.ofNat order 2 (stored.count version) ++ (countedField order stored.realm ++
    (stored.comps.flatMap (countedField order) ++
      (((if version = 2 then stored.nameType else []) ++ stored.timestamp) ++
        (Bytes.ofNat order 1 stored.kvno.low ++
          (Bytes.ofNat order 2 (Bytes.unsigned 2 stored.enctype) ++
            Bytes.ofNat order 2 stored.key.length)))))

/-- The bytes of a record behind its length. -/
def bytes : Bytes := stored.headBytes order version ++ (stored.key ++ stored.kvno.tail order)

/-- The numbers fit in their fields. -/
structure Fits : Prop where
  realm : stored.realm.length < 2 ^ 16
  comps : ∀ comp ∈ stored.comps, comp.length < 2 ^ 16
  count : stored.count version < 2 ^ 16
  nameType : stored.nameType.length = 4
  timestamp : stored.timestamp.length = 4
  enctype : -2 ^ 15 ≤ stored.enctype ∧ stored.enctype < 2 ^ 15
  key : stored.key.length < 2 ^ 16
  length : (stored.bytes order version).length < 2 ^ 31

/-- The entry that is to come back. -/
def entry : KeytabEntry where
  principal := List.intercalate ['/'] (stored.comps.map (replaceUtf8From .start)) ++
    '@' :: replaceUtf8From .start stored.realm
  kvno := stored.kvno.value
  enctype := (enctypeOf stored.enctype).1
  enctypeNumber := stored.enctype
  status := (enctypeOf stored.enctype).2

end StoredEntry

/-- An entry, or what is left of one that was deleted. -/
inductive KeytabItem where
  | entry (stored : StoredEntry)
  | hole (bytes : Bytes)

namespace KeytabItem

/-- The bytes of an item. -/
def bytes (order : ByteOrder) (version : ℕ) : KeytabItem → Bytes
  | entry stored =>
      Bytes.ofNat order 4 (Bytes.unsigned 4 (stored.bytes order version).length) ++
        stored.bytes order version
  | hole bytes => Bytes.ofNat order 4 (Bytes.unsigned 4 (-bytes.length)) ++ bytes

/-- Its entry, if any. -/
def result : KeytabItem → Option KeytabEntry
  | entry stored => some stored.entry
  | hole _ => none

/-- An item that can be stored. -/
def Fits (order : ByteOrder) (version : ℕ) : KeytabItem → Prop
  | entry stored => stored.Fits order version
  | hole bytes => bytes ≠ [] ∧ bytes.length ≤ 2 ^ 31

end KeytabItem

/-- A keytab that can be stored. -/
structure StoredKeytab (native : ByteOrder) where
  version : ℕ
  items : List KeytabItem
  known : version = 1 ∨ version = 2
  fits : ∀ item ∈ items, item.Fits (keytabOrder native version) version

/-- The bytes of a keytab. -/
def StoredKeytab.bytes {native : ByteOrder} (keytab : StoredKeytab native) : Bytes :=
  5 :: UInt8.ofNat keytab.version ::
    keytab.items.flatMap (KeytabItem.bytes (keytabOrder native keytab.version) keytab.version)

/-! ## Reading what was written -/

section RoundTrip

variable {order : ByteOrder} {data : Bytes} {start limit version : ℕ}

theorem takeField_of_at {width n : ℕ} (hat : At data start (Bytes.ofNat order width n))
    (hn : n < 256 ^ width) (hwidth : width ≠ 0) (hlimit : start + width ≤ limit) :
    takeField order data width start limit = .ok n := by
  have hne : Bytes.ofNat order width n ≠ [] := by
    rw [← List.length_pos_iff, Bytes.length_ofNat]
    omega
  have hle := hat.le hne
  rw [Bytes.length_ofNat] at hle
  rw [takeField, if_neg (by omega), if_neg (by omega), Bytes.field_of_at hat hn]

theorem length_countedField (bytes : Bytes) :
    (countedField order bytes).length = 2 + bytes.length := by
  rw [countedField, List.length_append, Bytes.length_ofNat]

theorem dataField_of_at {bytes : Bytes} (hat : At data start (countedField order bytes))
    (hbytes : bytes.length < 2 ^ 16) (hlimit : start + (countedField order bytes).length ≤ limit) :
    dataField order data start limit =
      .ok (bytes, start + (countedField order bytes).length) := by
  rw [length_countedField] at hlimit ⊢
  obtain ⟨hlength, hcontents⟩ := Bytes.at_append.mp hat
  rw [Bytes.length_ofNat] at hcontents
  rw [dataField, takeField_of_at hlength hbytes (by decide) (by omega), ok_bind,
    raiseIf_of_not (by omega), ok_bind, Bytes.slice_of_at hcontents, ← Nat.add_assoc]
  rfl

theorem components_of_at {comps : List Bytes}
    (hat : At data start (comps.flatMap (countedField order)))
    (hcomps : ∀ comp ∈ comps, comp.length < 2 ^ 16)
    (hlimit : start + (comps.flatMap (countedField order)).length ≤ limit) :
    components order data comps.length start limit =
      .ok (comps, start + (comps.flatMap (countedField order)).length) := by
  induction comps generalizing start with
  | nil => rfl
  | cons comp rest ih =>
      rw [List.flatMap_cons] at hat hlimit ⊢
      rw [List.length_append] at hlimit ⊢
      obtain ⟨hfirst, hrest⟩ := Bytes.at_append.mp hat
      rw [List.forall_mem_cons] at hcomps
      rw [List.length_cons, components, dataField_of_at hfirst hcomps.1 (by omega), ok_bind]
      dsimp only
      rw [ih hrest hcomps.2 (by omega), ok_bind, Nat.add_assoc]
      rfl

variable {stored : StoredEntry}

/-- The first part of a record. -/
theorem keytabHead_of_at (hfits : stored.Fits order version)
    (hat : At data start (stored.headBytes order version))
    (hlimit : start + (stored.headBytes order version).length ≤ limit) :
    keytabHead order data version start limit =
      .ok ⟨stored.realm, stored.comps, stored.kvno.low, stored.enctype,
        start + (stored.headBytes order version).length, stored.key.length⟩ := by
  have hbehind : ∀ next, behindTimestamp version next = next +
      ((if version = 2 then stored.nameType else []) ++ stored.timestamp).length := by
    intro next
    rw [behindTimestamp, List.length_append, hfits.timestamp]
    split
    · rw [hfits.nameType, Nat.add_assoc]
    · rw [List.length_nil, Nat.zero_add]
  have hlow : stored.kvno.low < 256 ^ 1 := Nat.mod_lt _ (by decide)
  have henctype : Bytes.signed 2 (Bytes.unsigned 2 stored.enctype) = stored.enctype := by
    obtain ⟨hmin, hmax⟩ := hfits.enctype
    exact Bytes.signed_unsigned (by norm_num; omega) (by norm_num; omega)
  have hcount : (if version = 1 then stored.count version - 1 else stored.count version) =
      stored.comps.length := by
    rw [StoredEntry.count]
    split <;> rfl
  rw [StoredEntry.headBytes] at hat hlimit ⊢
  simp only [List.length_append, Bytes.length_ofNat] at hlimit ⊢
  obtain ⟨hatCount, hat⟩ := Bytes.at_append.mp hat
  obtain ⟨hatRealm, hat⟩ := Bytes.at_append.mp hat
  obtain ⟨hatComps, hat⟩ := Bytes.at_append.mp hat
  obtain ⟨_, hat⟩ := Bytes.at_append.mp hat
  obtain ⟨hatKvno, hat⟩ := Bytes.at_append.mp hat
  obtain ⟨hatEnctype, hatLength⟩ := Bytes.at_append.mp hat
  simp only [Bytes.length_ofNat] at hatRealm hatComps hatKvno hatEnctype hatLength
  rw [keytabHead, takeField_of_at hatCount hfits.count (by decide) (by omega), ok_bind]
  dsimp only
  rw [hcount, dataField_of_at hatRealm hfits.realm (by omega), ok_bind]
  dsimp only
  rw [components_of_at hatComps hfits.comps (by omega), ok_bind]
  dsimp only
  rw [hbehind, takeField_of_at hatKvno hlow (by decide) (by
    simp only [List.length_append]
    omega), ok_bind, raiseIf_of_not (by
    simp only [List.length_append]
    omega), ok_bind]
  rw [takeField_of_at hatEnctype (Bytes.unsigned_lt 2 _) (by decide) (by
    simp only [List.length_append]
    omega), ok_bind]
  rw [takeField_of_at hatLength hfits.key (by decide) (by
    simp only [List.length_append]
    omega), ok_bind, henctype]
  refine congrArg Except.ok ?_
  simp only [List.length_append, KeytabHead.mk.injEq, true_and, and_true]
  omega

/-- The version of the key. -/
theorem keytabKvno_of_at (hat : At data start (stored.kvno.tail order)) :
    keytabKvno order data stored.kvno.low start
      (start + (stored.kvno.tail order).length) = .ok stored.kvno.value := by
  cases hkvno : stored.kvno with
  | short n =>
      have hn : n.toNat < 256 := n.toNat_lt
      rw [keytabKvno, Kvno.tail, List.length_nil, if_neg (by omega), Kvno.low, Kvno.value,
        Nat.mod_eq_of_lt hn]
  | long n =>
      rw [hkvno, Kvno.tail] at hat
      have hn : n.toNat < 256 ^ 4 := n.toNat_lt
      rw [keytabKvno, Kvno.tail, Bytes.length_ofNat, if_pos (by omega),
        takeField_of_at hat hn (by decide) le_rfl, ok_bind, Kvno.low, Kvno.value]
      by_cases hzero : n.toNat = 0
      · rw [if_neg (not_not.mpr hzero), hzero]
        rfl
      · rw [if_pos hzero]
        rfl

/-- **A record.** -/
theorem keytabEntry_of_at (hfits : stored.Fits order version)
    (hat : At data start (stored.bytes order version)) :
    keytabEntry order data version start (start + (stored.bytes order version).length) =
      .ok stored.entry := by
  have hlength : (stored.bytes order version).length =
      (stored.headBytes order version).length +
        (stored.key.length + (stored.kvno.tail order).length) := by
    rw [StoredEntry.bytes, List.length_append, List.length_append]
  rw [StoredEntry.bytes] at hat
  obtain ⟨hatHead, hat⟩ := Bytes.at_append.mp hat
  obtain ⟨_, hatTail⟩ := Bytes.at_append.mp hat
  rw [keytabEntry, keytabHead_of_at hfits hatHead (by omega), ok_bind]
  dsimp only
  rw [raiseIf_of_not (by omega), ok_bind, hlength, ← Nat.add_assoc, ← Nat.add_assoc,
    keytabKvno_of_at hatTail, ok_bind]
  rfl

/-- **The records of a keytab come back.** -/
theorem keytabEntries_of_at {items : List KeytabItem}
    (hfits : ∀ item ∈ items, item.Fits order version)
    (hat : At data start (items.flatMap (KeytabItem.bytes order version)))
    (hlength : data.length = start + (items.flatMap (KeytabItem.bytes order version)).length) :
    keytabEntries order data version start = .ok (items.filterMap KeytabItem.result) := by
  induction items generalizing start with
  | nil =>
      rw [List.flatMap_nil, List.length_nil] at hlength
      rw [keytabEntries, if_neg (by omega)]
      rfl
  | cons item rest ih =>
      rw [List.flatMap_cons] at hat hlength
      rw [List.length_append] at hlength
      rw [List.forall_mem_cons] at hfits
      obtain ⟨hatItem, hatRest⟩ := Bytes.at_append.mp hat
      cases item with
      | entry stored =>
          rw [KeytabItem.bytes] at hatItem hatRest hlength
          rw [List.length_append, Bytes.length_ofNat] at hatRest hlength
          obtain ⟨hatLength, hatStored⟩ := Bytes.at_append.mp hatItem
          rw [Bytes.length_ofNat] at hatStored
          have hentry := keytabEntry_of_at hfits.1 hatStored
          have hpos : 0 < (stored.bytes order version).length := by
            rw [StoredEntry.bytes, StoredEntry.headBytes]
            simp only [List.length_append, Bytes.length_ofNat]
            omega
          have hsmall := hfits.1.length
          have hsigned : Bytes.signed 4 (Bytes.unsigned 4 (stored.bytes order version).length) =
              (stored.bytes order version).length :=
            Bytes.signed_unsigned (by norm_num; omega) (by norm_num; omega)
          rw [keytabEntries, if_pos (by omega),
            takeField_of_at hatLength (Bytes.unsigned_lt 4 _) (by decide) (by omega)]
          dsimp only
          rw [hsigned, if_neg (by omega), if_neg (by omega), Int.natAbs_natCast, if_neg (by omega),
            hentry, ok_bind, ih hfits.2 (by rwa [← Nat.add_assoc] at hatRest) (by omega)]
          rfl
      | hole bytes =>
          rw [KeytabItem.bytes] at hatItem hatRest hlength
          rw [List.length_append, Bytes.length_ofNat] at hatRest hlength
          obtain ⟨hnonempty, hsmall⟩ := hfits.1
          have hpos := List.length_pos_iff.mpr hnonempty
          obtain ⟨hatLength, _⟩ := Bytes.at_append.mp hatItem
          have hsigned : Bytes.signed 4 (Bytes.unsigned 4 (-(bytes.length : ℤ))) = -bytes.length :=
            Bytes.signed_unsigned (by norm_num; omega) (by norm_num; omega)
          rw [keytabEntries, if_pos (by omega),
            takeField_of_at hatLength (Bytes.unsigned_lt 4 _) (by decide) (by omega)]
          dsimp only
          rw [hsigned, if_neg (by omega), if_pos (by omega), Int.natAbs_neg, Int.natAbs_natCast,
            ih hfits.2 (by rwa [← Nat.add_assoc] at hatRest) (by omega)]
          rfl

end RoundTrip

/-- **A keytab comes back.** -/
theorem parseKeytab_bytes {native : ByteOrder} (keytab : StoredKeytab native) :
    parseKeytab native keytab.bytes =
      .ok ⟨keytab.version, keytab.items.filterMap KeytabItem.result⟩ := by
  have hversion : (UInt8.ofNat keytab.version).toNat = keytab.version := by
    rcases keytab.known with h | h <;> rw [h] <;> rfl
  have hknown : UInt8.ofNat keytab.version = 1 ∨ UInt8.ofNat keytab.version = 2 := by
    rcases keytab.known with h | h <;> rw [h]
    · exact Or.inl rfl
    · exact Or.inr rfl
  have hentries : keytabEntries (keytabOrder native keytab.version) keytab.bytes keytab.version 2 =
      .ok (keytab.items.filterMap KeytabItem.result) := by
    refine keytabEntries_of_at keytab.fits ?_ ?_
    · exact ⟨[], List.append_nil _⟩
    · rw [StoredKeytab.bytes, List.length_cons, List.length_cons, Nat.add_comm 2]
  rw [StoredKeytab.bytes] at hentries ⊢
  rw [parseKeytab, if_pos ⟨rfl, hknown⟩, hversion, hentries]
  rfl

/-! ## The contents of keys -/

section Keys

variable (order : ByteOrder)

/-- Where the contents of the keys are, and how long, from a record on. -/
def keySpans (data : Bytes) (version start : ℕ) : List (ℕ × ℕ) :=
  if start + 4 ≤ data.length then
    match takeField order data 4 start data.length with
    | .error _ => []
    | .ok bits =>
        let length := Bytes.signed 4 bits
        if length = 0 then []
        else if length < 0 then keySpans data version (start + 4 + length.natAbs)
        else if data.length < start + 4 + length.natAbs then []
        else
          match keytabHead order data version (start + 4) (start + 4 + length.natAbs) with
          | .error _ => []
          | .ok head =>
              (head.keyStart, head.keyLength) ::
                keySpans data version (start + 4 + length.natAbs)
  else []
termination_by data.length - start

/-- A byte of a key. -/
def InKey (spans : List (ℕ × ℕ)) (i : ℕ) : Prop := ∃ span ∈ spans, span.1 ≤ i ∧ i < span.1 + span.2

variable {order} {limit version : ℕ}

theorem takeField_reads {start width : ℕ} :
    Bytes.ReadsOnly (fun data => takeField order data width start limit) start limit
      fun _ => start + width where
  bounds := by
    intro data value hok
    rw [takeField] at hok
    split at hok
    · cases hok
    · omega
  agrees := by
    intro one other hlength hagree _
    rw [takeField, takeField, hlength]
    split
    · rfl
    · split
      · rfl
      · next hlimit hinside =>
          have hone : takeField order one width start limit =
              .ok (Bytes.field order width one start) := by
            rw [takeField, if_neg hlimit, if_neg (by rwa [hlength])]
          rw [(hagree _ hone).field order le_rfl le_rfl]

theorem dataField_reads {start : ℕ} :
    Bytes.ReadsOnly (fun data => dataField order data start limit) start limit Prod.snd := by
  refine takeField_reads.bind fun n _ hlimit => Bytes.ReadsOnly.guard fun hinside => ?_
  exact Bytes.ReadsOnly.slice (fun bytes => (bytes, start + 2 + n)) le_rfl (by omega) (by omega)
    fun _ => rfl

theorem components_reads (count : ℕ) {start : ℕ} (hstart : start ≤ limit) :
    Bytes.ReadsOnly (fun data => components order data count start limit) start limit
      Prod.snd := by
  induction count generalizing start with
  | zero => exact Bytes.ReadsOnly.ok le_rfl hstart
  | succ count ih =>
      refine dataField_reads.bind fun field _ hfield => ?_
      exact (ih hfield).bind fun rest hle hrest => Bytes.ReadsOnly.ok le_rfl hrest

/-- **The first part of a record reads nothing behind itself.** -/
theorem keytabHead_reads {start : ℕ} :
    Bytes.ReadsOnly (fun data => keytabHead order data version start limit) start limit
      KeytabHead.keyStart := by
  refine takeField_reads.bind fun count _ _ => ?_
  refine dataField_reads.bind fun realm _ hrealm => ?_
  refine (components_reads _ hrealm).bind fun comps _ hcomps => ?_
  have hbehind : comps.2 ≤ behindTimestamp version comps.2 := by
    rw [behindTimestamp]
    split <;> omega
  refine (takeField_reads.weaken hbehind).bind fun kvno8 _ _ => ?_
  refine Bytes.ReadsOnly.guard fun hinside => ?_
  refine takeField_reads.bind fun enctype _ _ => ?_
  refine takeField_reads.bind fun keyLength _ hlast => ?_
  exact Bytes.ReadsOnly.ok (by dsimp only; omega) (by dsimp only; omega)

/-- A record behind its first part. -/
theorem keytabKvno_agree {one other : Bytes} {kvno8 start : ℕ} (hlength : one.length = other.length)
    (hagree : Agree one other start limit) :
    keytabKvno order other kvno8 start limit = keytabKvno order one kvno8 start limit := by
  rw [keytabKvno, keytabKvno]
  by_cases hmore : 4 ≤ limit - start
  · have hread := @takeField_reads order limit start 4
    rw [if_pos hmore, if_pos hmore, hread.agrees one other hlength
      (fun value hvalue => hagree.mono le_rfl (hread.bounds one value hvalue).2)
      (fun _ _ => hagree)]
  · rw [if_neg hmore, if_neg hmore]

/-- The contents of keys are behind the length of the record. -/
theorem keySpans_ge {data : Bytes} {start : ℕ} :
    ∀ span ∈ keySpans order data version start, start + 4 ≤ span.1 := by
  fun_induction keySpans order data version start with
  | case1 => exact nofun
  | case2 => exact nofun
  | case3 start hmore bits hbits length hzero hnegative ih =>
      intro span hspan
      have hge := ih span hspan
      omega
  | case4 => exact nofun
  | case5 => exact nofun
  | case6 start hmore bits hbits length hzero hpositive hinside head hhead ih =>
      intro span hspan
      rcases List.mem_cons.mp hspan with rfl | hrest
      · exact (keytabHead_reads.bounds data head hhead).1
      · have hge := ih span hrest
        omega
  | case7 => exact nofun

/-- A record of which the first part can be read. -/
theorem keytabEntry_agree {one other : Bytes} {start : ℕ} {head : KeytabHead}
    (hlength : one.length = other.length)
    (hhead : keytabHead order one version start limit = .ok head)
    (hbefore : Agree one other start head.keyStart)
    (hbehind : Agree one other (head.keyStart + head.keyLength) limit) :
    keytabEntry order other version start limit = keytabEntry order one version start limit := by
  have hother : keytabHead order other version start limit = .ok head := by
    rw [← hhead]
    refine keytabHead_reads.agrees one other hlength (fun value hvalue => ?_) fun fault hfault => ?_
    · rw [hhead] at hvalue
      cases hvalue
      exact hbefore
    · rw [hhead] at hfault
      cases hfault
  rw [keytabEntry, keytabEntry, hhead, hother, ok_bind, ok_bind]
  dsimp only
  rw [keytabKvno_agree hlength hbehind]

/-- A record that can be read holds its key. -/
theorem keytabEntry_inside {data : Bytes} {start : ℕ} {head : KeytabHead} {entry : KeytabEntry}
    (hhead : keytabHead order data version start limit = .ok head)
    (hentry : keytabEntry order data version start limit = .ok entry) :
    head.keyStart + head.keyLength ≤ limit := by
  rw [keytabEntry, hhead, ok_bind] at hentry
  obtain ⟨_, hinside, _⟩ := except_bind_ok.mp hentry
  exact Nat.le_of_not_lt (raiseIf_ok.mp hinside)

/-- The length of a record is no part of a key. -/
theorem keytabLength_agree {one other : Bytes} {start : ℕ} (hlength : one.length = other.length)
    (hsame : ∀ i, start ≤ i → ¬ InKey (keySpans order one version start) i →
      one[i]? = other[i]?) :
    takeField order other 4 start other.length = takeField order one 4 start one.length := by
  have hread := @takeField_reads order one.length start 4
  rw [← hlength]
  refine hread.agrees one other hlength (fun value hvalue => ?_) fun fault hfault => ?_
  · refine Bytes.agree_of_getElem? fun i hi hlast => hsame i hi ?_
    rintro ⟨span, hspan, hlow, _⟩
    have hge := keySpans_ge span hspan
    omega
  · refine Bytes.agree_of_getElem? fun i hi hlast => hsame i hi ?_
    rw [keySpans, hfault]
    rintro ⟨span, hspan, _⟩
    split at hspan <;> cases hspan

/-- **Two buffers that differ in key contents give the same entries.** -/
theorem keytabEntries_agree (order : ByteOrder) {one other : Bytes} {start : ℕ}
    (hlength : one.length = other.length)
    (hsame : ∀ i, start ≤ i → ¬ InKey (keySpans order one version start) i →
      one[i]? = other[i]?) :
    keytabEntries order other version start = keytabEntries order one version start := by
  have hfield := keytabLength_agree hlength hsame
  induction start using keytabEntries.induct order one with
  | case1 start hmore fault hfault =>
      rw [hfault] at hfield
      rw [keytabEntries, keytabEntries, ← hlength, if_pos hmore, if_pos hmore, hlength, hfield,
        ← hlength, hfault]
  | case2 start hmore bits hbits length hzero =>
      rw [hbits] at hfield
      rw [keytabEntries, keytabEntries, ← hlength, if_pos hmore, if_pos hmore, hlength, hfield,
        ← hlength, hbits]
      dsimp only
      rw [if_pos hzero, if_pos hzero]
  | case3 start hmore bits hbits length hzero hnegative ih =>
      rw [hbits] at hfield
      rw [keySpans, if_pos hmore, hbits] at hsame
      dsimp only at hsame
      rw [if_neg hzero, if_pos hnegative] at hsame
      have hrest := fun i (hi : start + 4 + length.natAbs ≤ i) => hsame i (by omega)
      rw [keytabEntries, keytabEntries, ← hlength, if_pos hmore, if_pos hmore, hlength, hfield,
        ← hlength, hbits]
      dsimp only
      rw [if_neg hzero, if_pos hnegative, if_neg hzero, if_pos hnegative]
      exact ih hrest (keytabLength_agree hlength hrest)
  | case4 start hmore bits hbits length hzero hpositive hinside =>
      rw [hbits] at hfield
      rw [keytabEntries, keytabEntries, ← hlength, if_pos hmore, if_pos hmore, hlength, hfield,
        ← hlength, hbits]
      dsimp only
      rw [if_neg hzero, if_neg hpositive, if_pos hinside, if_neg hzero, if_neg hpositive,
        if_pos hinside]
  | case5 start hmore bits hbits length hzero hpositive hinside ih =>
      rw [hbits] at hfield
      rw [keySpans, if_pos hmore, hbits] at hsame
      dsimp only at hsame
      rw [if_neg hzero, if_neg hpositive, if_neg hinside] at hsame
      rw [keytabEntries, keytabEntries, ← hlength, if_pos hmore, if_pos hmore, hlength, hfield,
        ← hlength, hbits]
      dsimp only
      rw [if_neg hzero, if_neg hpositive, if_neg hinside, if_neg hzero, if_neg hpositive,
        if_neg hinside]
      cases hhead : keytabHead order one version (start + 4) (start + 4 + length.natAbs) with
      | error fault =>
          rw [hhead] at hsame
          have hother : keytabHead order other version (start + 4) (start + 4 + length.natAbs) =
              .error fault := by
            rw [← hhead]
            refine keytabHead_reads.agrees one other hlength (fun value hvalue => ?_) fun _ _ => ?_
            · rw [hhead] at hvalue
              cases hvalue
            · refine Bytes.agree_of_getElem? fun i hi _ => hsame i (by omega) ?_
              rintro ⟨span, hspan, _⟩
              cases hspan
          rw [keytabEntry, keytabEntry, hhead, hother]
          rfl
      | ok head =>
          rw [hhead] at hsame
          obtain ⟨hstart, hstop⟩ := keytabHead_reads.bounds one head hhead
          have hafter : ∀ span ∈ keySpans order one version (start + 4 + length.natAbs),
              start + 4 + length.natAbs + 4 ≤ span.1 := keySpans_ge
          have hbefore : Agree one other (start + 4) head.keyStart := by
            refine Bytes.agree_of_getElem? fun i hi hlast => hsame i (by omega) ?_
            rintro ⟨span, hspan, hlow, _⟩
            rcases List.mem_cons.mp hspan with rfl | hspan
            · exact absurd hlow (by dsimp only; omega)
            · have hge := hafter span hspan
              omega
          have hbehind : Agree one other (head.keyStart + head.keyLength)
              (start + 4 + length.natAbs) := by
            refine Bytes.agree_of_getElem? fun i hi hlast => hsame i (by omega) ?_
            rintro ⟨span, hspan, hlow, hhigh⟩
            rcases List.mem_cons.mp hspan with rfl | hspan
            · exact absurd hhigh (by dsimp only; omega)
            · have hge := hafter span hspan
              omega
          rw [keytabEntry_agree hlength hhead hbefore hbehind]
          cases hentry : keytabEntry order one version (start + 4)
              (start + 4 + length.natAbs) with
          | error fault => rfl
          | ok entry =>
              have hinside' := keytabEntry_inside hhead hentry
              have hrest : ∀ i, start + 4 + length.natAbs ≤ i →
                  ¬ InKey (keySpans order one version (start + 4 + length.natAbs)) i →
                    one[i]? = other[i]? := by
                intro i hi hnot
                refine hsame i (by omega) ?_
                rintro ⟨span, hspan, hlow, hhigh⟩
                rcases List.mem_cons.mp hspan with rfl | hspan
                · exact absurd hhigh (by dsimp only; omega)
                · exact hnot ⟨span, hspan, hlow, hhigh⟩
              rw [ok_bind, ok_bind, ih hrest (keytabLength_agree hlength hrest)]
  | case6 start hmore =>
      rw [keytabEntries, keytabEntries, ← hlength, if_neg hmore, if_neg hmore]

end Keys

/-- Where the contents of the keys of a keytab are. -/
def keytabSpans (native : ByteOrder) (data : Bytes) : List (ℕ × ℕ) :=
  match data with
  | _ :: version :: _ =>
      keySpans (keytabOrder native version.toNat) data version.toNat 2
  | _ => []

/-- The result does not depend on the contents of keys. -/
theorem parseKeytab_agree {native : ByteOrder} {one other : Bytes}
    (hlength : one.length = other.length)
    (hsame : ∀ i, ¬ InKey (keytabSpans native one) i → one[i]? = other[i]?) :
    parseKeytab native other = parseKeytab native one := by
  match one, other with
  | [], [] => rfl
  | [_], [_] =>
      have hfirst := hsame 0 (by rintro ⟨_, hspan, _⟩; cases hspan)
      rw [List.getElem?_cons_zero, List.getElem?_cons_zero] at hfirst
      rw [Option.some.inj hfirst]
  | [], _ :: _ => cases hlength
  | _ :: _, [] => cases hlength
  | [_], _ :: _ :: _ => simp at hlength
  | _ :: _ :: _, [_] => simp at hlength
  | first :: version :: rest, first' :: version' :: rest' =>
      have hbegin : ∀ i, i < 2 →
          (first :: version :: rest)[i]? = (first' :: version' :: rest')[i]? := by
        intro i hi
        refine hsame i ?_
        rintro ⟨span, hspan, hlow, _⟩
        have hge := keySpans_ge span hspan
        omega
      obtain rfl : first = first' := Option.some.inj (hbegin 0 (by decide))
      obtain rfl : version = version' := Option.some.inj (hbegin 1 (by decide))
      have hentries := keytabEntries_agree (keytabOrder native version.toNat) hlength
        (fun i _ hnot => hsame i hnot)
      rw [parseKeytab, parseKeytab, hentries]

/-- **Round trip, errors and secrecy**: a keytab that is stored comes back with its principals,
versions and enctypes in order; any bytes are read or are a `KeytabError`; and bytes that differ
only in the contents of keys are read alike. -/
theorem parseKeytab_faithful (native : ByteOrder) :
    (∀ keytab : StoredKeytab native, parseKeytab native keytab.bytes =
      .ok ⟨keytab.version, keytab.items.filterMap KeytabItem.result⟩) ∧
    (∀ data fault, parseKeytab native data = .error fault → fault.IsKeytabError) ∧
    ∀ one other : Bytes, one.length = other.length →
      (∀ i, ¬ InKey (keytabSpans native one) i → one[i]? = other[i]?) →
        parseKeytab native other = parseKeytab native one :=
  ⟨parseKeytab_bytes, parseKeytab_fails native, fun _ _ => parseKeytab_agree⟩

/-- The entry of a host, with a version that needs 32 bits. -/
def hostEntry : StoredEntry where
  realm := [0x45, 0x58]
  comps := [[0x68, 0x6F, 0x73, 0x74], [0x61]]
  nameType := [0, 0, 0, 1]
  timestamp := [0, 0, 0, 0]
  kvno := .long 300
  enctype := 18
  key := [1, 2, 3, 4]

/-- What is left of a deleted entry, and the entry. -/
def hostItems : List KeytabItem := [.hole (List.replicate 6 0), .entry hostEntry]

theorem hostItems_known : 2 = 1 ∨ 2 = 2 := .inr rfl

theorem hostItems_fit : ∀ item ∈ hostItems, item.Fits (keytabOrder .little 2) 2 := by
  rw [hostItems, List.forall_mem_cons, List.forall_mem_singleton]
  refine ⟨⟨by decide, by decide⟩, ?_⟩
  constructor <;> decide

/-- A keytab from which an entry was deleted. -/
def hostKeytab : StoredKeytab .little := ⟨2, hostItems, hostItems_known, hostItems_fit⟩

theorem parseKeytab_faithful_host :
    parseKeytab .little hostKeytab.bytes =
      .ok ⟨2, [⟨"host/a@EX".toList, 300, (enctypeOf 18).1, 18, (enctypeOf 18).2⟩]⟩ := by
  have hread := (parseKeytab_faithful .little).1 hostKeytab
  have hprincipal : hostEntry.entry.principal = "host/a@EX".toList := by decide
  have hentry : hostEntry.entry =
      ⟨"host/a@EX".toList, 300, (enctypeOf 18).1, 18, (enctypeOf 18).2⟩ := by
    rw [← hprincipal]
    rfl
  rw [hread, ← hentry]
  rfl

end PqcReadiness.Kerberos
