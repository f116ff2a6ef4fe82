import PqcReadiness.Ike.Proposals
import PqcReadiness.Lib.Convert

/-!
# Proposal texts and what they negotiate

`parse_ike_proposal` fills the slots of a proposal from the tokens of its text, and `_classify`
takes one method of each slot.  Here the result is compared with all selections of one method of
each slot, where `none` counts for nothing, and with the tokens in another order
(`classified_iff`).

The slots for additional exchanges leave `none` out before a method is taken; the primary slot does
not, so a proposal whose primary slot names only `none` is taken for one with a classical method.
A group with more digits than `int` takes raises.
-/

namespace PqcReadiness.Ike

open PqcReadiness.Lib

/-! ## The parser -/

/-- `_MODP`, its sizes. -/
def modpSizes : List ℕ := [768, 1024, 1536, 2048, 3072, 4096, 6144, 8192]

/-- `_DH_GROUPS`. -/
def dhGroups : List (ℕ × String) :=
  [(1, "MODP-768"), (2, "MODP-1024"), (5, "MODP-1536"), (14, "MODP-2048"), (15, "MODP-3072"),
    (16, "MODP-4096"), (17, "MODP-6144"), (18, "MODP-8192"), (19, "ECP-256"), (20, "ECP-384"),
    (21, "ECP-521"), (22, "MODP-1024-160"), (23, "MODP-2048-224"), (24, "MODP-2048-256"),
    (25, "ECP-192"), (26, "ECP-224"), (27, "ECP-224-BP"), (28, "ECP-256-BP"), (29, "ECP-384-BP"),
    (30, "ECP-512-BP"), (31, "Curve25519"), (32, "Curve448"), (35, "ML-KEM-512"),
    (36, "ML-KEM-768"), (37, "ML-KEM-1024")]

/-- The text behind a start that it has. -/
def after? (start : String) (text : List Char) : Option (List Char) :=
  if start.toList.isPrefixOf text then some (text.drop start.toList.length) else none

/-- The text behind an optional `_` or `-`. -/
def skipSeparator : List Char → List Char
  | '_' :: rest => rest
  | '-' :: rest => rest
  | text => text

/-- The size in a name of ML-KEM. -/
def mlKemSize (text : List Char) : Option String := do
  let rest ← after? "ml" text
  let size ← after? "kem" (skipSeparator rest)
  let size := String.ofList (skipSeparator size)
  if size ∈ ["512", "768", "1024"] then some size else none

/-- The digits of a `modp` group. -/
def modpDigits (text : List Char) : Option (List Char) := do
  let digits ← after? "modp" text
  if digits ≠ [] ∧ digits.all isDigit then some digits else none

/-- The text behind `dh` or `ecp`, and behind a `_` after the latter. -/
def groupText (text : List Char) : Option (List Char) :=
  match after? "dh" text, after? "ecp" text with
  | some rest, _ => some rest
  | none, some ('_' :: rest) => some rest
  | none, other => other

/-- The digits of a `dh` or `ecp` group, and whether it is a Brainpool curve. -/
def groupDigits (text : List Char) : Option (List Char × Bool) := do
  let rest ← groupText text
  let digits := rest.takeWhile isDigit
  let brainpool := String.ofList (rest.dropWhile isDigit)
  if digits = [] then none
  else if brainpool = "" then some (digits, false)
  else if brainpool = "bp" then some (digits, true)
  else none

/-- `int(digits)`, where it does not raise. -/
def intOf (digits : List Char) : Option ℕ :=
  if digits.length ≤ intMaxStrDigits then some (decimal digits) else none

/-- The method of a `modp` group; `none` where `int` raises. -/
def modpMethod (text : List Char) : Option (Option String) :=
  match modpDigits text with
  | none => some none
  | some digits => (intOf digits).map fun n =>
      if n ∈ modpSizes then some ("MODP-" ++ String.ofList digits) else none

/-- The method of a `dh` or `ecp` group; `none` where `int` raises. -/
def groupMethod (text : List Char) : Option (Option String) :=
  match groupDigits text with
  | none => some none
  | some (digits, brainpool) => (intOf digits).map fun n =>
      if "dh".toList.isPrefixOf text then (dhGroups.find? (·.1 = n)).map Prod.snd
      else if n ∈ [192, 224, 256, 384, 521, 512] then
        some ("ECP-" ++ toString n ++ if brainpool then "-BP" else "")
      else none

/-- The method of a curve. -/
def curveMethod (t : String) : Option String :=
  if t ∈ ["curve25519", "x25519"] then some "Curve25519"
  else if t ∈ ["curve448", "x448"] then some "Curve448"
  else none

section Parser

variable (lower : String → String)

/-- `_ke_method`; `none` where it raises. -/
def keMethod (token : String) : Option (Option String) :=
  let t := lower (strip token)
  if t = "none" then some (some "none")
  else
    match mlKemSize t.toList with
    | some size => some (some ("ML-KEM-" ++ size))
    | none => do
        let modp ← modpMethod t.toList
        match modp with
        | some method => some (some method)
        | none =>
            let group ← groupMethod t.toList
            some (group.or (curveMethod t))

/-- The slots of a proposal, as they are filled. -/
structure Slots where
  primary : List String := []
  additional : Dict String (List String) := Dict.empty

/-- A list with one more method, if it is not there. -/
def withMethod (methods : List String) (method : String) : List String :=
  if method ∈ methods then methods else methods ++ [method]

/-- A method for a slot. -/
def Slots.addMethod (slots : Slots) (slot : Option String) (method : String) : Slots :=
  match slot with
  | none => { slots with primary := withMethod slots.primary method }
  | some n =>
      { slots with
        additional := slots.additional.update n fun old => withMethod (old.getD []) method }

/-- The methods that a value names; `none` where one of its parts raises. -/
def namedMethods (value : String) : Option (List String) :=
  ((split '+' value).mapM (keMethod lower)).map (List.filterMap id)

/-- What a token says: its slot and its value. -/
structure Token where
  slot : Option String
  value : String

/-- The slot number behind a key that is followed by one of 1 to 7. -/
def slotNumber (text : List Char) : Option String :=
  match text with
  | [c] => if '1' ≤ c ∧ c ≤ '7' then some (String.ofList [c]) else none
  | _ => none

/-- The token of an assignment of Libreswan, if it is one of key exchanges. -/
def assignmentToken (seg : String) : Option Token :=
  let key := (lower (strip (beforeChar '=' seg))).toList
  let value := String.ofList ((seg.toList.dropWhile (· != '=')).drop 1)
  if key = "ke".toList then some ⟨none, value⟩
  else ((after? "addke" key).bind slotNumber).map fun n => ⟨some n, value⟩

/-- The token of strongSwan. -/
def dashToken (tok : String) : Token :=
  let text := (lower (strip tok)).toList
  let numbered : Option Token := do
    let rest ← after? "ke" text
    let n ← slotNumber (rest.take 1)
    let method ← after? "_" (rest.drop 1)
    if method ≠ [] ∧ '\n' ∉ method then some ⟨some n, String.ofList method⟩ else none
  numbered.getD ⟨none, tok⟩

/-- The tokens of a segment. -/
def segmentTokens (seg : String) : List Token :=
  let seg := strip seg
  if seg = "" then []
  else if '=' ∈ seg.toList then (assignmentToken lower seg).toList
  else (split '-' seg).map (dashToken lower)

/-- `text.strip().rstrip("!")`. -/
def rawProposal (text : String) : String := rstripChar '!' (strip text)

/-- The tokens of a proposal. -/
def proposalTokens (text : String) : List Token :=
  (split ';' (rawProposal text)).flatMap (segmentTokens lower)

/-- `add`. -/
def Slots.add (slots : Slots) (token : Token) : Option Slots :=
  (namedMethods lower token.value).map fun methods =>
    methods.foldl (fun slots method => slots.addMethod token.slot method) slots

/-- The slots of a proposal. -/
def parseSlots (text : String) : Option Slots :=
  (proposalTokens lower text).foldlM (Slots.add lower) {}

/-- What is said of a proposal. -/
structure ParsedProposal where
  proposal : String
  primary : List String
  additional : List (String × List String)
  classified : Classified

/-- The result for the slots. -/
def Slots.parsed (slots : Slots) (raw : String) : ParsedProposal where
  proposal := raw
  primary := slots.primary
  additional := slots.additional.sortedItems
  classified := classify slots.primary slots.additional.entries

/-- `parse_ike_proposal`; `none` where it raises. -/
def parseIkeProposal (text : String) : Option ParsedProposal :=
  (parseSlots lower text).map fun slots => slots.parsed (rawProposal text)

/-! ## What is in a slot -/

/-- The methods that a token names, each with its slot. -/
def Token.namings (token : Token) : List (Option String × String) :=
  ((namedMethods lower token.value).getD []).map fun method => (token.slot, method)

/-- The methods that a proposal names, each with its slot. -/
def namings (text : String) : List (Option String × String) :=
  (proposalTokens lower text).flatMap (Token.namings lower)

/-- The methods of a slot. -/
def Slots.methods (slots : Slots) : Option String → List String
  | none => slots.primary
  | some n => (slots.additional.get? n).getD []

end Parser

section Slots

variable {slots : Slots} {slot other : Option String} {method named : String}

theorem mem_withMethod {methods : List String} :
    named ∈ withMethod methods method ↔ named = method ∨ named ∈ methods := by
  rw [withMethod]
  split
  · next hmem => exact ⟨.inr, fun h => h.elim (fun heq => heq ▸ hmem) id⟩
  · rw [List.mem_append, List.mem_singleton, or_comm]

theorem withMethod_ne_nil (methods : List String) (method : String) :
    withMethod methods method ≠ [] := List.ne_nil_of_mem (mem_withMethod.mpr (.inl rfl))

theorem mem_methods_addMethod :
    named ∈ (slots.addMethod slot method).methods other ↔
      (other, named) = (slot, method) ∨ named ∈ slots.methods other := by
  rw [Prod.mk.injEq]
  cases slot with
  | none =>
      cases other with
      | none => simp [Slots.addMethod, Slots.methods, mem_withMethod]
      | some n => simp [Slots.addMethod, Slots.methods]
  | some m =>
      cases other with
      | none => simp [Slots.addMethod, Slots.methods]
      | some n =>
          by_cases hsame : n = m
          · subst hsame
            simp [Slots.addMethod, Slots.methods, Dict.get?_update, mem_withMethod]
          · simp [Slots.addMethod, Slots.methods, Dict.get?_update, hsame]

/-- No slot for an additional exchange is empty. -/
def Slots.Filled (slots : Slots) : Prop := ∀ n, slots.additional.get? n ≠ some []

theorem Slots.Filled.addMethod (hfilled : slots.Filled) (slot : Option String) (method : String) :
    (slots.addMethod slot method).Filled := by
  cases slot with
  | none => exact hfilled
  | some m =>
      intro n
      rw [Slots.addMethod, Dict.get?_update]
      split
      · exact fun h => withMethod_ne_nil _ _ (Option.some.inj h)
      · exact hfilled n

end Slots

/-- The slots that some named methods fill. -/
def fill (named : List (Option String × String)) (slots : Slots) : Slots :=
  named.foldl (fun slots naming => slots.addMethod naming.1 naming.2) slots

theorem fill_spec (named : List (Option String × String)) {slots : Slots} (hfilled : slots.Filled) :
    (fill named slots).Filled ∧ ∀ slot method,
      method ∈ (fill named slots).methods slot ↔
        (slot, method) ∈ named ∨ method ∈ slots.methods slot := by
  induction named generalizing slots with
  | nil => exact ⟨hfilled, by simp [fill]⟩
  | cons naming named ih =>
      obtain ⟨hrest, hmem⟩ := ih (hfilled.addMethod naming.1 naming.2)
      refine ⟨hrest, fun slot method => ?_⟩
      rw [fill, List.foldl_cons, ← fill, hmem, mem_methods_addMethod, List.mem_cons]
      tauto

section Parsed

variable {lower : String → String} {text : String}

theorem foldlM_add {tokens : List Token}
    (hreads : ∀ token ∈ tokens, (namedMethods lower token.value).isSome) (slots : Slots) :
    tokens.foldlM (Slots.add lower) slots =
      some (fill (tokens.flatMap (Token.namings lower)) slots) := by
  induction tokens generalizing slots with
  | nil => rfl
  | cons token tokens ih =>
      obtain ⟨hfirst, hrest⟩ := List.forall_mem_cons.mp hreads
      obtain ⟨methods, hmethods⟩ := Option.isSome_iff_exists.mp hfirst
      rw [List.foldlM_cons, Slots.add, hmethods]
      have hnext := ih hrest
        (methods.foldl (fun slots method => slots.addMethod token.slot method) slots)
      rw [List.flatMap_cons, fill, List.foldl_append, ← fill, Token.namings, hmethods]
      simpa [List.foldl_map] using hnext

theorem foldlM_add_eq_none {tokens : List Token} {token : Token} (htoken : token ∈ tokens)
    (hraises : namedMethods lower token.value = none) (slots : Slots) :
    tokens.foldlM (Slots.add lower) slots = none := by
  induction tokens generalizing slots with
  | nil => cases htoken
  | cons first tokens ih =>
      rw [List.foldlM_cons]
      rcases List.mem_cons.mp htoken with rfl | htoken
      · rw [Slots.add, hraises]
        rfl
      · cases hfirst : slots.add lower first with
        | none => rfl
        | some next => exact ih htoken next

/-- The slots hold what the tokens name, if all of them can be read. -/
theorem parseSlots_spec (lower : String → String) (text : String) :
    ((∀ token ∈ proposalTokens lower text, (namedMethods lower token.value).isSome) ∧
        parseSlots lower text = some (fill (namings lower text) {})) ∨
      ((¬ ∀ token ∈ proposalTokens lower text, (namedMethods lower token.value).isSome) ∧
        parseSlots lower text = none) := by
  by_cases hreads : ∀ token ∈ proposalTokens lower text, (namedMethods lower token.value).isSome
  · exact .inl ⟨hreads, foldlM_add hreads {}⟩
  · refine .inr ⟨hreads, ?_⟩
    push Not at hreads
    obtain ⟨token, htoken, hraises⟩ := hreads
    exact foldlM_add_eq_none htoken (by simpa using hraises) {}

theorem mapM_isSome_iff {α β : Type*} {f : α → Option β} {xs : List α} :
    (xs.mapM f).isSome ↔ ∀ x ∈ xs, (f x).isSome := by
  induction xs with
  | nil => simp
  | cons x xs ih =>
      rw [List.mapM_cons, List.forall_mem_cons, ← ih]
      cases f x <;> cases xs.mapM f <;> simp

/-- The digits of a group are more than `int` takes. -/
def HugeNumber (text : List Char) : Prop :=
  ∃ digits, (modpDigits text = some digits ∨ (groupDigits text).map Prod.fst = some digits) ∧
    intMaxStrDigits < digits.length

theorem intOf_isSome_iff {digits : List Char} :
    (intOf digits).isSome ↔ ¬ intMaxStrDigits < digits.length := by
  rw [intOf, not_lt]
  split <;> simp_all

theorem modpMethod_isSome_iff {text : List Char} :
    (modpMethod text).isSome ↔
      ∀ digits, modpDigits text = some digits → ¬ intMaxStrDigits < digits.length := by
  rw [modpMethod]
  cases modpDigits text with
  | none => simp
  | some digits => simp [intOf_isSome_iff]

theorem groupMethod_isSome_iff {text : List Char} :
    (groupMethod text).isSome ↔
      ∀ digits, (groupDigits text).map Prod.fst = some digits →
        ¬ intMaxStrDigits < digits.length := by
  rw [groupMethod]
  cases groupDigits text with
  | none => simp
  | some read => simp [intOf_isSome_iff]

theorem append_of_after? {start : String} {text rest : List Char}
    (hafter : after? start text = some rest) : text = start.toList ++ rest := by
  rw [after?] at hafter
  split at hafter
  · next hstart =>
      obtain ⟨more, rfl⟩ := List.isPrefixOf_iff_prefix.mp hstart
      simpa using hafter
  · cases hafter

theorem starts_of_mlKemSize {text : List Char} {size : String}
    (hsize : mlKemSize text = some size) :
    ∃ rest, text = 'm' :: 'l' :: rest := by
  rw [mlKemSize] at hsize
  obtain ⟨rest, hafter, -⟩ := Option.bind_eq_some_iff.mp hsize
  exact ⟨rest, append_of_after? hafter⟩

theorem starts_of_modpDigits {text digits : List Char} (hdigits : modpDigits text = some digits) :
    ∃ rest, text = 'm' :: 'o' :: rest := by
  rw [modpDigits] at hdigits
  obtain ⟨rest, hafter, -⟩ := Option.bind_eq_some_iff.mp hdigits
  exact ⟨'d' :: 'p' :: rest, append_of_after? hafter⟩

theorem starts_of_groupDigits {text : List Char} {read : List Char × Bool}
    (hread : groupDigits text = some read) : ∃ c rest, text = c :: rest ∧ (c = 'd' ∨ c = 'e') := by
  rw [groupDigits] at hread
  obtain ⟨rest, hgroup, -⟩ := Option.bind_eq_some_iff.mp hread
  rw [groupText] at hgroup
  cases hdh : after? "dh" text with
  | some behind => exact ⟨'d', 'h' :: behind, append_of_after? hdh, .inl rfl⟩
  | none =>
      cases hecp : after? "ecp" text with
      | some behind => exact ⟨'e', 'c' :: 'p' :: behind, append_of_after? hecp, .inr rfl⟩
      | none => simp [hdh, hecp] at hgroup

theorem starts_of_hugeNumber {text : List Char} (hhuge : HugeNumber text) :
    (∃ rest, text = 'm' :: 'o' :: rest) ∨ ∃ c rest, text = c :: rest ∧ (c = 'd' ∨ c = 'e') := by
  obtain ⟨digits, hmodp | hgroup, -⟩ := hhuge
  · exact .inl (starts_of_modpDigits hmodp)
  · obtain ⟨read, hread, -⟩ := Option.map_eq_some_iff.mp hgroup
    exact .inr (starts_of_groupDigits hread)

/-- A method is refused only for a number with too many digits. -/
theorem keMethod_isSome_iff {token : String} :
    (keMethod lower token).isSome ↔ ¬ HugeNumber (lower (strip token)).toList := by
  rw [keMethod]
  generalize lower (strip token) = t
  split
  case isTrue hnone =>
    refine iff_of_true rfl fun hhuge => ?_
    subst hnone
    obtain ⟨rest, hrest⟩ | ⟨c, rest, hrest, hc⟩ := starts_of_hugeNumber hhuge
    · simp at hrest
    · obtain ⟨rfl, -⟩ := List.cons.inj hrest
      exact absurd hc (by decide)
  case isFalse =>
    cases hsize : mlKemSize t.toList with
    | some size =>
        refine iff_of_true rfl fun hhuge => ?_
        obtain ⟨rest, hml⟩ := starts_of_mlKemSize hsize
        obtain ⟨rest', hrest⟩ | ⟨c, rest', hrest, hc⟩ := starts_of_hugeNumber hhuge
        · simp [hml] at hrest
        · obtain ⟨rfl, -⟩ := List.cons.inj (hml.symm.trans hrest)
          exact absurd hc (by decide)
    | none =>
        have hboth : ¬ HugeNumber t.toList ↔
            (modpMethod t.toList).isSome ∧ (groupMethod t.toList).isSome := by
          rw [modpMethod_isSome_iff, groupMethod_isSome_iff, ← forall_and, HugeNumber, not_exists]
          exact forall_congr' fun digits => by tauto
        rw [hboth]
        cases hmodp : modpMethod t.toList with
        | none => simp
        | some modp =>
            cases modp with
            | none =>
                cases groupMethod t.toList <;> simp
            | some method =>
                have hdigits : (modpDigits t.toList).isSome := by
                  by_contra hnot
                  rw [modpMethod, Option.not_isSome_iff_eq_none.mp hnot] at hmodp
                  cases hmodp
                obtain ⟨digits, hdigits⟩ := Option.isSome_iff_exists.mp hdigits
                obtain ⟨rest, hmo⟩ := starts_of_modpDigits hdigits
                have hgroup : groupDigits t.toList = none := by
                  by_contra hsome
                  obtain ⟨read, hread⟩ := Option.ne_none_iff_exists'.mp hsome
                  obtain ⟨c, rest', hrest, hc⟩ := starts_of_groupDigits hread
                  obtain ⟨rfl, -⟩ := List.cons.inj (hmo.symm.trans hrest)
                  exact absurd hc (by decide)
                simp [groupMethod, hgroup]

end Parsed

/-! ## The classification, slot by slot -/

/-- The slot names a method of ML-KEM. -/
def Offers (slot : List String) : Prop := ∃ method ∈ slot, isPqc method

/-- The method takes part in the exchange and is not one of ML-KEM. -/
def isClassical (method : String) : Bool := method ≠ "none" && !isPqc method

/-- The slot names nothing but `none`. -/
def OnlyNone (slot : List String) : Prop := slot ≠ [] ∧ ∀ method ∈ slot, method = "none"

theorem not_isPqc_none : isPqc "none" = false := by decide +kernel

theorem isClassical_of_mem {slot : List String} {method : String} (hmem : method ∈ slot)
    (hnone : method ≠ "none") (hoffers : ¬ Offers slot) : isClassical method := by
  have hclassical : isPqc method = false := by
    by_contra hpqc
    exact hoffers ⟨method, hmem, by simpa using hpqc⟩
  simp [isClassical, hnone, hclassical]

theorem filter_ne_nil_iff {slot : List String} :
    slot.filter (· ≠ "none") ≠ [] ↔ ¬ (slot ≠ [] → OnlyNone slot) := by
  rw [ne_eq, List.filter_eq_nil_iff, not_iff_not]
  constructor
  · exact fun hall hslot => ⟨hslot, fun method hmem => by simpa using hall method hmem⟩
  · intro honly method hmem
    simpa using (honly (List.ne_nil_of_mem hmem)).2 method hmem

/-- What is taken of a slot, if something is: ML-KEM where the slot offers it. -/
theorem preferPqc_spec (methods : List String) :
    ((preferPqc methods).any isPqc ↔ Offers methods) ∧
      ((preferPqc methods).any (fun method => !isPqc method) ↔
        methods ≠ [] ∧ ¬ Offers methods) := by
  rw [preferPqc]
  cases hpqc : methods.filter isPqc with
  | nil =>
      have hnone : ¬ Offers methods := by
        rintro ⟨method, hmem, hmethod⟩
        exact List.not_mem_nil (hpqc ▸ List.mem_filter.mpr ⟨hmem, hmethod⟩)
      cases methods with
      | nil => simp [hnone]
      | cons first rest =>
          have hfirst : ¬ isPqc first := fun hfirst => hnone ⟨first, List.mem_cons_self, hfirst⟩
          simp [hnone, hfirst]
  | cons first rest =>
      have hfirst : first ∈ methods.filter isPqc := hpqc ▸ List.mem_cons_self
      obtain ⟨hmem, hmethod⟩ := List.mem_filter.mp hfirst
      have hoffers : Offers methods := ⟨first, hmem, hmethod⟩
      simp [hoffers, hmethod]

theorem offers_filter_iff {slot : List String} :
    Offers (slot.filter (· ≠ "none")) ↔ Offers slot := by
  constructor
  · rintro ⟨method, hmem, hpqc⟩
    exact ⟨method, (List.mem_filter.mp hmem).1, hpqc⟩
  · rintro ⟨method, hmem, hpqc⟩
    refine ⟨method, List.mem_filter.mpr ⟨hmem, ?_⟩, hpqc⟩
    rw [decide_eq_true_eq]
    rintro rfl
    exact absurd hpqc (by rw [not_isPqc_none]; exact Bool.false_ne_true)

/-- Something is taken of which `p` holds. -/
theorem any_chosen (p : String → Bool) (primary : List String)
    (additional : List (String × List String)) :
    ((preferPqc primary).toList ++ additional.filterMap fun slot =>
        preferPqc (slot.2.filter (· ≠ "none"))).any p ↔
      (preferPqc primary).any p ∨
        ∃ slot ∈ additional, (preferPqc (slot.2.filter (· ≠ "none"))).any p := by
  rw [List.any_append, Bool.or_eq_true, List.any_filterMap]
  refine or_congr ?_ ?_
  · cases preferPqc primary <;> simp
  · rw [List.any_eq_true]
    refine exists_congr fun slot => and_congr_right fun _ => ?_
    cases preferPqc (slot.2.filter (· ≠ "none")) <;> simp

theorem classify_of_slots {primary : List String} {additional : List (String × List String)}
    (hslots : ¬ (primary = [] ∧ additional = [])) :
    ∃ chosen : List String, (∀ p : String → Bool, chosen.any p ↔ (preferPqc primary).any p ∨
        ∃ slot ∈ additional, (preferPqc (slot.2.filter (· ≠ "none"))).any p) ∧
      (classify primary additional).category = some
        (if chosen.any isPqc && chosen.any fun method => !isPqc method then .hybrid
          else if chosen.any isPqc then .purePqc else .classical) := by
  refine ⟨_, fun p => any_chosen p primary additional, ?_⟩
  rw [classify, if_neg hslots]

/-- A proposal is in `_classify` what its slots offer and what they name else; a primary slot
that names only `none` counts as one with a classical method. -/
theorem classify_category (primary : List String) (additional : List (String × List String)) :
    ((classify primary additional).category = none ↔ primary = [] ∧ additional = []) ∧
    (((classify primary additional).category = some .hybrid ∨
        (classify primary additional).category = some .purePqc) ↔
      Offers primary ∨ ∃ slot ∈ additional, Offers slot.2) ∧
    ((classify primary additional).category = some .purePqc ↔
      (Offers primary ∨ ∃ slot ∈ additional, Offers slot.2) ∧
        (primary ≠ [] → Offers primary) ∧
        ∀ slot ∈ additional, slot.2 ≠ [] → Offers slot.2 ∨ OnlyNone slot.2) := by
  by_cases hslots : primary = [] ∧ additional = []
  · obtain ⟨rfl, rfl⟩ := hslots
    simp [classify, Offers]
  · obtain ⟨chosen, hchosen, hcategory⟩ := classify_of_slots hslots
    have hpqc := hchosen isPqc
    have hclassical := hchosen fun method => !isPqc method
    simp only [(preferPqc_spec _).1, offers_filter_iff] at hpqc
    simp only [(preferPqc_spec _).2, offers_filter_iff, filter_ne_nil_iff] at hclassical
    have hpure : ¬ ((primary ≠ [] ∧ ¬ Offers primary) ∨ ∃ slot ∈ additional,
          ¬ (slot.2 ≠ [] → OnlyNone slot.2) ∧ ¬ Offers slot.2) ↔
        (primary ≠ [] → Offers primary) ∧
          ∀ slot ∈ additional, slot.2 ≠ [] → Offers slot.2 ∨ OnlyNone slot.2 := by
      push Not
      refine and_congr_right fun _ => forall₂_congr fun slot _ => ?_
      tauto
    rw [← hpure, ← hclassical, ← hpqc, hcategory, iff_false_right hslots]
    cases chosen.any isPqc <;> cases chosen.any fun method => !isPqc method <;> simp

theorem classify_pqcMandatory (primary : List String) (additional : List (String × List String)) :
    (classify primary additional).pqcMandatory ↔
      (primary ≠ [] ∧ ∀ method ∈ primary, isPqc method) ∨
        ∃ slot ∈ additional, slot.2 ≠ [] ∧ ∀ method ∈ slot.2, isPqc method := by
  rw [classify]
  split
  case isTrue hempty => simp [hempty.1, hempty.2]
  case isFalse =>
    rw [foldl_mandatory]
    simp only [Bool.or_eq_true, Bool.and_eq_true, List.any_eq_true, decide_eq_true_eq,
      List.all_eq_true, Bool.not_eq_true', List.isEmpty_eq_false_iff, ne_eq]

/-! ## Selections -/

section Selections

variable {α β : Type*} {R : α → β → Prop} {chosen : List α} {slots : List β}

theorem exists_choice (hall : ∀ slot ∈ slots, ∃ x, R x slot) :
    ∃ chosen, List.Forall₂ R chosen slots := by
  induction slots with
  | nil => exact ⟨[], .nil⟩
  | cons slot rest ih =>
      obtain ⟨x, hx⟩ := hall slot List.mem_cons_self
      obtain ⟨chosen, hchosen⟩ := ih fun other hother => hall other (List.mem_cons_of_mem _ hother)
      exact ⟨x :: chosen, .cons hx hchosen⟩

/-- Whatever can be taken of one slot is taken in some choice. -/
theorem exists_choice_through (hall : ∀ slot ∈ slots, ∃ x, R x slot) {slot : β}
    (hslot : slot ∈ slots) {x : α} (hx : R x slot) :
    ∃ chosen, List.Forall₂ R chosen slots ∧ x ∈ chosen := by
  obtain ⟨before, after, rfl⟩ := List.append_of_mem hslot
  obtain ⟨first, hfirst⟩ := exists_choice fun other hother =>
    hall other (List.mem_append_left _ hother)
  obtain ⟨second, hsecond⟩ := exists_choice fun other hother =>
    hall other (List.mem_append_right _ (List.mem_cons_of_mem _ hother))
  refine ⟨first ++ x :: second, List.rel_append hfirst (.cons hx hsecond), ?_⟩
  exact List.mem_append_right _ List.mem_cons_self

theorem exists_slot_of_choice (hchosen : List.Forall₂ R chosen slots) {x : α} (hx : x ∈ chosen) :
    ∃ slot ∈ slots, R x slot := by
  induction hchosen with
  | nil => cases hx
  | cons hfirst _ ih =>
      rcases List.mem_cons.mp hx with rfl | hx
      · exact ⟨_, List.mem_cons_self, hfirst⟩
      · obtain ⟨slot, hslot, hrel⟩ := ih hx
        exact ⟨slot, List.mem_cons_of_mem _ hslot, hrel⟩

end Selections

/-- A selection: one method of each slot. -/
def Selects (slots : List (List String)) (methods : List String) : Prop :=
  List.Forall₂ (fun method slot => method ∈ slot) methods slots

/-- A selection that uses ML-KEM in each slot that offers it. -/
def SelectsMlKem (slots : List (List String)) (methods : List String) : Prop :=
  List.Forall₂ (fun method slot => method ∈ slot ∧ (Offers slot → isPqc method)) methods slots

section Selects

variable {slots : List (List String)}

theorem exists_selects_iff (hslots : ∀ slot ∈ slots, slot ≠ []) :
    (∃ methods, Selects slots methods ∧ ∃ method ∈ methods, isPqc method) ↔
      ∃ slot ∈ slots, Offers slot := by
  constructor
  · rintro ⟨methods, hselects, method, hmem, hpqc⟩
    obtain ⟨slot, hslot, hin⟩ := exists_slot_of_choice hselects hmem
    exact ⟨slot, hslot, method, hin, hpqc⟩
  · rintro ⟨slot, hslot, method, hin, hpqc⟩
    obtain ⟨methods, hselects, hmem⟩ := exists_choice_through
      (fun other hother => List.exists_mem_of_ne_nil other (hslots other hother)) hslot hin
    exact ⟨methods, hselects, method, hmem, hpqc⟩

theorem forall_selects_iff :
    (∀ methods, Selects slots methods → ∃ method ∈ methods, isPqc method) ↔
      ∃ slot ∈ slots, ∀ method ∈ slot, isPqc method := by
  constructor
  · intro hall
    by_contra hnone
    push Not at hnone
    obtain ⟨methods, hselects, hclassical⟩ := exists_classical_choice hnone
    obtain ⟨method, hmem, hpqc⟩ := hall methods hselects
    exact hclassical method hmem hpqc
  · rintro ⟨slot, hslot, hpqc⟩ methods hselects
    obtain ⟨method, hmem, hin⟩ := mem_of_choice hselects hslot
    exact ⟨method, hmem, hpqc method hin⟩

theorem forall_selectsMlKem_iff (hslots : ∀ slot ∈ slots, slot ≠ []) :
    (∀ methods, SelectsMlKem slots methods → ∀ method ∈ methods, ¬ isClassical method) ↔
      ∀ slot ∈ slots, Offers slot ∨ OnlyNone slot := by
  constructor
  · intro hall slot hslot
    by_contra hneither
    obtain ⟨hoffers, honly⟩ := not_or.mp hneither
    obtain ⟨method, hin, hnamed⟩ : ∃ method ∈ slot, method ≠ "none" := by
      simpa [OnlyNone, hslots slot hslot] using honly
    have hchoice : ∀ other ∈ slots, ∃ method, method ∈ other ∧ (Offers other → isPqc method) := by
      intro other hother
      by_cases hpqc : Offers other
      · obtain ⟨method, hmem, hmethod⟩ := hpqc
        exact ⟨method, hmem, fun _ => hmethod⟩
      · obtain ⟨method, hmem⟩ := List.exists_mem_of_ne_nil other (hslots other hother)
        exact ⟨method, hmem, fun hoffered => absurd hoffered hpqc⟩
    obtain ⟨methods, hselects, hmem⟩ := exists_choice_through hchoice hslot
      ⟨hin, fun hoffered => absurd hoffered hoffers⟩
    exact hall methods hselects method hmem (isClassical_of_mem hin hnamed hoffers)
  · intro hall methods hselects method hmem hclassical
    obtain ⟨slot, hslot, hin, hprefers⟩ := exists_slot_of_choice hselects hmem
    obtain ⟨hnamed, hother⟩ : method ≠ "none" ∧ isPqc method = false := by
      simpa [isClassical] using hclassical
    rcases hall slot hslot with hoffers | ⟨-, honly⟩
    · rw [hprefers hoffers] at hother
      cases hother
    · exact hnamed (honly method hin)

end Selects

/-! ## The result against the selections -/

/-- The slots of a proposal that name a method. -/
def ParsedProposal.slots (p : ParsedProposal) : List (List String) :=
  (p.primary :: p.additional.map Prod.snd).filter (· ≠ [])

/-- The result says what is negotiated. -/
structure ParsedProposal.Describes (p : ParsedProposal) : Prop where
  mandatory : p.classified.pqcMandatory ↔
    p.slots ≠ [] ∧ ∀ methods, Selects p.slots methods → ∃ method ∈ methods, isPqc method
  offered : (p.classified.category = some .hybrid ∨ p.classified.category = some .purePqc) ↔
    ∃ methods, Selects p.slots methods ∧ ∃ method ∈ methods, isPqc method
  pure : p.classified.category = some .purePqc ↔
    (∃ methods, Selects p.slots methods ∧ ∃ method ∈ methods, isPqc method) ∧
      ∀ methods, SelectsMlKem p.slots methods → ∀ method ∈ methods, ¬ isClassical method
  unnamed : p.classified.category = none ↔ p.slots = []

/-- The primary slot names only `none`, and the additional slots alone are pure ML-KEM: one of
them offers it, and each offers it or names only `none`. -/
def NoneForPrimary (named : List (Option String × String)) : Prop :=
  (∃ method, (none, method) ∈ named) ∧ (∀ method, (none, method) ∈ named → method = "none") ∧
    (∃ n method, (some n, method) ∈ named ∧ isPqc method) ∧
    ∀ n method, (some n, method) ∈ named →
      method = "none" ∨ ∃ other, (some n, other) ∈ named ∧ isPqc other

/-- No group of the proposal has more digits than `int` takes. -/
def Readable (lower : String → String) (text : String) : Prop :=
  ∀ token ∈ proposalTokens lower text, ∀ alternative ∈ split '+' token.value,
    ¬ HugeNumber (lower (strip alternative)).toList

theorem ne_nil_of_mem_slots {p : ParsedProposal} {slot : List String} (hslot : slot ∈ p.slots) :
    slot ≠ [] := by simpa using (List.mem_filter.mp hslot).2

/-- A quantifier over the slots. -/
theorem exists_slot_iff {p : ParsedProposal} {P : List String → Prop} :
    (∃ slot ∈ p.slots, P slot) ↔
      (p.primary ≠ [] ∧ P p.primary) ∨ ∃ slot ∈ p.additional, slot.2 ≠ [] ∧ P slot.2 := by
  simp only [ParsedProposal.slots, List.mem_filter, List.mem_cons, List.mem_map, decide_eq_true_eq]
  constructor
  · rintro ⟨_, ⟨rfl | ⟨slot, hslot, rfl⟩, hne⟩, hP⟩
    · exact .inl ⟨hne, hP⟩
    · exact .inr ⟨slot, hslot, hne, hP⟩
  · rintro (⟨hne, hP⟩ | ⟨slot, hslot, hne, hP⟩)
    · exact ⟨_, ⟨.inl rfl, hne⟩, hP⟩
    · exact ⟨_, ⟨.inr ⟨slot, hslot, rfl⟩, hne⟩, hP⟩

theorem ne_nil_of_mem_entries {slots : Slots} (hfilled : slots.Filled)
    {slot : String × List String} (hslot : slot ∈ slots.additional.entries) : slot.2 ≠ [] := by
  intro hempty
  refine hfilled slot.1 ?_
  rw [← hempty, ← Dict.mem_entries_iff]
  exact hslot

/-- Two ways to fill the slots with the same methods. -/
def Slots.Alike (first second : Slots) : Prop :=
  ∀ slot named, named ∈ first.methods slot ↔ named ∈ second.methods slot

/-- What depends only on the methods of a slot holds of a slot of both. -/
theorem exists_entry_of_alike {first second : Slots} (hfirst : first.Filled)
    (halike : first.Alike second) {P : List String → Prop}
    (hP : ∀ methods others : List String, (∀ named, named ∈ methods ↔ named ∈ others) →
      P methods → P others)
    (hentry : ∃ slot ∈ first.additional.entries, P slot.2) :
    ∃ slot ∈ second.additional.entries, P slot.2 := by
  obtain ⟨⟨n, methods⟩, hslot, hmethods⟩ := hentry
  have hne : methods ≠ [] := ne_nil_of_mem_entries hfirst hslot
  have hget : first.additional.get? n = some methods := first.additional.mem_entries_iff.mp hslot
  have hnamed : ∀ named, named ∈ methods ↔ named ∈ second.methods (some n) := by
    intro named
    rw [← halike (some n) named, Slots.methods, hget]
    rfl
  cases hother : second.additional.get? n with
  | none =>
      obtain ⟨method, hmem⟩ := List.exists_mem_of_ne_nil methods hne
      have hin := (hnamed method).mp hmem
      simp [Slots.methods, hother] at hin
  | some others =>
      refine ⟨(n, others), second.additional.mem_entries_iff.mpr hother,
        hP methods others ?_ hmethods⟩
      intro named
      rw [hnamed named, Slots.methods, hother]
      rfl

theorem exists_entry_iff_of_alike {first second : Slots} (hfirst : first.Filled)
    (hsecond : second.Filled) (halike : first.Alike second) {P : List String → Prop}
    (hP : ∀ methods others : List String, (∀ named, named ∈ methods ↔ named ∈ others) →
      (P methods ↔ P others)) :
    (∃ slot ∈ first.additional.entries, P slot.2) ↔
      ∃ slot ∈ second.additional.entries, P slot.2 :=
  ⟨exists_entry_of_alike hfirst halike fun _ _ hsame => (hP _ _ hsame).mp,
    exists_entry_of_alike hsecond (fun slot named => (halike slot named).symm)
      fun _ _ hsame => (hP _ _ hsame).mp⟩

section Same

variable {methods others : List String} (hsame : ∀ named, named ∈ methods ↔ named ∈ others)

include hsame

theorem nil_iff_of_same : methods = [] ↔ others = [] := by
  simp only [List.eq_nil_iff_forall_not_mem, hsame]

theorem offers_iff_of_same : Offers methods ↔ Offers others := by
  simp only [Offers, hsame]

theorem onlyNone_iff_of_same : OnlyNone methods ↔ OnlyNone others := by
  simp only [OnlyNone, ne_eq, nil_iff_of_same hsame, hsame]

theorem onlyMlKem_iff_of_same :
    (methods ≠ [] ∧ ∀ method ∈ methods, isPqc method) ↔
      (others ≠ [] ∧ ∀ method ∈ others, isPqc method) := by
  simp only [ne_eq, nil_iff_of_same hsame, hsame]

end Same

theorem category_ext {first second : Option Category} (hnone : first = none ↔ second = none)
    (hpqc : (first = some .hybrid ∨ first = some .purePqc) ↔
      (second = some .hybrid ∨ second = some .purePqc))
    (hpure : first = some .purePqc ↔ second = some .purePqc) : first = second := by
  rcases first with _ | _ | _ | _ <;> rcases second with _ | _ | _ | _ <;> simp_all

/-- The classification depends only on the methods of each slot. -/
theorem classify_of_alike {first second : Slots} (hfirst : first.Filled) (hsecond : second.Filled)
    (halike : first.Alike second) :
    (classify first.primary first.additional.entries).category =
        (classify second.primary second.additional.entries).category ∧
      (classify first.primary first.additional.entries).pqcMandatory =
        (classify second.primary second.additional.entries).pqcMandatory := by
  have hprimary : ∀ named, named ∈ first.primary ↔ named ∈ second.primary := halike none
  have hentry {P : List String → Prop}
      (hP : ∀ methods others : List String, (∀ named, named ∈ methods ↔ named ∈ others) →
        (P methods ↔ P others)) :=
    exists_entry_iff_of_alike hfirst hsecond halike hP
  obtain ⟨hnone, hpqc, hpure⟩ := classify_category first.primary first.additional.entries
  obtain ⟨hnone', hpqc', hpure'⟩ := classify_category second.primary second.additional.entries
  have hoffers := or_congr (offers_iff_of_same hprimary) (hentry fun _ _ => offers_iff_of_same)
  refine ⟨category_ext ?_ ?_ ?_, ?_⟩
  · have hempty := hentry (P := fun _ => True) fun _ _ _ => Iff.rfl
    rw [hnone, hnone', nil_iff_of_same hprimary]
    refine and_congr_right fun _ => ?_
    simpa [List.eq_nil_iff_forall_not_mem] using not_congr hempty
  · rw [hpqc, hpqc']
    exact hoffers
  · rw [hpure, hpure']
    refine and_congr hoffers (and_congr ?_ ?_)
    · rw [ne_eq, nil_iff_of_same hprimary, offers_iff_of_same hprimary]
    · have hother := hentry (P := fun slot => ¬ (slot ≠ [] → Offers slot ∨ OnlyNone slot))
        fun _ _ hsame => by
          rw [ne_eq, nil_iff_of_same hsame, offers_iff_of_same hsame, onlyNone_iff_of_same hsame]
      simpa [imp_iff_not_or, or_assoc] using not_congr hother
  · rw [Bool.eq_iff_iff, classify_pqcMandatory, classify_pqcMandatory]
    exact or_congr (onlyMlKem_iff_of_same hprimary) (hentry fun _ _ => onlyMlKem_iff_of_same)

theorem parsed_of_alike {first second : Slots} (hfirst : first.Filled) (hsecond : second.Filled)
    (halike : first.Alike second) (raw raw' : String) :
    (first.parsed raw).classified.category = (second.parsed raw').classified.category ∧
      (first.parsed raw).classified.pqcMandatory =
        (second.parsed raw').classified.pqcMandatory :=
  classify_of_alike hfirst hsecond halike

section Described

variable {slots : Slots} (hfilled : slots.Filled) (raw : String)

include hfilled

/-- A quantifier over the slots that were filled. -/
theorem exists_slot_parsed_iff {P : List String → Prop} :
    (∃ slot ∈ (slots.parsed raw).slots, P slot) ↔
      (slots.primary ≠ [] ∧ P slots.primary) ∨
        ∃ slot ∈ slots.additional.entries, P slot.2 := by
  rw [exists_slot_iff]
  refine or_congr Iff.rfl (exists_congr fun slot => ?_)
  rw [show (slots.parsed raw).additional = slots.additional.sortedItems from rfl,
    slots.additional.sortedItems_perm.mem_iff]
  refine and_congr_right fun hslot => and_iff_right ?_
  exact ne_nil_of_mem_entries hfilled hslot

theorem describes_mandatory :
    (slots.parsed raw).classified.pqcMandatory ↔
      (slots.parsed raw).slots ≠ [] ∧
        ∀ methods, Selects (slots.parsed raw).slots methods → ∃ method ∈ methods, isPqc method := by
  have hcode : (slots.parsed raw).classified.pqcMandatory ↔
      ∃ slot ∈ (slots.parsed raw).slots, ∀ method ∈ slot, isPqc method := by
    rw [exists_slot_parsed_iff hfilled]
    refine (classify_pqcMandatory _ _).trans (or_congr_right (exists_congr fun slot => ?_))
    refine and_congr_right fun hslot => and_iff_right ?_
    exact ne_nil_of_mem_entries hfilled hslot
  rw [hcode, forall_selects_iff]
  refine (and_iff_right_of_imp ?_).symm
  rintro ⟨slot, hslot, -⟩
  exact List.ne_nil_of_mem hslot

theorem describes_offered :
    ((slots.parsed raw).classified.category = some .hybrid ∨
        (slots.parsed raw).classified.category = some .purePqc) ↔
      ∃ methods, Selects (slots.parsed raw).slots methods ∧ ∃ method ∈ methods, isPqc method := by
  rw [exists_selects_iff fun _ => ne_nil_of_mem_slots, exists_slot_parsed_iff hfilled]
  refine (classify_category _ _).2.1.trans (or_congr_left ?_)
  refine (and_iff_right_of_imp ?_).symm
  rintro ⟨method, hmem, -⟩
  exact List.ne_nil_of_mem hmem

theorem describes_unnamed :
    (slots.parsed raw).classified.category = none ↔ (slots.parsed raw).slots = [] := by
  have hsome := exists_slot_parsed_iff hfilled raw (P := fun _ => True)
  calc (slots.parsed raw).classified.category = none
      ↔ slots.primary = [] ∧ slots.additional.entries = [] := (classify_category _ _).1
    _ ↔ ¬ ∃ slot ∈ (slots.parsed raw).slots, True := by
        rw [hsome, List.eq_nil_iff_forall_not_mem (l := slots.additional.entries)]
        simp
    _ ↔ (slots.parsed raw).slots = [] := by
        rw [List.eq_nil_iff_forall_not_mem]
        simp

theorem forall_slot_parsed_iff {P : List String → Prop} :
    (∀ slot ∈ (slots.parsed raw).slots, P slot) ↔
      (slots.primary ≠ [] → P slots.primary) ∧ ∀ slot ∈ slots.additional.entries, P slot.2 := by
  have hnot := not_congr (exists_slot_parsed_iff hfilled raw (P := fun slot => ¬ P slot))
  simpa only [not_exists, not_and, not_or, not_not] using hnot

theorem category_pure_iff :
    (slots.parsed raw).classified.category = some .purePqc ↔
      (Offers slots.primary ∨ ∃ slot ∈ slots.additional.entries, Offers slot.2) ∧
        (slots.primary ≠ [] → Offers slots.primary) ∧
        ∀ slot ∈ slots.additional.entries, Offers slot.2 ∨ OnlyNone slot.2 := by
  refine (classify_category slots.primary slots.additional.entries).2.2.trans ?_
  refine and_congr_right fun _ => and_congr_right fun _ => forall₂_congr fun slot hslot => ?_
  exact forall_prop_of_true (ne_nil_of_mem_entries hfilled hslot)

theorem exists_entry_iff {P : List String → Prop} :
    (∃ slot ∈ slots.additional.entries, P slot.2) ↔
      ∃ n, slots.methods (some n) ≠ [] ∧ P (slots.methods (some n)) := by
  constructor
  · rintro ⟨⟨n, methods⟩, hslot, hP⟩
    have hget : slots.methods (some n) = methods := by
      rw [Slots.methods, slots.additional.mem_entries_iff.mp hslot]
      rfl
    exact ⟨n, hget ▸ ne_nil_of_mem_entries hfilled hslot, hget ▸ hP⟩
  · rintro ⟨n, hne, hP⟩
    cases hget : slots.additional.get? n with
    | none => exact absurd (by simp [Slots.methods, hget]) hne
    | some methods =>
        rw [Slots.methods, hget] at hP
        exact ⟨(n, methods), slots.additional.mem_entries_iff.mpr hget, hP⟩

theorem noneForPrimary_iff {named : List (Option String × String)}
    (hnamed : ∀ slot method, method ∈ slots.methods slot ↔ (slot, method) ∈ named) :
    NoneForPrimary named ↔ OnlyNone slots.primary ∧
      (∃ slot ∈ slots.additional.entries, Offers slot.2) ∧
        ∀ slot ∈ slots.additional.entries, Offers slot.2 ∨ OnlyNone slot.2 := by
  have hentries : (∀ slot ∈ slots.additional.entries, Offers slot.2 ∨ OnlyNone slot.2) ↔
      ∀ n, slots.methods (some n) ≠ [] →
        Offers (slots.methods (some n)) ∨ OnlyNone (slots.methods (some n)) := by
    have hnot := not_congr (exists_entry_iff hfilled
      (P := fun slot => ¬ (Offers slot ∨ OnlyNone slot)))
    simpa only [not_exists, not_and, not_not] using hnot
  rw [exists_entry_iff hfilled, hentries, NoneForPrimary, ← and_assoc]
  refine and_congr ?_ (and_congr ?_ (forall_congr' fun n => ?_))
  · have hne : slots.primary ≠ [] ↔ ∃ method, method ∈ slots.primary :=
      ⟨List.exists_mem_of_ne_nil _, fun ⟨_, hmem⟩ => List.ne_nil_of_mem hmem⟩
    simp only [← hnamed, Slots.methods, OnlyNone, hne]
  · simp only [← hnamed, Offers]
    refine exists_congr fun n => (and_iff_right_of_imp ?_).symm
    rintro ⟨method, hmem, -⟩
    exact List.ne_nil_of_mem hmem
  · simp only [← hnamed, Offers, OnlyNone]
    constructor
    · intro hall hne
      by_cases hoffers : ∃ method ∈ slots.methods (some n), isPqc method
      · exact .inl hoffers
      · exact .inr ⟨hne, fun method hmem => (hall method hmem).resolve_right hoffers⟩
    · intro hall method hmem
      rcases hall (List.ne_nil_of_mem hmem) with hoffers | ⟨-, honly⟩
      · exact .inr hoffers
      · exact .inl (honly method hmem)

/-- The slots are taken for pure ML-KEM when they are, but for a primary slot that names only
`none`. -/
theorem describes_pure_iff {named : List (Option String × String)}
    (hnamed : ∀ slot method, method ∈ slots.methods slot ↔ (slot, method) ∈ named) :
    ((slots.parsed raw).classified.category = some .purePqc ↔
      (∃ methods, Selects (slots.parsed raw).slots methods ∧ ∃ method ∈ methods, isPqc method) ∧
        ∀ methods, SelectsMlKem (slots.parsed raw).slots methods →
          ∀ method ∈ methods, ¬ isClassical method) ↔
      ¬ NoneForPrimary named := by
  rw [exists_selects_iff fun _ => ne_nil_of_mem_slots, exists_slot_parsed_iff hfilled,
    forall_selectsMlKem_iff fun _ => ne_nil_of_mem_slots, forall_slot_parsed_iff hfilled,
    category_pure_iff hfilled, noneForPrimary_iff hfilled hnamed]
  have hoffers : Offers slots.primary → slots.primary ≠ [] := by
    rintro ⟨method, hmem, -⟩
    exact List.ne_nil_of_mem hmem
  have honly : OnlyNone slots.primary → ¬ Offers slots.primary := by
    rintro ⟨-, hnone⟩ ⟨method, hmem, hpqc⟩
    rw [hnone method hmem, not_isPqc_none] at hpqc
    cases hpqc
  have hnonempty : OnlyNone slots.primary → slots.primary ≠ [] := And.left
  generalize (∃ slot ∈ slots.additional.entries, Offers slot.2) = offered
  generalize (∀ slot ∈ slots.additional.entries, Offers slot.2 ∨ OnlyNone slot.2) = pure
  by_cases hpqc : Offers slots.primary
  · have hnot : ¬ OnlyNone slots.primary := fun hnone => honly hnone hpqc
    simp only [hpqc, hnot]
    tauto
  · simp only [hpqc]
    tauto

end Described

section Whole

variable (lower : String → String) (text : String)

theorem parseSlots_isSome_iff : (parseSlots lower text).isSome ↔ Readable lower text := by
  have hreads : (∀ token ∈ proposalTokens lower text, (namedMethods lower token.value).isSome) ↔
      Readable lower text := by
    refine forall₂_congr fun token _ => ?_
    rw [namedMethods, Option.isSome_map, mapM_isSome_iff]
    exact forall₂_congr fun _ _ => keMethod_isSome_iff
  rcases parseSlots_spec lower text with ⟨hall, hslots⟩ | ⟨hnot, hslots⟩
  · exact iff_of_true (by rw [hslots]; rfl) (hreads.mp hall)
  · exact iff_of_false (by rw [hslots]; exact Bool.false_ne_true) (mt hreads.mpr hnot)

theorem parseSlots_of_readable (hread : Readable lower text) :
    ∃ slots, parseSlots lower text = some slots ∧ slots.Filled ∧
      ∀ slot method, method ∈ slots.methods slot ↔ (slot, method) ∈ namings lower text := by
  rcases parseSlots_spec lower text with ⟨-, hslots⟩ | ⟨-, hslots⟩
  · have hempty : ({} : Slots).Filled := by simp [Slots.Filled]
    obtain ⟨hfilled, hmem⟩ := fill_spec (namings lower text) hempty
    refine ⟨_, hslots, hfilled, fun slot method => ?_⟩
    rw [hmem, or_iff_left]
    cases slot <;> simp [Slots.methods]
  · have hsome := (parseSlots_isSome_iff lower text).mpr hread
    rw [hslots] at hsome
    cases hsome

end Whole

/-- **The result says what is negotiated, for the tokens in every order, exactly when no group has
more digits than `int` takes, and the primary slot does not name only `none` where the additional
slots alone are pure ML-KEM.** -/
theorem classified_iff (lower : String → String) (text : String) :
    (∃ p, parseIkeProposal lower text = some p ∧ p.Describes ∧
      ∀ other, (proposalTokens lower other).Perm (proposalTokens lower text) →
        ∃ q, parseIkeProposal lower other = some q ∧
          q.classified.category = p.classified.category ∧
          q.classified.pqcMandatory = p.classified.pqcMandatory) ↔
      Readable lower text ∧ ¬ NoneForPrimary (namings lower text) := by
  constructor
  · rintro ⟨p, hp, hdescribes, -⟩
    obtain ⟨slots, hslots, rfl⟩ := Option.map_eq_some_iff.mp hp
    have hread : Readable lower text := by
      rw [← parseSlots_isSome_iff, hslots]
      rfl
    obtain ⟨slots', hslots', hfilled, hnamed⟩ := parseSlots_of_readable lower text hread
    obtain rfl : slots = slots' := Option.some.inj (hslots.symm.trans hslots')
    exact ⟨hread, (describes_pure_iff hfilled _ hnamed).mp hdescribes.pure⟩
  · rintro ⟨hread, hnone⟩
    obtain ⟨slots, hslots, hfilled, hnamed⟩ := parseSlots_of_readable lower text hread
    have hdescribes : (slots.parsed (rawProposal text)).Describes :=
      ⟨describes_mandatory hfilled _, describes_offered hfilled _,
        (describes_pure_iff hfilled _ hnamed).mpr hnone, describes_unnamed hfilled _⟩
    refine ⟨_, by rw [parseIkeProposal, hslots, Option.map_some], hdescribes, fun other hperm => ?_⟩
    have hreadOther : Readable lower other := fun token htoken =>
      hread token (hperm.mem_iff.mp htoken)
    obtain ⟨others, hothers, hfilled', hnamed'⟩ := parseSlots_of_readable lower other hreadOther
    have halike : others.Alike slots := by
      intro slot method
      rw [hnamed, hnamed']
      exact (hperm.flatMap_right _).mem_iff
    exact ⟨_, by rw [parseIkeProposal, hothers, Option.map_some],
      parsed_of_alike hfilled' hfilled halike _ _⟩

/-- No method is left for the primary exchange, and ML-KEM alone is negotiated. -/
theorem not_classified_none_primary :
    ¬ ∃ p, parseIkeProposal id "aes;ke=none;addke1=ml_kem_768" = some p ∧ p.Describes := by
  rintro ⟨p, hp, hdescribes⟩
  have hnamings : namings id "aes;ke=none;addke1=ml_kem_768" =
      [(none, "none"), (some "1", "ML-KEM-768")] := by decide +kernel
  have hnone : NoneForPrimary (namings id "aes;ke=none;addke1=ml_kem_768") := by
    rw [hnamings]
    refine ⟨⟨"none", by simp⟩, by simp, ⟨"1", "ML-KEM-768", by simp, by decide +kernel⟩, ?_⟩
    intro n method hmem
    refine .inr ⟨"ML-KEM-768", ?_, by decide +kernel⟩
    simp_all
  obtain ⟨slots, hslots, rfl⟩ := Option.map_eq_some_iff.mp hp
  have hread : Readable id "aes;ke=none;addke1=ml_kem_768" := by
    rw [← parseSlots_isSome_iff, hslots]
    rfl
  obtain ⟨slots', hslots', hfilled, hnamed⟩ := parseSlots_of_readable id _ hread
  obtain rfl : slots = slots' := Option.some.inj (hslots.symm.trans hslots')
  exact (describes_pure_iff hfilled _ hnamed).mp hdescribes.pure hnone

end PqcReadiness.Ike
