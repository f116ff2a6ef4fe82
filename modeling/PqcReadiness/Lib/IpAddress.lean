import PqcReadiness.Lib.Text

/-!
# Internet addresses as text

Parsing and printing of IPv4 and IPv6 addresses with the rules of Python's
`ipaddress` module: dotted quads without leading zeros; colon-separated hextets
with at most one `::`, an optional dotted quad at the end and an optional
`%scope`; printing compresses the first longest run of at least two zero
hextets.
-/

namespace PqcReadiness.Lib

/-- A parsed address. -/
inductive IpAddress where
  | v4 (octets : List ℕ)
  | v6 (hextets : List ℕ) (scope : Option (List Char))
  deriving DecidableEq

namespace IpAddress

/-- One octet of a dotted quad. -/
def octet (part : List Char) : Option ℕ :=
  if part ≠ [] ∧ part.all (fun c => '0' ≤ c && c ≤ '9') ∧ part.length ≤ 3 ∧
      (part = ['0'] ∨ part.head? ≠ some '0') ∧ decimal part ≤ 255
  then some (decimal part) else none

/-- A dotted quad. -/
def parseV4 (s : List Char) : Option (List ℕ) :=
  let parts := splitChars '.' s
  if parts.length = 4 then parts.mapM octet else none

/-- One hextet. -/
def hextet (part : List Char) : Option ℕ :=
  if part ≠ [] ∧ part.all isHex ∧ part.length ≤ 4 then some (hexadecimal part) else none

/-- A dotted quad at the end stands for two hextets. -/
def expandQuad (parts : List (List Char)) : Option (List (List Char)) :=
  match parts.getLast? with
  | none => none
  | some last =>
      if '.' ∈ last then
        match parseV4 last with
        | some [a, b, c, d] =>
            some (parts.dropLast ++
              [Nat.toDigits 16 (256 * a + b), Nat.toDigits 16 (256 * c + d)])
        | _ => none
      else some parts

/-- The hextets of the parts, with zeros in the place of one empty inner part. -/
def fillZeros (parts : List (List Char)) : Option (List ℕ) :=
  let leading := parts.head? == some []
  let trailing := parts.getLast? == some []
  match (List.range parts.length).filter
      (fun i => 0 < i && i + 1 < parts.length && parts[i]? == some []) with
  | [] => if parts.length = 8 ∧ !leading ∧ !trailing then parts.mapM hextet else none
  | [skip] =>
      let high := if leading then skip - 1 else skip
      let low := if trailing then parts.length - skip - 2 else parts.length - skip - 1
      if (leading ∧ high ≠ 0) ∨ (trailing ∧ low ≠ 0) ∨ 8 ≤ high + low then none
      else
        ((parts.take high).mapM hextet).bind fun first =>
          ((parts.drop (parts.length - low)).mapM hextet).map fun second =>
            first ++ List.replicate (8 - (high + low)) 0 ++ second
  | _ => none

/-- The eight hextets of an IPv6 address. -/
def parseHextets (s : List Char) : Option (List ℕ) :=
  let split := splitChars ':' s
  if split.length < 3 then none
  else (expandQuad split).bind fun parts => if 9 < parts.length then none else fillZeros parts

/-- `ipaddress.ip_address(text)`. -/
def parse (s : List Char) : Option IpAddress :=
  match parseV4 s with
  | some octets => some (v4 octets)
  | none =>
      let address := s.takeWhile (· != '%')
      let scope := (s.dropWhile (· != '%')).tail
      if '/' ∈ s then none
      else if '%' ∈ s then
        if scope = [] ∨ '%' ∈ scope then none
        else (parseHextets address).map fun hextets => v6 hextets (some scope)
      else (parseHextets address).map fun hextets => v6 hextets none

/-- The dotted quad of four octets. -/
def quadText (octets : List ℕ) : String := join "." (octets.map toString)

/-- Start and length of the first longest run of zeros. -/
def longestZeros (hextets : List ℕ) : ℕ × ℕ :=
  let runs := (List.range hextets.length).map fun start =>
    (start, ((hextets.drop start).takeWhile (· == 0)).length)
  runs.foldl (fun best run => if best.2 < run.2 then run else best) (0, 0)

/-- The compressed text of eight hextets. -/
def hextetsText (hextets : List ℕ) : String :=
  let texts := hextets.map fun n => String.ofList (Nat.toDigits 16 n)
  let (start, length) := longestZeros hextets
  if 1 < length then
    join ":" (texts.take start) ++ "::" ++ join ":" (texts.drop (start + length))
  else join ":" texts

/-- `addr.ipv4_mapped`. -/
def mapped : IpAddress → Option (List ℕ)
  | v6 [0, 0, 0, 0, 0, 0xFFFF, high, low] _ =>
      some [high / 256, high % 256, low / 256, low % 256]
  | _ => none

/-- `str(addr)`. -/
def toText : IpAddress → String
  | v4 octets => quadText octets
  | v6 hextets none => hextetsText hextets
  | v6 hextets (some scope) => hextetsText hextets ++ "%" ++ String.ofList scope

/-! ## An address never prints as the empty text -/

/-- The numbers of an address. -/
def numbers : IpAddress → List ℕ
  | v4 octets => octets
  | v6 hextets _ => hextets

private theorem mapM_ne_nil {α β : Type} {f : α → Option β} {xs : List α} {ys : List β}
    (hxs : xs ≠ []) (hys : xs.mapM f = some ys) : ys ≠ [] := by
  cases xs with
  | nil => exact absurd rfl hxs
  | cons x rest =>
      rintro rfl
      simp [List.mapM_cons, Option.bind_eq_some_iff] at hys

theorem parseV4_ne_nil {s : List Char} {octets : List ℕ} (hparse : parseV4 s = some octets) :
    octets ≠ [] := by
  unfold parseV4 at hparse
  simp only at hparse
  split at hparse
  case isTrue hlength =>
    refine mapM_ne_nil ?_ hparse
    rintro hnil
    simp [hnil] at hlength
  case isFalse => exact absurd hparse (by simp)

theorem fillZeros_ne_nil {parts : List (List Char)} {hextets : List ℕ}
    (hfill : fillZeros parts = some hextets) : hextets ≠ [] := by
  unfold fillZeros at hfill
  dsimp only at hfill
  split at hfill
  case h_1 =>
    split at hfill
    case isTrue hparts =>
      refine mapM_ne_nil ?_ hfill
      rintro rfl
      simp at hparts
    case isFalse => exact absurd hfill (by simp)
  case h_2 skip _ =>
    generalize (if (parts.head? == some []) = true then skip - 1 else skip) = high at hfill
    generalize (if (parts.getLast? == some []) = true then parts.length - skip - 2
      else parts.length - skip - 1) = low at hfill
    split at hfill
    case isTrue => exact absurd hfill (by simp)
    case isFalse hbounds =>
      -- Fewer than eight hextets are written out, so at least one zero is filled in.
      simp only [not_or] at hbounds
      simp only [Option.bind_eq_some_iff, Option.map_eq_some_iff] at hfill
      obtain ⟨first, -, second, -, rfl⟩ := hfill
      intro hnil
      have hlength := congrArg List.length hnil
      simp only [List.length_append, List.length_replicate, List.length_nil] at hlength
      omega
  case h_3 => exact absurd hfill (by simp)

theorem parseHextets_ne_nil {s : List Char} {hextets : List ℕ}
    (hparse : parseHextets s = some hextets) : hextets ≠ [] := by
  unfold parseHextets at hparse
  dsimp only at hparse
  split at hparse
  case isTrue => exact absurd hparse (by simp)
  case isFalse =>
    obtain ⟨parts, -, hparts⟩ := Option.bind_eq_some_iff.mp hparse
    split at hparts
    case isTrue => exact absurd hparts (by simp)
    case isFalse => exact fillZeros_ne_nil hparts

theorem numbers_ne_nil {s : List Char} {addr : IpAddress} (hparse : parse s = some addr) :
    addr.numbers ≠ [] := by
  unfold parse at hparse
  split at hparse
  case h_1 octets hoctets =>
    obtain rfl := Option.some.inj hparse
    exact parseV4_ne_nil hoctets
  case h_2 =>
    have hv6 : ∀ {text : List Char} {scope : Option (List Char)},
        (parseHextets text).map (fun hextets => v6 hextets scope) = some addr →
          addr.numbers ≠ [] := by
      intro text scope hmap
      obtain ⟨hextets, hhextets, rfl⟩ := Option.map_eq_some_iff.mp hmap
      exact parseHextets_ne_nil hhextets
    dsimp only at hparse
    split at hparse
    case isTrue => exact absurd hparse (by simp)
    case isFalse =>
      split at hparse
      case isTrue =>
        split at hparse
        case isTrue => exact absurd hparse (by simp)
        case isFalse => exact hv6 hparse
      case isFalse => exact hv6 hparse

theorem digits_ne_empty (base n : ℕ) : String.ofList (Nat.toDigits base n) ≠ "" := by
  intro hempty
  have hchars := congrArg String.toList hempty
  rw [String.toList_ofList] at hchars
  exact Nat.toDigits_ne_nil hchars

theorem quadText_ne_empty {octets : List ℕ} (hoctets : octets ≠ []) : quadText octets ≠ "" := by
  cases octets with
  | nil => exact absurd rfl hoctets
  | cons octet rest => exact join_ne_empty (digits_ne_empty 10 octet) _

theorem hextetsText_ne_empty {hextets : List ℕ} (hhextets : hextets ≠ []) :
    hextetsText hextets ≠ "" := by
  unfold hextetsText
  obtain ⟨start, length⟩ := longestZeros hextets
  dsimp only
  split
  case isTrue =>
    intro hempty
    have hlength := congrArg String.length hempty
    simp [String.length_append] at hlength
  case isFalse =>
    cases hextets with
    | nil => exact absurd rfl hhextets
    | cons first rest => exact join_ne_empty (digits_ne_empty 16 first) _

theorem toText_ne_empty {s : List Char} {addr : IpAddress} (hparse : parse s = some addr) :
    addr.toText ≠ "" := by
  have hnumbers := numbers_ne_nil hparse
  cases addr with
  | v4 octets => exact quadText_ne_empty hnumbers
  | v6 hextets scope =>
      have htext := hextetsText_ne_empty hnumbers
      cases scope with
      | none => exact htext
      | some scope =>
          intro hempty
          have hlength := congrArg String.length hempty
          simp [toText, String.length_append] at hlength

example : (parse "::ffff:192.0.2.7".toList).bind mapped = some [192, 0, 2, 7] := by decide +kernel

example : (parse "2001:DB8:0:0:1:0:0:1".toList).map toText = some "2001:db8::1:0:0:1" := by
  decide +kernel

end IpAddress

end PqcReadiness.Lib
