import Mathlib.Data.List.Induction
import PqcReadiness.Config.Protocols
import PqcReadiness.Lib.Latch

/-!
# The TLS 1.3 gate

What Apache, Postfix and HAProxy make of their protocol settings, and what the parsers make of
them.  An endpoint has the gate (`GateHolds`) if `tls13_allowed` is false where the settings leave
TLS 1.3 out, and only there.

Each service has a condition of its own on its settings.  The parsers go wrong on a bare Apache
protocol behind others, on Postfix lists of the protocols to allow, on sets that end up empty, and
on the `force-` options of HAProxy and the order of its bounds.
-/

namespace PqcReadiness.Config

open PqcReadiness.Lib

/-! ## Protocols -/

/-- A protocol version. -/
inductive Protocol where
  | sslv2
  | sslv3
  | tls10
  | tls11
  | tls12
  | tls13
  deriving DecidableEq

namespace Protocol

/-- The name, as Apache and Postfix have it. -/
def name : Protocol → Chars
  | sslv2 => "SSLv2".toList
  | sslv3 => "SSLv3".toList
  | tls10 => "TLSv1".toList
  | tls11 => "TLSv1.1".toList
  | tls12 => "TLSv1.2".toList
  | tls13 => "TLSv1.3".toList

/-- The order of the versions. -/
def rank : Protocol → ℕ
  | sslv2 => 2
  | sslv3 => 3
  | tls10 => 10
  | tls11 => 11
  | tls12 => 12
  | tls13 => 13

/-- One of the versions of TLS. -/
def isTls (p : Protocol) : Bool := p = tls10 || p = tls11 || p = tls12 || p = tls13

end Protocol

/-- The name of a protocol, in any case of its letters. -/
structure Spelling (p : Protocol) where
  chars : Chars
  spelled : lowerAscii chars = lowerAscii p.name

/-- TLS 1.3 is closed where it is not allowed, and only there. -/
structure GateHolds (endpoint : Endpoint) (allowed : Prop) : Prop where
  closed : ¬ allowed → endpoint.tls13Allowed = some false ∧ endpoint.pqcKeyExchange = some false
  opened : allowed → endpoint.tls13Allowed ≠ some false

section Names

variable {p : Protocol}

/-- What is no capital letter keeps its case. -/
theorem toLower_of_not_upper {c : Char} (hc : c.toNat < 65 ∨ 90 < c.toNat) : c.toLower = c := by
  unfold Char.toLower
  split
  · next hupper =>
      have hlow : 65 ≤ c.toNat := UInt32.le_iff_toNat_le.mp hupper.1
      have hhigh : c.toNat ≤ 90 := UInt32.le_iff_toNat_le.mp hupper.2
      omega
  · rfl

theorem not_upper_of_isSpace {c : Char} (hc : isSpace c = true) : c.toNat < 65 ∨ 90 < c.toNat := by
  simp only [isSpace, Bool.or_eq_true, Bool.and_eq_true, decide_eq_true_eq, beq_iff_eq] at hc
  omega

/-- A text is plain if it is so in lower case. -/
theorem plain_of_lower {s : Chars}
    (hlower : ∀ c ∈ lowerAscii s, isSpace c = false ∧ c ≠ '\'' ∧ c ≠ '"') :
    ∀ c ∈ s, isSpace c = false ∧ c ≠ '\'' ∧ c ≠ '"' := by
  intro c hc
  have hmem : c.toLower ∈ lowerAscii s := List.mem_map_of_mem hc
  refine ⟨?_, ?_, ?_⟩
  · by_contra hspace
    rw [Bool.not_eq_false] at hspace
    rw [toLower_of_not_upper (not_upper_of_isSpace hspace)] at hmem
    rw [(hlower c hmem).1] at hspace
    cases hspace
  · rintro rfl
    exact (hlower _ hmem).2.1 (by decide)
  · rintro rfl
    exact (hlower _ hmem).2.2 (by decide)

theorem name_plain (p : Protocol) :
    ∀ c ∈ lowerAscii p.name, isSpace c = false ∧ c ≠ '\'' ∧ c ≠ '"' := by
  cases p <;> decide

theorem spelling_plain (spelling : Spelling p) :
    ∀ c ∈ spelling.chars, isSpace c = false ∧ c ≠ '\'' ∧ c ≠ '"' := by
  refine plain_of_lower ?_
  rw [spelling.spelled]
  exact name_plain p

/-- The rank of a name does not depend on its case. -/
theorem protoRank_spelling (spelling : Spelling p) : protoRank spelling.chars = some p.rank := by
  have hrank : protoRank p.name = some p.rank := by cases p <;> decide +kernel
  have hstrip : ∀ s : Chars, (∀ c ∈ s, isSpace c = false ∧ c ≠ '\'' ∧ c ≠ '"') →
      stripQuotes (stripChars s) = s := by
    intro s hs
    rw [stripChars_of_noSpace fun c hc => (hs c hc).1, stripQuotes_of_plain fun c hc => (hs c hc).2]
  rw [← hrank, protoRank, protoRank, hstrip _ (spelling_plain spelling),
    hstrip _ (plain_of_lower (name_plain p)), spelling.spelled]

theorem protoRank_name (p : Protocol) : protoRank p.name = some p.rank :=
  protoRank_spelling ⟨p.name, rfl⟩

theorem rank_eq_thirteen : p.rank = 13 ↔ p = .tls13 := by cases p <;> decide

theorem rank_lt_thirteen : p.rank < 13 ↔ p ≠ .tls13 := by cases p <;> decide

theorem name_injective : Function.Injective Protocol.name := by
  intro p q
  cases p <;> cases q <;> decide

theorem lower_name_injective {q : Protocol} (hlower : lowerAscii p.name = lowerAscii q.name) :
    p = q := by
  revert hlower
  cases p <;> cases q <;> decide

/-- The gate is about `tls13_allowed` alone. -/
theorem gateHolds_iff (settings : EndpointSettings) (allowed : Prop) :
    GateHolds (makeEndpoint settings) allowed ↔
      ((makeEndpoint settings).tls13Allowed = some false ↔ ¬ allowed) := by
  have hpqc : (makeEndpoint settings).tls13Allowed = some false →
      (makeEndpoint settings).pqcKeyExchange = some false := by
    intro hfalse
    have hgate : tls13Allowed settings.protocols settings.minProtocol settings.maxProtocol =
        some false := hfalse
    show (judgement settings).1 = some false
    unfold judgement
    dsimp only
    rw [if_pos hgate]
  constructor
  · rintro ⟨hclosed, hopened⟩
    exact ⟨fun hfalse hallowed => hopened hallowed hfalse, fun hnot => (hclosed hnot).1⟩
  · intro hiff
    exact ⟨fun hnot => ⟨hiff.mpr hnot, hpqc (hiff.mpr hnot)⟩,
      fun hallowed hfalse => hiff.mp hfalse hallowed⟩

end Names

/-! ## Apache -/

/-- The signs of a token. -/
inductive Sign where
  | add
  | remove
  | bare
  deriving DecidableEq

/-- The character of a sign. -/
def Sign.text : Sign → Chars
  | .add => ['+']
  | .remove => ['-']
  | .bare => []

/-- What a token is about. -/
inductive ApacheName where
  | all
  | one (p : Protocol)

namespace ApacheName

/-- The name. -/
def text : ApacheName → Chars
  | all => "all".toList
  | one p => p.name

/-- The protocols; `all` are the versions of TLS. -/
def protocols : ApacheName → List Protocol
  | all => [.tls10, .tls11, .tls12, .tls13]
  | one p => [p]

end ApacheName

/-- A token of `SSLProtocol`, in any case of its letters. -/
structure ApacheToken where
  sign : Sign
  name : ApacheName
  chars : Chars
  spelled : lowerAscii chars = lowerAscii name.text

namespace ApacheToken

variable (p : Protocol) (token : ApacheToken)

/-- The text of the token. -/
def text : Chars := token.sign.text ++ token.chars

/-- Is the token about the protocol? -/
def covers : Bool := token.name.protocols.contains p

/-- With a plus sign, or bare. -/
def enables : Bool := token.sign ≠ .remove && token.covers p

/-- With a minus sign. -/
def removes : Bool := token.sign = .remove && token.covers p

/-- Removed, or replaced by other protocols. -/
def takesAway : Bool := token.removes p || (token.sign = .bare && !token.covers p)

end ApacheToken

/-- One token, for `mod_ssl`: what has a sign changes what is there, and what has none replaces
it. -/
def modSslTurn (on : Protocol → Bool) (token : ApacheToken) : Protocol → Bool := fun p =>
  match token.sign with
  | .add => on p || token.covers p
  | .remove => on p && !token.covers p
  | .bare => token.covers p

/-- The protocols that `mod_ssl` allows. -/
def modSslAllows (tokens : List ApacheToken) : Protocol → Bool :=
  tokens.foldl modSslTurn fun _ => false

/-- Some token enables the protocol, and no later one removes it. -/
def StaysEnabled (p : Protocol) (tokens : List ApacheToken) : Prop :=
  ∃ before token after, tokens = before ++ token :: after ∧ token.enables p = true ∧
    ∀ later ∈ after, later.removes p = false

/-- TLS 1.3 is allowed, or every token that enables it is followed by one that removes it, while
some other protocol stays enabled. -/
def ApacheDecides (tokens : List ApacheToken) : Prop :=
  modSslAllows tokens .tls13 = true ∨
    ¬ StaysEnabled .tls13 tokens ∧ ∃ p, StaysEnabled p tokens

section Apache

variable {p : Protocol} {token : ApacheToken} {tokens : List ApacheToken}

theorem modSslTurn_eq (on : Protocol → Bool) (token : ApacheToken) (p : Protocol) :
    modSslTurn on token p =
      latchTurn (ApacheToken.enables p) (ApacheToken.takesAway p) (on p) token := by
  unfold modSslTurn latchTurn ApacheToken.enables ApacheToken.takesAway ApacheToken.removes
  cases token.sign <;> cases token.covers p <;> simp

theorem modSslAllows_eq (p : Protocol) : modSslAllows tokens p =
    latch (ApacheToken.enables p) (ApacheToken.takesAway p) false tokens := by
  have hgeneral : ∀ on : Protocol → Bool, tokens.foldl modSslTurn on p =
      latch (ApacheToken.enables p) (ApacheToken.takesAway p) (on p) tokens := by
    intro on
    induction tokens generalizing on with
    | nil => rfl
    | cons token rest ih => rw [List.foldl_cons, latch_cons, ih, modSslTurn_eq]
  exact hgeneral fun _ => false

theorem staysEnabled_iff : StaysEnabled p tokens ↔
    latch (ApacheToken.enables p) (ApacheToken.removes p) false tokens = true := latch_iff.symm

theorem staysEnabled_of_allows (hallows : modSslAllows tokens p = true) : StaysEnabled p tokens := by
  rw [modSslAllows_eq] at hallows
  rw [staysEnabled_iff]
  refine latch_mono (fun token hremoves => ?_) hallows
  rw [ApacheToken.takesAway, hremoves]
  rfl

/-- The parser's list holds the names of these protocols. -/
structure Lists (allowed : List Chars) (on : Protocol → Bool) : Prop where
  names : ∀ a ∈ allowed, ∃ p : Protocol, a = p.name
  mem : ∀ p : Protocol, p.name ∈ allowed ↔ on p = true

theorem canonProtocol_of_lower {name : Chars} (hname : lowerAscii name = lowerAscii p.name) :
    canonProtocol name = p.name := by
  have hfound : (everyTls ++ ["SSLv3".toList, "SSLv2".toList]).find? (fun e =>
      lowerAscii e = lowerAscii p.name) = some p.name := by
    cases p <;> decide
  rw [canonProtocol, hname, hfound]
  rfl

/-- One name. -/
theorem lists_apacheName {allowed : List Chars} {on : Protocol → Bool} {name : Chars}
    (remove : Bool) (hlists : Lists allowed on) (hname : canonProtocol name = p.name) :
    Lists (apacheName remove allowed name)
      fun q => if remove then on q && !decide (q = p) else on q || decide (q = p) := by
  obtain ⟨hnames, hmem⟩ := hlists
  unfold apacheName
  rw [hname]
  cases remove with
  | true =>
      refine ⟨fun a ha => hnames a (List.mem_filter.mp ha).1, fun q => ?_⟩
      have hdifferent : lowerAscii q.name ≠ lowerAscii p.name ↔ q ≠ p := by
        refine not_congr ⟨lower_name_injective, ?_⟩
        rintro rfl
        rfl
      rw [if_pos rfl, List.mem_filter, hmem, decide_eq_true_iff, hdifferent]
      simp
  | false =>
      dsimp only
      rw [if_neg Bool.false_ne_true]
      by_cases hold : p.name ∈ allowed
      · rw [if_pos (List.contains_iff_mem.mpr hold)]
        refine ⟨hnames, fun q => ?_⟩
        rw [hmem]
        constructor
        · intro hq
          simp [hq]
        · intro hq
          rcases Bool.or_eq_true_iff.mp hq with hq | hq
          · exact hq
          · rw [decide_eq_true_iff.mp hq]
            exact (hmem p).mp hold
      · rw [if_neg (by rw [List.contains_iff_mem]; exact hold)]
        constructor
        · intro a ha
          rcases List.mem_append.mp ha with ha | ha
          · exact hnames a ha
          · exact ⟨p, List.mem_singleton.mp ha⟩
        · intro q
          rw [List.mem_append, hmem, List.mem_singleton, name_injective.eq_iff]
          simp

theorem lists_names {ps : List Protocol} {names : List Chars} (remove : Bool)
    (hnames : names.map canonProtocol = ps.map Protocol.name) {allowed : List Chars}
    {on : Protocol → Bool} (hlists : Lists allowed on) :
    Lists (names.foldl (apacheName remove) allowed)
      fun q => if remove then on q && !ps.contains q else on q || ps.contains q := by
  induction ps generalizing names allowed on with
  | nil =>
      obtain rfl := List.map_eq_nil_iff.mp hnames
      cases remove <;> simpa using hlists
  | cons p ps ih =>
      obtain ⟨name, rest, rfl, hname, hrest⟩ := List.map_eq_cons_iff.mp hnames
      have hstep := ih hrest (lists_apacheName remove hlists hname)
      rw [List.foldl_cons]
      convert hstep using 1
      funext q
      cases remove <;> simp [Bool.and_assoc, Bool.or_assoc]

/-- The text behind the sign does not begin with one. -/
theorem head_chars (token : ApacheToken) :
    token.chars.head? ≠ some '+' ∧ token.chars.head? ≠ some '-' := by
  have hspelled := token.spelled
  have hhead : ∀ c, token.chars.head? = some c → (lowerAscii token.name.text).head? = some c.toLower := by
    intro c hc
    rw [← hspelled, lowerAscii, List.head?_map, hc]
    rfl
  have hletter : (lowerAscii token.name.text).head? ≠ some '+' ∧
      (lowerAscii token.name.text).head? ≠ some '-' := by
    cases token.name with
    | all => decide
    | one p => cases p <;> decide
  exact ⟨fun hplus => hletter.1 (hhead '+' hplus), fun hminus => hletter.2 (hhead '-' hminus)⟩

theorem text_plain (token : ApacheToken) : ∀ c ∈ token.text, isSpace c = false := by
  have hchars : ∀ c ∈ token.chars, isSpace c = false ∧ c ≠ '\'' ∧ c ≠ '"' := by
    refine plain_of_lower ?_
    rw [token.spelled]
    cases token.name with
    | all => decide
    | one p => exact name_plain p
  have hsigns : ∀ sign : Sign, ∀ c ∈ sign.text, isSpace c = false := by
    intro sign
    cases sign <;> decide
  intro c hc
  rcases List.mem_append.mp hc with hsign | hc
  · exact hsigns token.sign c hsign
  · exact (hchars c hc).1

/-- One token of the parser. -/
theorem lists_apacheTurn {allowed : List Chars} {on : Protocol → Bool} (token : ApacheToken)
    (hlists : Lists allowed on) : Lists (apacheTurn allowed token.text)
      fun p => latchTurn (ApacheToken.enables p) (ApacheToken.removes p) (on p) token := by
  obtain ⟨hplus, hminus⟩ := head_chars token
  -- The sign and the name are found.
  have hparts : (token.text.head? = some '-' ↔ token.sign = .remove) ∧
      (if token.text.head? = some '+' ∨ token.text.head? = some '-' then token.text.tail
        else token.text) = token.chars := by
    unfold ApacheToken.text
    cases token.sign with
    | add => exact ⟨by simp [Sign.text], if_pos (Or.inl rfl)⟩
    | remove => exact ⟨by simp [Sign.text], if_pos (Or.inr rfl)⟩
    | bare => exact ⟨by simp [Sign.text, hminus], if_neg (not_or.mpr ⟨hplus, hminus⟩)⟩
  have hall : lowerAscii token.chars = "all".toList ↔ token.name = .all := by
    rw [token.spelled]
    cases token.name with
    | all => exact iff_of_true (by decide) rfl
    | one p =>
        refine iff_of_false ?_ nofun
        cases p <;> decide
  have hnames : (if lowerAscii token.chars = "all".toList then everyTls else [token.chars]).map
      canonProtocol = token.name.protocols.map Protocol.name := by
    have hspelled := token.spelled
    cases hname : token.name with
    | all =>
        rw [if_pos (hall.mpr hname)]
        decide
    | one p =>
        have hnot : ¬ lowerAscii token.chars = "all".toList := by
          rw [hall, hname]
          nofun
        rw [hname] at hspelled
        rw [if_neg hnot, List.map_singleton, canonProtocol_of_lower hspelled]
        rfl
  have hstep := lists_names (decide (token.sign = .remove)) hnames hlists
  unfold apacheTurn
  dsimp only
  rw [stripChars_of_noSpace (text_plain token), hparts.2]
  have hremove : decide (token.text.head? = some '-') = decide (token.sign = .remove) :=
    decide_eq_decide.mpr hparts.1
  rw [hremove]
  convert hstep using 1
  funext q
  unfold latchTurn ApacheToken.enables ApacheToken.removes ApacheToken.covers
  cases token.sign <;> simp [Bool.or_comm]

/-- The parser's list. -/
theorem lists_apacheProtocols {value : Chars}
    (hvalue : wordsOf value = tokens.map ApacheToken.text) : Lists (apacheProtocols value)
      fun p => latch (ApacheToken.enables p) (ApacheToken.removes p) false tokens := by
  have hgeneral : ∀ (allowed : List Chars) (on : Protocol → Bool), Lists allowed on →
      Lists ((tokens.map ApacheToken.text).foldl apacheTurn allowed)
        fun p => latch (ApacheToken.enables p) (ApacheToken.removes p) (on p) tokens := by
    clear hvalue
    induction tokens with
    | nil => exact fun _ _ hlists => hlists
    | cons token rest ih =>
        intro allowed on hlists
        exact ih _ _ (lists_apacheTurn token hlists)
  rw [apacheProtocols, hvalue]
  exact hgeneral [] (fun _ => false) ⟨nofun, fun p => by simp⟩

/-- `tls13_allowed` of a list of names. -/
theorem tls13Allowed_names {allowed : List Chars} {on : Protocol → Bool}
    (hlists : Lists allowed on) : tls13Allowed (some allowed) none none = some false ↔
      on .tls13 = false ∧ ∃ p, on p = true := by
  obtain ⟨hnames, hmem⟩ := hlists
  have hranks : ∀ rank, rank ∈ allowed.filterMap protoRank ↔ ∃ p : Protocol, on p = true ∧ p.rank = rank := by
    intro rank
    rw [List.mem_filterMap]
    constructor
    · rintro ⟨a, ha, hrank⟩
      obtain ⟨p, rfl⟩ := hnames a ha
      rw [protoRank_name] at hrank
      exact ⟨p, (hmem p).mp ha, Option.some.inj hrank⟩
    · rintro ⟨p, hp, rfl⟩
      exact ⟨p.name, (hmem p).mpr hp, protoRank_name p⟩
  have hthirteen : (allowed.filterMap protoRank).contains 13 = on .tls13 := by
    rw [Bool.eq_iff_iff, List.contains_iff_mem, hranks]
    constructor
    · rintro ⟨p, hp, hrank⟩
      rw [← rank_eq_thirteen.mp hrank]
      exact hp
    · intro hon
      exact ⟨.tls13, hon, rfl⟩
  have hempty : allowed.filterMap protoRank = [] ↔ ¬ ∃ p, on p = true := by
    rw [List.eq_nil_iff_forall_not_mem]
    constructor
    · rintro hnone ⟨p, hp⟩
      exact hnone p.rank ((hranks _).mpr ⟨p, hp, rfl⟩)
    · rintro hnone rank hrank
      obtain ⟨p, hp, -⟩ := (hranks rank).mp hrank
      exact hnone ⟨p, hp⟩
  unfold tls13Allowed
  simp only [Option.bind_none, Option.any_none, Bool.false_eq_true, if_false]
  rw [hthirteen]
  by_cases hsome : ∃ p, on p = true
  · rw [if_neg (by rw [hempty, not_not]; exact hsome)]
    simp [hsome]
  · rw [if_pos (hempty.mpr hsome)]
    simp [hsome]

theorem apache_closed_iff (settings : EndpointSettings) {value : Chars}
    (hvalue : wordsOf value = tokens.map ApacheToken.text) :
    (apacheEndpoint settings value).tls13Allowed = some false ↔
      ¬ StaysEnabled .tls13 tokens ∧ ∃ p, StaysEnabled p tokens := by
  have hlists := lists_apacheProtocols hvalue
  have hnames := tls13Allowed_names hlists
  simp only [staysEnabled_iff, Bool.not_eq_true]
  by_cases hempty : value = []
  · have hnone : (apacheEndpoint settings value).tls13Allowed = none := by
      subst hempty
      rfl
    have htokens : tokens = [] := by
      subst hempty
      exact List.map_eq_nil_iff.mp hvalue.symm
    rw [hnone, htokens]
    simp [latch]
  · have hallowed : (apacheEndpoint settings value).tls13Allowed =
        tls13Allowed (some (apacheProtocols value)) none none := by
      show tls13Allowed (if value = [] then none else some (apacheProtocols value)) none none = _
      rw [if_neg hempty]
    rw [hallowed, hnames]

/-- Apache. -/
theorem apache_gate_iff (settings : EndpointSettings) {value : Chars}
    (hvalue : wordsOf value = tokens.map ApacheToken.text) :
    GateHolds (apacheEndpoint settings value) (modSslAllows tokens .tls13 = true) ↔
      ApacheDecides tokens := by
  have hclosed := apache_closed_iff settings hvalue
  unfold apacheEndpoint at hclosed ⊢
  rw [gateHolds_iff, hclosed, ApacheDecides]
  constructor
  · intro hiff
    by_cases hallows : modSslAllows tokens .tls13 = true
    · exact Or.inl hallows
    · exact Or.inr (hiff.mpr hallows)
  · rintro (hallows | hstays)
    · refine iff_of_false ?_ (not_not.mpr hallows)
      rintro ⟨hnot, -⟩
      exact hnot (staysEnabled_of_allows hallows)
    · exact iff_of_true hstays fun hallows => hstays.1 (staysEnabled_of_allows hallows)

end Apache

/-! ## Postfix -/

/-- A token of `smtpd_tls_protocols`. -/
inductive PostfixToken where
  | atLeast (p : Protocol) (name : Spelling p)
  | atMost (p : Protocol) (name : Spelling p)
  | exclude (p : Protocol) (name : Spelling p)
  | only (p : Protocol) (name : Spelling p)

namespace PostfixToken

/-- The text of the token. -/
def text : PostfixToken → Chars
  | atLeast _ name => '>' :: '=' :: name.chars
  | atMost _ name => '<' :: '=' :: name.chars
  | exclude _ name => '!' :: name.chars
  | only _ name => name.chars

/-- The lower bound that it sets. -/
def lower : PostfixToken → Option Protocol
  | atLeast p _ => some p
  | _ => none

/-- The upper bound that it sets. -/
def upper : PostfixToken → Option Protocol
  | atMost p _ => some p
  | _ => none

/-- The protocol that it excludes. -/
def excluded : PostfixToken → Option Protocol
  | exclude p _ => some p
  | _ => none

/-- The protocol that it lists. -/
def listed : PostfixToken → Option Protocol
  | only p _ => some p
  | _ => none

end PostfixToken

/-- The protocols that Postfix allows: between the last bounds, not excluded, and listed if any
are. -/
structure PostfixAllows (tokens : List PostfixToken) (p : Protocol) : Prop where
  lower : ∀ bound, (tokens.filterMap PostfixToken.lower).getLast? = some bound → bound.rank ≤ p.rank
  upper : ∀ bound, (tokens.filterMap PostfixToken.upper).getLast? = some bound → p.rank ≤ bound.rank
  excluded : p ∉ tokens.filterMap PostfixToken.excluded
  listed : tokens.filterMap PostfixToken.listed ≠ [] → p ∈ tokens.filterMap PostfixToken.listed

/-- TLS 1.3 is allowed, or the last upper bound is below it, or it is excluded, but not together
with all the other versions of TLS. -/
def PostfixDecides (tokens : List PostfixToken) : Prop :=
  PostfixAllows tokens .tls13 ∨
    (∃ bound, (tokens.filterMap PostfixToken.upper).getLast? = some bound ∧ bound ≠ .tls13) ∨
      .tls13 ∈ tokens.filterMap PostfixToken.excluded ∧
        ∃ p : Protocol, p.isTls = true ∧ p ∉ tokens.filterMap PostfixToken.excluded

section Postfix

variable {tokens : List PostfixToken}

theorem head_spelling {p : Protocol} (name : Spelling p) :
    ∃ c rest, name.chars = c :: rest ∧ c ≠ '>' ∧ c ≠ '<' ∧ c ≠ '!' := by
  have hspelled := name.spelled
  have hletter : ∃ d rest, lowerAscii p.name = d :: rest ∧ d ≠ '>' ∧ d ≠ '<' ∧ d ≠ '!' := by
    cases p <;> exact ⟨_, _, rfl, by decide, by decide, by decide⟩
  obtain ⟨d, rest, hd, hgreater, hless, hbang⟩ := hletter
  rw [hd] at hspelled
  obtain ⟨c, tail, hchars, hc, -⟩ := List.map_eq_cons_iff.mp hspelled
  refine ⟨c, tail, hchars, ?_, ?_, ?_⟩
  · rintro rfl
    exact hgreater hc.symm
  · rintro rfl
    exact hless hc.symm
  · rintro rfl
    exact hbang hc.symm

/-- What the parser has read of some tokens. -/
structure ReadsPostfix (state : PostfixState) (tokens : List PostfixToken) : Prop where
  minimum : state.minimum.bind protoRank =
    ((tokens.filterMap PostfixToken.lower).getLast?).map Protocol.rank
  maximum : state.maximum.bind protoRank =
    ((tokens.filterMap PostfixToken.upper).getLast?).map Protocol.rank
  excluded : state.excluded =
    (tokens.filterMap PostfixToken.excluded).map fun p => lowerAscii p.name

section Concat

variable {α β : Type} {f : α → Option β} {xs : List α} {x : α}

theorem filterMap_concat_none (hx : f x = none) : (xs ++ [x]).filterMap f = xs.filterMap f := by
  rw [List.filterMap_append, List.filterMap_cons_none hx, List.filterMap_nil, List.append_nil]

theorem filterMap_concat_some {y : β} (hx : f x = some y) :
    (xs ++ [x]).filterMap f = xs.filterMap f ++ [y] := by
  rw [List.filterMap_append, List.filterMap_cons_some hx, List.filterMap_nil]

end Concat

theorem postfixTurn_reads {state : PostfixState} (hreads : ReadsPostfix state tokens)
    (token : PostfixToken) : ReadsPostfix (postfixTurn state token.text) (tokens ++ [token]) := by
  obtain ⟨hminimum, hmaximum, hexcluded⟩ := hreads
  cases token with
  | atLeast p name =>
      refine ⟨?_, ?_, ?_⟩
      · rw [filterMap_concat_some (f := PostfixToken.lower) rfl, List.getLast?_concat]
        exact protoRank_spelling name
      · rw [filterMap_concat_none rfl]
        exact hmaximum
      · rw [filterMap_concat_none rfl]
        exact hexcluded
  | atMost p name =>
      refine ⟨?_, ?_, ?_⟩
      · rw [filterMap_concat_none rfl]
        exact hminimum
      · rw [filterMap_concat_some (f := PostfixToken.upper) rfl, List.getLast?_concat]
        exact protoRank_spelling name
      · rw [filterMap_concat_none rfl]
        exact hexcluded
  | exclude p name =>
      refine ⟨?_, ?_, ?_⟩
      · rw [filterMap_concat_none rfl]
        exact hminimum
      · rw [filterMap_concat_none rfl]
        exact hmaximum
      · rw [filterMap_concat_some (f := PostfixToken.excluded) rfl, List.map_append, List.map_singleton, ← hexcluded,
          ← name.spelled]
        rfl
  | only p name =>
      obtain ⟨c, rest, hchars, hgreater, hless, hbang⟩ := head_spelling name
      have hturn : postfixTurn state (PostfixToken.only p name).text = state := by
        show postfixTurn state name.chars = state
        rw [hchars]
        unfold postfixTurn
        split <;> simp_all
      rw [hturn]
      refine ⟨?_, ?_, ?_⟩
      · rw [filterMap_concat_none rfl]
        exact hminimum
      · rw [filterMap_concat_none rfl]
        exact hmaximum
      · rw [filterMap_concat_none rfl]
        exact hexcluded

theorem foldl_postfixTurn (tokens : List PostfixToken) :
    ReadsPostfix ((tokens.map PostfixToken.text).foldl postfixTurn {}) tokens := by
  induction tokens using List.reverseRecOn with
  | nil => exact ⟨rfl, rfl, rfl⟩
  | append_singleton tokens token ih =>
      rw [List.map_append, List.foldl_append]
      exact postfixTurn_reads ih token

theorem mem_everyTls {a : Chars} : a ∈ everyTls ↔ ∃ p : Protocol, p.isTls = true ∧ p.name = a := by
  constructor
  · intro ha
    simp only [everyTls, List.mem_cons, List.not_mem_nil, or_false] at ha
    rcases ha with rfl | rfl | rfl | rfl
    · exact ⟨.tls10, rfl, rfl⟩
    · exact ⟨.tls11, rfl, rfl⟩
    · exact ⟨.tls12, rfl, rfl⟩
    · exact ⟨.tls13, rfl, rfl⟩
  · rintro ⟨p, hp, rfl⟩
    cases p <;> revert hp <;> decide

/-- The list of what is not excluded. -/
theorem lists_postfixAllowed {state : PostfixState} (hreads : ReadsPostfix state tokens) :
    Lists (everyTls.filter fun a => !state.excluded.contains (lowerAscii a))
      fun p => p.isTls && !(tokens.filterMap PostfixToken.excluded).contains p := by
  have hexcluded : ∀ p : Protocol, state.excluded.contains (lowerAscii p.name) =
      (tokens.filterMap PostfixToken.excluded).contains p := by
    intro p
    rw [hreads.excluded, Bool.eq_iff_iff, List.contains_iff_mem, List.contains_iff_mem]
    constructor
    · intro hmem
      obtain ⟨q, hq, hlower⟩ := List.mem_map.mp hmem
      rw [← lower_name_injective hlower]
      exact hq
    · exact fun hmem => List.mem_map_of_mem hmem
  constructor
  · intro a ha
    obtain ⟨p, -, rfl⟩ := mem_everyTls.mp (List.mem_filter.mp ha).1
    exact ⟨p, rfl⟩
  · intro p
    rw [List.mem_filter, hexcluded, mem_everyTls, Bool.and_eq_true]
    constructor
    · rintro ⟨⟨q, hq, hname⟩, hp⟩
      rw [← name_injective hname]
      rw [← name_injective hname] at hp
      exact ⟨hq, hp⟩
    · rintro ⟨hp, hnot⟩
      exact ⟨⟨p, hp, rfl⟩, hnot⟩

/-- With bounds that are known. -/
theorem tls13Allowed_bounds {allowed : Option (List Chars)} {minimum maximum : Option Chars}
    {low high : Option Protocol} (hlow : minimum.bind protoRank = low.map Protocol.rank)
    (hhigh : maximum.bind protoRank = high.map Protocol.rank) :
    tls13Allowed allowed minimum maximum = some false ↔
      (∃ bound, high = some bound ∧ bound ≠ .tls13) ∨
        tls13Allowed allowed none none = some false := by
  have hnotAbove : (low.map Protocol.rank).any (fun rank => 13 < rank) = false := by
    cases low with
    | none => rfl
    | some p => cases p <;> rfl
  unfold tls13Allowed
  rw [hlow, hhigh, hnotAbove]
  simp only [Option.bind_none, Option.any_none, Bool.false_eq_true, if_false]
  cases high with
  | none => simp
  | some bound =>
      rw [Option.map_some, Option.any_some]
      by_cases hbound : bound = .tls13
      · subst hbound
        simp [Protocol.rank]
      · rw [if_pos (decide_eq_true (rank_lt_thirteen.mpr hbound))]
        simp [hbound]

theorem postfix_closed_iff (settings : EndpointSettings) {value : Chars}
    (hvalue : postfixTokens value = tokens.map PostfixToken.text) :
    (postfixEndpoint settings value).tls13Allowed = some false ↔
      (∃ bound, (tokens.filterMap PostfixToken.upper).getLast? = some bound ∧ bound ≠ .tls13) ∨
        .tls13 ∈ tokens.filterMap PostfixToken.excluded ∧
          ∃ p : Protocol, p.isTls = true ∧ p ∉ tokens.filterMap PostfixToken.excluded := by
  have hreads := foldl_postfixTurn tokens
  rw [← hvalue] at hreads
  have hendpoint : (postfixEndpoint settings value).tls13Allowed =
      tls13Allowed (postfixAllowed ((postfixTokens value).foldl postfixTurn {}))
        ((postfixTokens value).foldl postfixTurn {}).minimum
        ((postfixTokens value).foldl postfixTurn {}).maximum := rfl
  rw [hendpoint, tls13Allowed_bounds hreads.minimum hreads.maximum]
  refine or_congr_right ?_
  unfold postfixAllowed
  by_cases hnone : ((postfixTokens value).foldl postfixTurn {}).excluded = []
  · rw [if_pos hnone]
    have hexcluded := hreads.excluded
    rw [hnone] at hexcluded
    rw [List.map_eq_nil_iff.mp hexcluded.symm]
    simp [tls13Allowed]
  · rw [if_neg hnone, tls13Allowed_names (lists_postfixAllowed hreads)]
    simp [Protocol.isTls]

/-- Postfix. -/
theorem postfix_gate_iff (settings : EndpointSettings) {value : Chars}
    (hvalue : postfixTokens value = tokens.map PostfixToken.text) :
    GateHolds (postfixEndpoint settings value) (PostfixAllows tokens .tls13) ↔
      PostfixDecides tokens := by
  have hclosed := postfix_closed_iff settings hvalue
  -- What closes the gate is right.
  have hright : ((∃ bound, (tokens.filterMap PostfixToken.upper).getLast? = some bound ∧
      bound ≠ .tls13) ∨ .tls13 ∈ tokens.filterMap PostfixToken.excluded ∧
        ∃ p : Protocol, p.isTls = true ∧ p ∉ tokens.filterMap PostfixToken.excluded) →
      ¬ PostfixAllows tokens .tls13 := by
    rintro (⟨bound, hbound, hne⟩ | ⟨hexcluded, -⟩) hallows
    · have hle := hallows.upper bound hbound
      have hlt := rank_lt_thirteen.mpr hne
      exact absurd hle (Nat.not_le_of_lt hlt)
    · exact hallows.excluded hexcluded
  unfold postfixEndpoint at hclosed ⊢
  rw [gateHolds_iff, hclosed, PostfixDecides]
  constructor
  · intro hiff
    by_cases hallows : PostfixAllows tokens .tls13
    · exact Or.inl hallows
    · exact Or.inr (hiff.mpr hallows)
  · rintro (hallows | hcloses)
    · exact iff_of_false (fun hcloses => hright hcloses hallows) (not_not.mpr hallows)
    · exact iff_of_true hcloses (hright hcloses)

end Postfix

/-! ## HAProxy -/

namespace Protocol

/-- The name, as HAProxy has it. -/
def haName : Protocol → Chars
  | sslv2 => "SSLv2".toList
  | sslv3 => "SSLv3".toList
  | tls10 => "TLSv1.0".toList
  | tls11 => "TLSv1.1".toList
  | tls12 => "TLSv1.2".toList
  | tls13 => "TLSv1.3".toList

/-- The option that allows this version only. -/
def haForce : Protocol → Chars
  | sslv2 => "force-sslv2".toList
  | sslv3 => "force-sslv3".toList
  | tls10 => "force-tlsv10".toList
  | tls11 => "force-tlsv11".toList
  | tls12 => "force-tlsv12".toList
  | tls13 => "force-tlsv13".toList

end Protocol

/-- A setting of the protocol. -/
inductive HaSetting where
  | minVer (p : Protocol)
  | maxVer (p : Protocol)
  | noTls13
  | force (p : Protocol)
  deriving DecidableEq

namespace HaSetting

/-- The words of a setting. -/
def words : HaSetting → List Chars
  | minVer p => ["ssl-min-ver".toList, p.haName]
  | maxVer p => ["ssl-max-ver".toList, p.haName]
  | noTls13 => ["no-tlsv13".toList]
  | force p => [p.haForce]

/-- The lower bound that it sets. -/
def lower : HaSetting → Option Protocol
  | minVer p => some p
  | force p => some p
  | _ => none

/-- The upper bound that it sets. -/
def upper : HaSetting → Option Protocol
  | maxVer p => some p
  | force p => some p
  | _ => none

/-- The version of `ssl-min-ver`. -/
def minimum : HaSetting → Option Protocol
  | minVer p => some p
  | _ => none

/-- The version of `ssl-max-ver`. -/
def maximum : HaSetting → Option Protocol
  | maxVer p => some p
  | _ => none

end HaSetting

/-- A word that is no setting of the protocol. -/
def isOtherWord (w : Chars) : Bool :=
  w ≠ "ssl-min-ver".toList && w ≠ "ssl-max-ver".toList && w ≠ "no-tlsv13".toList &&
    !"force-".toList.isPrefixOf w

/-- What stands behind the address of a `bind` line, or in `ssl-default-bind-options`. -/
inductive HaItem where
  | setting (s : HaSetting)
  | word (w : Chars) (hother : isOtherWord w = true) (hbare : bindValued.contains w = false)
  | option (key value : Chars) (hkey : bindValued.contains key = true)
      (hother : isOtherWord key = true) (hvalue : isOtherWord value = true)

namespace HaItem

/-- The words of an item. -/
def words : HaItem → List Chars
  | setting s => s.words
  | word w _ _ => [w]
  | option key value _ _ _ => [key, value]

/-- The setting, if it is one. -/
def setting? : HaItem → Option HaSetting
  | setting s => some s
  | _ => none

end HaItem

/-- The settings of a place, in their order. -/
def haSettings (items : List HaItem) : List HaSetting := items.filterMap HaItem.setting?

/-- The last of the bounds that a place sets. -/
def lastOf (bound : HaSetting → Option Protocol) (items : List HaItem) : Option Protocol :=
  ((haSettings items).filterMap bound).getLast?

/-- The first of them. -/
def firstOf (bound : HaSetting → Option Protocol) (items : List HaItem) : Option Protocol :=
  ((haSettings items).filterMap bound).head?

/-- The protocols that HAProxy allows: between the bounds, where those of the `bind` line win, and
without TLS 1.3 where either place switches it off. -/
structure HaproxyAllows (bind global : List HaItem) (p : Protocol) : Prop where
  lower : ∀ bound, (lastOf HaSetting.lower bind).or (lastOf HaSetting.lower global) = some bound →
    bound.rank ≤ p.rank
  upper : ∀ bound, (lastOf HaSetting.upper bind).or (lastOf HaSetting.upper global) = some bound →
    p.rank ≤ bound.rank
  notOff : p = .tls13 → .noTls13 ∉ haSettings bind ∧ .noTls13 ∉ haSettings global

/-- A bound below TLS 1.3. -/
def BelowTls13 (bound : Option Protocol) : Prop := ∃ p, bound = some p ∧ p ≠ .tls13

/-- TLS 1.3 is switched off in one of the places, or the upper bound that counts is below it
exactly if the `bind` line has `force-tlsv12` or the first `ssl-max-ver` is below it. -/
def HaproxyDecides (bind global : List HaItem) : Prop :=
  .noTls13 ∈ haSettings bind ∨ .noTls13 ∈ haSettings global ∨
    (BelowTls13 ((lastOf HaSetting.upper bind).or (lastOf HaSetting.upper global)) ↔
      .force .tls12 ∈ haSettings bind ∨
        BelowTls13 ((firstOf HaSetting.maximum bind).or (firstOf HaSetting.maximum global)))

section Haproxy

variable {items bind global : List HaItem} {w : Chars} {rest : List Chars}

theorem haproxyAllows_iff : HaproxyAllows bind global .tls13 ↔
    (.noTls13 ∉ haSettings bind ∧ .noTls13 ∉ haSettings global) ∧
      ¬ BelowTls13 ((lastOf HaSetting.upper bind).or (lastOf HaSetting.upper global)) := by
  constructor
  · rintro ⟨-, hupper, hoff⟩
    refine ⟨hoff rfl, ?_⟩
    rintro ⟨bound, hbound, hne⟩
    exact absurd (hupper bound hbound) (Nat.not_le_of_lt (rank_lt_thirteen.mpr hne))
  · rintro ⟨hoff, hbelow⟩
    refine ⟨fun bound _ => ?_, fun bound hbound => ?_, fun _ => hoff⟩
    · cases bound <;> decide
    · by_cases hbound13 : bound = .tls13
      · rw [hbound13]
      · exact absurd ⟨bound, hbound, hbound13⟩ hbelow

theorem readBindWords_flag (options : BindOptions) (hw : bindValued.contains w = false) :
    readBindWords options (w :: rest) =
      readBindWords { options with flags := options.flags ++ [w] } rest := by
  cases rest with
  | nil => rfl
  | cons value rest =>
      rw [readBindWords, if_neg (by rw [hw]; exact Bool.false_ne_true)]

theorem readBindWords_valued (options : BindOptions) (value : Chars)
    (hw : bindValued.contains w = true) : readBindWords options (w :: value :: rest) =
      readBindWords { options with
        opts := options.opts.update w fun old =>
          if w = "crt".toList then value else old.getD value } rest := by
  rw [readBindWords, if_pos hw]

theorem firstAfter_skip {key : Chars} (hw : w ≠ key) :
    firstAfter key (w :: rest) = firstAfter key rest := by
  cases rest with
  | nil => rfl
  | cons value rest => rw [firstAfter, if_neg hw]

/-- The keys of the two bounds. -/
def boundKey (upper : Bool) : Chars := if upper then "ssl-max-ver".toList else "ssl-min-ver".toList

/-- What a setting says under one of the two keys. -/
def boundOf (upper : Bool) : HaSetting → Option Protocol :=
  if upper then HaSetting.maximum else HaSetting.minimum

theorem firstOf_cons_none {upper : Bool} {item : HaItem}
    (hitem : item.setting?.bind (boundOf upper) = none) :
    firstOf (boundOf upper) (item :: items) = firstOf (boundOf upper) items := by
  unfold firstOf haSettings
  cases hsetting : item.setting? with
  | none => rw [List.filterMap_cons_none hsetting]
  | some setting =>
      have hnone : boundOf upper setting = none := by rwa [hsetting] at hitem
      rw [List.filterMap_cons_some hsetting, List.filterMap_cons_none hnone]

theorem firstOf_cons_some {upper : Bool} {setting : HaSetting} {p : Protocol}
    (hsetting : boundOf upper setting = some p) :
    firstOf (boundOf upper) (.setting setting :: items) = some p := by
  unfold firstOf haSettings
  rw [List.filterMap_cons_some (f := HaItem.setting?) rfl, List.filterMap_cons_some hsetting]
  rfl

theorem haName_ne (upper : Bool) (p : Protocol) : p.haName ≠ boundKey upper := by
  cases upper <;> cases p <;> decide

theorem ne_boundKey_of_other (upper : Bool) (hw : isOtherWord w = true) : w ≠ boundKey upper := by
  simp only [isOtherWord, Bool.and_eq_true, decide_eq_true_eq] at hw
  cases upper with
  | true => exact hw.1.1.2
  | false => exact hw.1.1.1

/-- The global options are searched for the first bound. -/
theorem firstAfter_items (upper : Bool) (items : List HaItem) :
    firstAfter (boundKey upper) (items.flatMap HaItem.words) =
      (firstOf (boundOf upper) items).map Protocol.haName := by
  induction items with
  | nil => rfl
  | cons item items ih =>
      rw [List.flatMap_cons]
      cases item with
      | word w hother hbare =>
          rw [firstOf_cons_none rfl, ← ih]
          exact firstAfter_skip (ne_boundKey_of_other upper hother)
      | option key value hkey hother hvalue =>
          rw [firstOf_cons_none rfl, ← ih]
          exact (firstAfter_skip (ne_boundKey_of_other upper hother)).trans
            (firstAfter_skip (ne_boundKey_of_other upper hvalue))
      | setting setting =>
          cases setting with
          | noTls13 =>
              rw [firstOf_cons_none (by cases upper <;> rfl), ← ih]
              exact firstAfter_skip (by cases upper <;> decide)
          | force p =>
              rw [firstOf_cons_none (by cases upper <;> rfl), ← ih]
              exact firstAfter_skip (by cases upper <;> cases p <;> decide)
          | minVer p =>
              cases upper with
              | true =>
                  rw [firstOf_cons_none rfl, ← ih]
                  exact (firstAfter_skip (by decide)).trans (firstAfter_skip (haName_ne true p))
              | false =>
                  rw [firstOf_cons_some rfl]
                  exact if_pos rfl
          | maxVer p =>
              cases upper with
              | true =>
                  rw [firstOf_cons_some rfl]
                  exact if_pos rfl
              | false =>
                  rw [firstOf_cons_none rfl, ← ih]
                  exact (firstAfter_skip (by decide)).trans (firstAfter_skip (haName_ne false p))

/-- The words of a `bind` line are searched for the first bound. -/
theorem readBindWords_opts (upper : Bool) (items : List HaItem) (options : BindOptions) :
    (readBindWords options (items.flatMap HaItem.words)).opts.get? (boundKey upper) =
      (options.opts.get? (boundKey upper)).or
        ((firstOf (boundOf upper) items).map Protocol.haName) := by
  induction items generalizing options with
  | nil => exact (Option.or_none).symm
  | cons item items ih =>
      rw [List.flatMap_cons]
      -- A word without a value.
      have hflag : ∀ w : Chars, bindValued.contains w = false →
          (readBindWords options (w :: items.flatMap HaItem.words)).opts.get? (boundKey upper) =
            (options.opts.get? (boundKey upper)).or
              ((firstOf (boundOf upper) items).map Protocol.haName) := by
        intro w hw
        rw [readBindWords_flag options hw, ih]
      -- A value under another key.
      have hother : ∀ {key : Chars} (value : Chars), bindValued.contains key = true →
          key ≠ boundKey upper →
          (readBindWords options (key :: value :: items.flatMap HaItem.words)).opts.get?
            (boundKey upper) = (options.opts.get? (boundKey upper)).or
              ((firstOf (boundOf upper) items).map Protocol.haName) := by
        intro key value hkey hne
        rw [readBindWords_valued options value hkey, ih, Dict.get?_update, if_neg hne.symm]
      -- The first value under this one.
      have hthis : ∀ value : Chars,
          (readBindWords options (boundKey upper :: value :: items.flatMap HaItem.words)).opts.get?
            (boundKey upper) = (options.opts.get? (boundKey upper)).or (some value) := by
        intro value
        have hcrt : boundKey upper ≠ "crt".toList := by cases upper <;> decide
        rw [readBindWords_valued options value (by cases upper <;> decide), ih, Dict.get?_update,
          if_pos rfl, if_neg hcrt]
        cases options.opts.get? (boundKey upper) <;> rfl
      cases item with
      | word w _ hbare =>
          rw [firstOf_cons_none rfl]
          exact hflag w hbare
      | option key value hkey hplain _ =>
          rw [firstOf_cons_none rfl]
          exact hother value hkey (ne_boundKey_of_other upper hplain)
      | setting setting =>
          cases setting with
          | noTls13 =>
              rw [firstOf_cons_none (by cases upper <;> rfl)]
              exact hflag "no-tlsv13".toList (by decide)
          | force p =>
              rw [firstOf_cons_none (by cases upper <;> rfl)]
              exact hflag p.haForce (by cases p <;> decide)
          | minVer p =>
              cases upper with
              | true =>
                  rw [firstOf_cons_none rfl]
                  exact hother p.haName (by decide) (by decide)
              | false =>
                  rw [firstOf_cons_some rfl]
                  exact hthis p.haName
          | maxVer p =>
              cases upper with
              | true =>
                  rw [firstOf_cons_some rfl]
                  exact hthis p.haName
              | false =>
                  rw [firstOf_cons_none rfl]
                  exact hother p.haName (by decide) (by decide)

/-- A setting of one word. -/
inductive HaSetting.IsFlag : HaSetting → Chars → Prop where
  | noTls13 : IsFlag .noTls13 "no-tlsv13".toList
  | force (p : Protocol) : IsFlag (.force p) p.haForce

theorem ne_flag_of_other {setting : HaSetting} {flag : Chars} (hflag : setting.IsFlag flag)
    (hw : isOtherWord w = true) : w ≠ flag := by
  simp only [isOtherWord, Bool.and_eq_true, decide_eq_true_eq] at hw
  cases hflag with
  | noTls13 => exact hw.1.2
  | force p =>
      rintro rfl
      have hforce := hw.2
      cases p <;> exact absurd hforce (by decide)

theorem isFlag_injective {first second : HaSetting} {flag : Chars} (hfirst : first.IsFlag flag)
    (hsecond : second.IsFlag flag) : first = second := by
  generalize hword : flag = word at hsecond
  cases hfirst with
  | noTls13 =>
      cases hsecond with
      | noTls13 => rfl
      | force q => cases q <;> exact absurd hword (by decide)
  | force p =>
      cases hsecond with
      | noTls13 => cases p <;> exact absurd hword (by decide)
      | force q => cases p <;> cases q <;> first | rfl | exact absurd hword (by decide)

theorem mem_haSettings_cons {setting : HaSetting} {item : HaItem} :
    setting ∈ haSettings (item :: items) ↔
      item = .setting setting ∨ setting ∈ haSettings items := by
  unfold haSettings
  cases item with
  | setting other =>
      rw [List.filterMap_cons_some (f := HaItem.setting?) rfl, List.mem_cons]
      simp [eq_comm]
  | word w hother hbare =>
      rw [List.filterMap_cons_none (f := HaItem.setting?) rfl]
      simp
  | option key value hkey hother hvalue =>
      rw [List.filterMap_cons_none (f := HaItem.setting?) rfl]
      simp

/-- The flags of a `bind` line. -/
theorem readBindWords_flags {setting : HaSetting} {flag : Chars} (hflag : setting.IsFlag flag)
    (items : List HaItem) (options : BindOptions) :
    flag ∈ (readBindWords options (items.flatMap HaItem.words)).flags ↔
      flag ∈ options.flags ∨ setting ∈ haSettings items := by
  induction items generalizing options with
  | nil => simp [readBindWords, haSettings]
  | cons item items ih =>
      rw [List.flatMap_cons, mem_haSettings_cons]
      -- A word that is kept as a flag, and a value that is not.
      have hword : ∀ {w : Chars}, bindValued.contains w = false →
          (flag ∈ (readBindWords options (w :: items.flatMap HaItem.words)).flags ↔
            flag ∈ options.flags ∨ w = flag ∨ setting ∈ haSettings items) := by
        intro w hw
        rw [readBindWords_flag options hw, ih]
        simp [or_assoc, eq_comm]
      have hvalued : ∀ {key : Chars} (value : Chars), bindValued.contains key = true →
          (flag ∈ (readBindWords options (key :: value :: items.flatMap HaItem.words)).flags ↔
            flag ∈ options.flags ∨ setting ∈ haSettings items) := by
        intro key value hkey
        rw [readBindWords_valued options value hkey, ih]
      cases item with
      | word w hother hbare =>
          refine (hword hbare).trans (or_congr_right (or_congr_left ?_))
          exact iff_of_false (ne_flag_of_other hflag hother) nofun
      | option key value hkey _ _ =>
          refine (hvalued value hkey).trans (or_congr_right ?_)
          simp
      | setting other =>
          have hsame : ∀ {w : Chars}, other.IsFlag w →
              (w = flag ↔ HaItem.setting other = .setting setting) := by
            intro w hw
            constructor
            · rintro rfl
              rw [isFlag_injective hw hflag]
            · intro hsetting
              obtain rfl := HaItem.setting.inj hsetting
              cases hw <;> cases hflag <;> rfl
          cases other with
          | noTls13 =>
              exact (hword (by decide)).trans (or_congr_right (or_congr_left (hsame .noTls13)))
          | force p =>
              exact (hword (by cases p <;> decide)).trans
                (or_congr_right (or_congr_left (hsame (.force p))))
          | minVer p =>
              refine (hvalued p.haName (by decide)).trans (or_congr_right ?_)
              refine ⟨Or.inr, fun hor => hor.resolve_left fun heq => ?_⟩
              obtain rfl := HaItem.setting.inj heq
              cases hflag
          | maxVer p =>
              refine (hvalued p.haName (by decide)).trans (or_congr_right ?_)
              refine ⟨Or.inr, fun hor => hor.resolve_left fun heq => ?_⟩
              obtain rfl := HaItem.setting.inj heq
              cases hflag

/-- `no-tlsv13` in the global options. -/
theorem noTls13_global (items : List HaItem) :
    "no-tlsv13".toList ∈ items.flatMap HaItem.words ↔ .noTls13 ∈ haSettings items := by
  induction items with
  | nil => simp [haSettings]
  | cons item items ih =>
      rw [List.flatMap_cons, List.mem_append, ih, mem_haSettings_cons]
      refine or_congr_left ?_
      cases item with
      | word w hother hbare =>
          refine iff_of_false (fun hmem => ?_) nofun
          exact ne_flag_of_other .noTls13 hother (List.mem_singleton.mp hmem).symm
      | option key value hkey hother hvalue =>
          refine iff_of_false (fun hmem => ?_) nofun
          rcases List.mem_pair.mp hmem with heq | heq
          · exact ne_flag_of_other .noTls13 hother heq.symm
          · exact ne_flag_of_other .noTls13 hvalue heq.symm
      | setting setting =>
          cases setting with
          | noTls13 => exact iff_of_true (List.mem_singleton.mpr rfl) rfl
          | force p => cases p <;> exact iff_of_false (by decide) nofun
          | minVer p => cases p <;> exact iff_of_false (by decide) nofun
          | maxVer p => cases p <;> exact iff_of_false (by decide) nofun

theorem protoRank_haName (p : Protocol) : protoRank p.haName = some p.rank := by
  cases p <;> decide +kernel

theorem rank_of_bounds (first second : Option Protocol) :
    ((first.map Protocol.haName).or (second.map Protocol.haName)).bind protoRank =
      (first.or second).map Protocol.rank := by
  cases first with
  | some p => exact protoRank_haName p
  | none =>
      cases second with
      | some p => exact protoRank_haName p
      | none => rfl

theorem haproxy_closed_iff {glob : Dict Chars Chars} {line : HaBind}
    (hline : line.words.tail = bind.flatMap HaItem.words)
    (hglob : globalOptions glob = global.flatMap HaItem.words) :
    (haEndpoint glob line).tls13Allowed = some false ↔
      .noTls13 ∈ haSettings bind ∨ .noTls13 ∈ haSettings global ∨
        .force .tls12 ∈ haSettings bind ∨
          BelowTls13 ((firstOf HaSetting.maximum bind).or (firstOf HaSetting.maximum global)) := by
  have hendpoint : (haEndpoint glob line).tls13Allowed =
      tls13Allowed none (haBounds (readBindWords {} line.words.tail) (globalOptions glob)).1
        (haBounds (readBindWords {} line.words.tail) (globalOptions glob)).2 := rfl
  have hbound : ∀ upper, ((readBindWords {} (bind.flatMap HaItem.words)).opts.get?
      (boundKey upper)).or (firstAfter (boundKey upper) (global.flatMap HaItem.words)) =
      ((firstOf (boundOf upper) bind).map Protocol.haName).or
        ((firstOf (boundOf upper) global).map Protocol.haName) := by
    intro upper
    rw [readBindWords_opts upper bind {}, firstAfter_items upper global]
    rfl
  have hminimum := hbound false
  have hmaximum := hbound true
  have hoff := readBindWords_flags .noTls13 bind {}
  have hforce := readBindWords_flags (.force .tls12) bind {}
  rw [hendpoint, hline, hglob]
  unfold haBounds
  dsimp only
  rw [← noTls13_global global]
  split
  · next hclosed =>
      simp only [Bool.or_eq_true, List.contains_iff_mem] at hclosed
      have hhigh : (some "TLSv1.2".toList).bind protoRank =
          (some Protocol.tls12).map Protocol.rank := protoRank_haName .tls12
      have hlow := (congrArg (Option.bind · protoRank) hminimum).trans (rank_of_bounds _ _)
      refine (tls13Allowed_bounds hlow hhigh).trans ?_
      refine iff_of_true (Or.inl ⟨_, rfl, by decide⟩) ?_
      rcases hclosed with (hflag | hglobal) | hflag
      · exact Or.inl ((hoff.mp hflag).resolve_left (by rintro ⟨⟩))
      · exact Or.inr (Or.inl hglobal)
      · exact Or.inr (Or.inr (Or.inl ((hforce.mp hflag).resolve_left (by rintro ⟨⟩))))
  · next hopen =>
      simp only [Bool.or_eq_true, List.contains_iff_mem, not_or] at hopen
      obtain ⟨⟨hnotOff, hnotGlobal⟩, hnotForce⟩ := hopen
      have hlow := (congrArg (Option.bind · protoRank) hminimum).trans (rank_of_bounds _ _)
      have hhigh := (congrArg (Option.bind · protoRank) hmaximum).trans (rank_of_bounds _ _)
      have hnone : tls13Allowed none none none = none := rfl
      refine (tls13Allowed_bounds hlow hhigh).trans ?_
      rw [hnone]
      constructor
      · rintro (hbelow | hfalse)
        · exact Or.inr (Or.inr (Or.inr hbelow))
        · exact absurd hfalse (by rintro ⟨⟩)
      · rintro (hbind | hglobal | hflag | hbelow)
        · exact absurd (hoff.mpr (Or.inr hbind)) hnotOff
        · exact absurd hglobal hnotGlobal
        · exact absurd (hforce.mpr (Or.inr hflag)) hnotForce
        · exact Or.inl hbelow

/-- HAProxy. -/
theorem haproxy_gate_iff {glob : Dict Chars Chars} {line : HaBind}
    (hline : line.words.tail = bind.flatMap HaItem.words)
    (hglob : globalOptions glob = global.flatMap HaItem.words) :
    GateHolds (haEndpoint glob line) (HaproxyAllows bind global .tls13) ↔
      HaproxyDecides bind global := by
  have hclosed := haproxy_closed_iff hline hglob
  unfold haEndpoint at hclosed ⊢
  dsimp only at hclosed ⊢
  rw [gateHolds_iff, hclosed, haproxyAllows_iff, HaproxyDecides]
  by_cases hbind : .noTls13 ∈ haSettings bind
  · simp [hbind]
  · by_cases hglobal : .noTls13 ∈ haSettings global
    · simp [hglobal]
    · simp only [hbind, hglobal, false_or, not_false_eq_true, and_self, true_and, not_not]
      exact ⟨fun hiff => hiff.symm, fun hiff => hiff.symm⟩

/-- Every endpoint of a configuration has the gate exactly for the settings of its `bind` line and
of the global section that HAProxy decides. -/
theorem parseHaproxy_gate_iff {paths : List String} {reader : String → Option Chars}
    (hglob : globalOptions (paths.foldl (haFile reader) {}).glob = global.flatMap HaItem.words)
    {endpoint : Endpoint} (hendpoint : endpoint ∈ (parseHaproxy paths reader).endpoints) :
    ∃ line : HaBind, line.Listens paths ∧ "ssl".toList ∈ line.words ∧
      ∀ bind : List HaItem, line.words.tail = bind.flatMap HaItem.words →
        (GateHolds endpoint (HaproxyAllows bind global .tls13) ↔ HaproxyDecides bind global) := by
  obtain ⟨line, hlistens, hssl, rfl⟩ := exists_bind_of_mem_parseHaproxy hendpoint
  exact ⟨line, hlistens, hssl, fun bind hline => haproxy_gate_iff hline hglob⟩

end Haproxy

/-! ## The three services -/

/-- Each service has the gate exactly for the settings that its parser decides as the service
does. -/
theorem tls13_gate_iff (settings : EndpointSettings) {sslProtocol smtpd : Chars}
    {apacheTokens : List ApacheToken} {smtpdTokens : List PostfixToken}
    {glob : Dict Chars Chars} {line : HaBind} {bind global : List HaItem}
    (hapache : wordsOf sslProtocol = apacheTokens.map ApacheToken.text)
    (hsmtpd : postfixTokens smtpd = smtpdTokens.map PostfixToken.text)
    (hline : line.words.tail = bind.flatMap HaItem.words)
    (hglob : globalOptions glob = global.flatMap HaItem.words) :
    (GateHolds (apacheEndpoint settings sslProtocol) (modSslAllows apacheTokens .tls13 = true) ↔
        ApacheDecides apacheTokens) ∧
      (GateHolds (postfixEndpoint settings smtpd) (PostfixAllows smtpdTokens .tls13) ↔
        PostfixDecides smtpdTokens) ∧
      (GateHolds (haEndpoint glob line) (HaproxyAllows bind global .tls13) ↔
        HaproxyDecides bind global) :=
  ⟨apache_gate_iff settings hapache, postfix_gate_iff settings hsmtpd,
    haproxy_gate_iff hline hglob⟩

/-- An endpoint of `ssl.conf`. -/
def sslConf : EndpointSettings := { file := "ssl.conf", line := some 1, ports := [443] }

/-- `all -TLSv1.3`. -/
def withoutTls13 : List ApacheToken :=
  [⟨.bare, .all, "all".toList, rfl⟩, ⟨.remove, .one .tls13, "TLSv1.3".toList, rfl⟩]

/-- `!TLSv1.3`. -/
def notTls13 : List PostfixToken := [.exclude .tls13 ⟨"TLSv1.3".toList, rfl⟩]

/-- `:443 ssl no-tlsv13`. -/
def sslBind : HaBind := ⟨"haproxy.cfg", 1, "frontend web".toList,
  [":443".toList, "ssl".toList, "no-tlsv13".toList]⟩

/-- What stands behind its address. -/
def sslItems : List HaItem := [.word "ssl".toList rfl rfl, .setting .noTls13]

theorem disabled_gate :
    GateHolds (apacheEndpoint sslConf "all -TLSv1.3".toList)
        (modSslAllows withoutTls13 .tls13 = true) ∧
      GateHolds (postfixEndpoint sslConf "!TLSv1.3".toList) (PostfixAllows notTls13 .tls13) ∧
      GateHolds (haEndpoint .empty sslBind) (HaproxyAllows sslItems [] .tls13) := by
  have happache : wordsOf "all -TLSv1.3".toList = withoutTls13.map ApacheToken.text := by decide
  have hsmtpd : postfixTokens "!TLSv1.3".toList = notTls13.map PostfixToken.text := by decide
  have hline : sslBind.words.tail = sslItems.flatMap HaItem.words := by decide
  have hglob : globalOptions .empty = ([] : List HaItem).flatMap HaItem.words := rfl
  obtain ⟨hapache, hsmtpd, hhaproxy⟩ := tls13_gate_iff sslConf happache hsmtpd hline hglob
  refine ⟨hapache.mpr (Or.inr ⟨?_, .tls12, ?_⟩), hsmtpd.mpr (Or.inr (Or.inr ⟨?_, .tls12, ?_⟩)),
    hhaproxy.mpr (Or.inl ?_)⟩
  · rw [staysEnabled_iff]
    decide
  · rw [staysEnabled_iff]
    decide
  · decide
  · decide
  · decide

/-- `all TLSv1.2`. -/
def onlyTls12 : List ApacheToken :=
  [⟨.bare, .all, "all".toList, rfl⟩, ⟨.bare, .one .tls12, "TLSv1.2".toList, rfl⟩]

/-- `:443 ssl force-tlsv11`. -/
def forcedBind : HaBind := ⟨"haproxy.cfg", 1, "frontend web".toList,
  [":443".toList, "ssl".toList, "force-tlsv11".toList]⟩

/-- A protocol that replaces all others, a list of the protocols allowed, and a version that is
forced: the gate stays open in all three. -/
theorem not_gate_onlyTls12 :
    (wordsOf "all TLSv1.2".toList = onlyTls12.map ApacheToken.text ∧
        ¬ GateHolds (apacheEndpoint sslConf "all TLSv1.2".toList)
          (modSslAllows onlyTls12 .tls13 = true)) ∧
      ¬ GateHolds (postfixEndpoint sslConf "TLSv1.2".toList)
        (PostfixAllows [.only .tls12 ⟨"TLSv1.2".toList, rfl⟩] .tls13) ∧
      ¬ GateHolds (haEndpoint .empty forcedBind)
        (HaproxyAllows [.word "ssl".toList rfl rfl, .setting (.force .tls11)] [] .tls13) := by
  refine ⟨⟨by decide, fun hgate => ?_⟩, fun hgate => ?_, fun hgate => ?_⟩
  · exact absurd (hgate.closed (by decide)).1 (by decide +kernel)
  · refine absurd (hgate.closed fun hallows => ?_).1 (by decide +kernel)
    exact absurd (hallows.listed nofun) (by decide)
  · refine absurd (hgate.closed fun hallows => ?_).1 (by decide +kernel)
    exact absurd (hallows.upper .tls11 rfl) (by decide)

end PqcReadiness.Config
