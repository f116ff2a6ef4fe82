import PqcReadiness.Lib.History
import PqcReadiness.Lib.Text

/-!
# Enctype lists of MIT Kerberos

`expand_enctypes` goes through the tokens of a list; a token adds or removes the enctypes that it
stands for.  The enctypes of the result are those whose last mention is an addition, in the order in
which they came in (`expandEnctypes_history`).
-/

namespace PqcReadiness.Kerberos

open PqcReadiness.Lib

/-! ## The tables -/

/-- `_ALIASES`. -/
def aliases : List (String × List String) :=
  [("des3-cbc-raw", ["des3-cbc-raw"]),
    ("des3-hmac-sha1", ["des3-cbc-sha1"]),
    ("des3-cbc-sha1-kd", ["des3-cbc-sha1"]),
    ("aes256-cts", ["aes256-cts-hmac-sha1-96"]),
    ("aes256-sha1", ["aes256-cts-hmac-sha1-96"]),
    ("aes128-cts", ["aes128-cts-hmac-sha1-96"]),
    ("aes128-sha1", ["aes128-cts-hmac-sha1-96"]),
    ("aes256-sha2", ["aes256-cts-hmac-sha384-192"]),
    ("aes128-sha2", ["aes128-cts-hmac-sha256-128"]),
    ("rc4-hmac", ["arcfour-hmac"]),
    ("arcfour-hmac-md5", ["arcfour-hmac"]),
    ("rc4-hmac-exp", ["arcfour-hmac-exp"]),
    ("arcfour-hmac-md5-exp", ["arcfour-hmac-exp"]),
    ("camellia256-cts", ["camellia256-cts-cmac"]),
    ("camellia128-cts", ["camellia128-cts-cmac"]),
    -- Families.
    ("des3", ["des3-cbc-sha1"]),
    ("aes", ["aes256-cts-hmac-sha1-96", "aes128-cts-hmac-sha1-96", "aes256-cts-hmac-sha384-192",
      "aes128-cts-hmac-sha256-128"]),
    ("rc4", ["arcfour-hmac"]),
    ("camellia", ["camellia256-cts-cmac", "camellia128-cts-cmac"]),
    ("des", ["des-cbc-crc", "des-cbc-md4", "des-cbc-md5"])]

/-- `MIT_DEFAULT_ENCTYPES`. -/
def mitDefaultEnctypes : List String :=
  ["aes256-cts-hmac-sha1-96", "aes128-cts-hmac-sha1-96", "aes256-cts-hmac-sha384-192",
    "aes128-cts-hmac-sha256-128", "des3-cbc-sha1", "arcfour-hmac", "camellia256-cts-cmac",
    "camellia128-cts-cmac"]

/-- `_MIT_WEAK`. -/
def mitWeak : List String :=
  ["des-cbc-crc", "des-cbc-md4", "des-cbc-md5", "arcfour-hmac-exp", "des3-cbc-raw"]

/-! ## The list -/

section Enctypes

variable (lower : String → String)

/-- The tokens of a list; a list that is not given is the default. -/
def enctypeTokens : Option String → List String
  | none => ["DEFAULT"]
  | some value =>
      ((splitWhere (fun c => isSpace c || c = ',') value.toList).filter (· ≠ [])).map String.ofList

/-- Whether a token removes. -/
def removes (tok : String) : Bool := startsWith "-" tok

/-- The enctypes that a token stands for. -/
def tokenNames (tok : String) : List String :=
  let name := lower (String.ofList (tok.toList.dropWhile fun c => c = '+' || c = '-'))
  if name = "default" then mitDefaultEnctypes else (find name aliases).getD [name]

/-- The mentions of a token. -/
def tokenMentions (tok : String) : List (Mention String) :=
  (tokenNames lower tok).map fun name => ⟨removes tok, name⟩

/-- One turn of the loop. -/
def enctypeStep (out : List String) (tok : String) : List String :=
  (tokenMentions lower tok).foldl Mention.apply out

/-- `expand_enctypes`. -/
def expandEnctypes (value : Option String) (allowWeak : Bool) : List String :=
  let out := (enctypeTokens value).foldl (enctypeStep lower) []
  if allowWeak then out else out.filter (· ∉ mitWeak)

/-- All that a list mentions, token by token. -/
def enctypeHistory (value : Option String) : List (Mention String) :=
  (enctypeTokens value).flatMap (tokenMentions lower)

/-- Whether the enctype is shown. -/
def isShown (allowWeak : Bool) (name : String) : Bool := allowWeak || name ∉ mitWeak

theorem expandEnctypes_eq (value : Option String) (allowWeak : Bool) :
    expandEnctypes lower value allowWeak =
      (Mention.replay (enctypeHistory lower value)).filter (isShown allowWeak) := by
  have hfold : (enctypeTokens value).foldl (enctypeStep lower) [] =
      Mention.replay (enctypeHistory lower value) := by
    rw [Mention.replay, enctypeHistory, List.foldl_flatMap]
    rfl
  rw [expandEnctypes, hfold]
  cases allowWeak with
  | true => exact (List.filter_eq_self.mpr fun _ _ => rfl).symm
  | false => rfl

/-- The last token of a list that mentions an enctype. -/
structure LastMention (toks : List String) (name tok : String) : Prop where
  mentioned : name ∈ tokenNames lower tok
  last : ∃ before after, toks = before ++ tok :: after ∧ ∀ other ∈ after,
    name ∉ tokenNames lower other

variable {lower}

theorem mem_history_iff {toks : List String} {mention : Mention String} :
    mention ∈ toks.flatMap (tokenMentions lower) ↔
      ∃ tok ∈ toks, mention.value ∈ tokenNames lower tok ∧ mention.remove = removes tok := by
  obtain ⟨remove, name⟩ := mention
  simp only [List.mem_flatMap, tokenMentions, List.mem_map, Mention.mk.injEq]
  constructor
  · rintro ⟨tok, htok, other, hother, rfl, rfl⟩
    exact ⟨tok, htok, hother, rfl⟩
  · rintro ⟨tok, htok, hname, rfl⟩
    exact ⟨tok, htok, name, hname, rfl, rfl⟩

/-- The last token that mentions an enctype decides. -/
theorem mem_replay_of_lastMention {toks : List String} {name tok : String}
    (hlast : LastMention lower toks name tok) :
    name ∈ Mention.replay (toks.flatMap (tokenMentions lower)) ↔ removes tok = false := by
  obtain ⟨hname, before, after, rfl, hafter⟩ := hlast
  have hfold : Mention.replay ((before ++ tok :: after).flatMap (tokenMentions lower)) =
      (after.flatMap (tokenMentions lower)).foldl Mention.apply
        ((tokenMentions lower tok).foldl Mention.apply
          (Mention.replay (before.flatMap (tokenMentions lower)))) := by
    rw [Mention.replay, List.flatMap_append, List.flatMap_cons, List.foldl_append,
      List.foldl_append]
    rfl
  -- The tokens behind it leave the enctype as it is.
  have hkeep : ∀ (later : List (Mention String)) (kept : List String),
      (∀ mention ∈ later, mention.value ≠ name) →
        (name ∈ later.foldl Mention.apply kept ↔ name ∈ kept) := by
    intro later
    induction later with
    | nil => exact fun _ _ => Iff.rfl
    | cons mention later ih =>
        intro kept hothers
        obtain ⟨hne, hothers⟩ := List.forall_mem_cons.mp hothers
        rw [List.foldl_cons, ih _ hothers, Mention.mem_apply_of_ne hne]
  have hothers : ∀ mention ∈ after.flatMap (tokenMentions lower), mention.value ≠ name := by
    intro mention hmention hsame
    obtain ⟨other, hother, hvalue, -⟩ := mem_history_iff.mp hmention
    exact hafter other hother (hsame ▸ hvalue)
  rw [hfold, hkeep _ _ hothers, tokenMentions, Mention.mem_foldl_apply_iff, if_pos hname]

theorem exists_lastMention {toks : List String} {name : String}
    (hname : ∃ tok ∈ toks, name ∈ tokenNames lower tok) :
    ∃ tok, LastMention lower toks name tok := by
  induction toks with
  | nil =>
      obtain ⟨_, htok, _⟩ := hname
      cases htok
  | cons tok toks ih =>
      by_cases hlater : ∃ other ∈ toks, name ∈ tokenNames lower other
      · obtain ⟨last, hmentioned, before, after, rfl, hafter⟩ := ih hlater
        exact ⟨last, hmentioned, tok :: before, after, rfl, hafter⟩
      · obtain ⟨first, hfirst, hmentioned⟩ := hname
        rcases List.mem_cons.mp hfirst with rfl | hmem
        · refine ⟨first, hmentioned, [], toks, rfl, fun other hother hother' => ?_⟩
          exact hlater ⟨other, hother, hother'⟩
        · exact absurd ⟨first, hmem, hmentioned⟩ hlater

end Enctypes

/-- **The enctypes of a list are those whose last mention is an addition, each once, in the order in
which they came in.** -/
theorem expandEnctypes_history (lower : String → String) (value : Option String)
    (allowWeak : Bool) :
    (expandEnctypes lower value allowWeak).Nodup ∧
    (∀ name, name ∈ expandEnctypes lower value allowWeak ↔
      (allowWeak = true ∨ name ∉ mitWeak) ∧
        ∃ tok, LastMention lower (enctypeTokens value) name tok ∧ removes tok = false) ∧
    (∀ first ∈ expandEnctypes lower value allowWeak,
      ∃ i, Mention.Stands (enctypeHistory lower value) i first) ∧
    ∀ first ∈ expandEnctypes lower value allowWeak,
      ∀ second ∈ expandEnctypes lower value allowWeak, ∀ i j,
        Mention.Stands (enctypeHistory lower value) i first →
        Mention.Stands (enctypeHistory lower value) j second →
          ((expandEnctypes lower value allowWeak).idxOf first <
            (expandEnctypes lower value allowWeak).idxOf second ↔ i < j) := by
  rw [expandEnctypes_eq]
  refine ⟨(Mention.nodup_replay _).filter _, ?_, ?_, ?_⟩
  · intro name
    have hshown : isShown allowWeak name = true ↔ allowWeak = true ∨ name ∉ mitWeak := by
      simp [isShown]
    rw [List.mem_filter, hshown, and_comm, and_congr_right_iff]
    intro _
    constructor
    · intro hmem
      have hmentioned : ∃ tok ∈ enctypeTokens value, name ∈ tokenNames lower tok := by
        obtain ⟨j, hadded, -⟩ := Mention.mem_replay_iff.mp hmem
        obtain ⟨tok, htok, hname, -⟩ := mem_history_iff.mp (List.mem_of_getElem? hadded)
        exact ⟨tok, htok, hname⟩
      obtain ⟨tok, hlast⟩ := exists_lastMention hmentioned
      exact ⟨tok, hlast, (mem_replay_of_lastMention hlast).mp hmem⟩
    · rintro ⟨tok, hlast, hadds⟩
      exact (mem_replay_of_lastMention hlast).mpr hadds
  · exact fun first hfirst => Mention.exists_stands (List.mem_of_mem_filter hfirst)
  · exact fun first hfirst second hsecond i j hi hj =>
      Mention.idxOf_replay_lt_iff _ hfirst hsecond hi hj

end PqcReadiness.Kerberos
