import PqcReadiness.Certs.Der
import PqcReadiness.Lib.Lenient

/-!
# Which certificates can be read

A certificate reader fails with `DERError` only, exactly if every conversion that it comes to
succeeds.

## Strategy

`intended` has the conversions as the readers mean them: text for every object identifier,
and `DERError` for a year that is no number.  With them a reader raises nothing but
`DERError`, and its log is the list of conversions that a walk through the certificate comes
to, up to the first malformed element.

`FollowsIntended` compares a run of a reader with one that has the intended conversions: they
are the same as long as everything converts, and at the first conversion that fails, the run
ends with `ValueError`.  It is an instance of `Lib.Follows`, so that each reader has one lemma.
-/

namespace PqcReadiness.Certs

open PqcReadiness.Lib PqcReadiness.Lib.Bytes

/-- The conversions as the readers mean them. -/
def intended : Conversions where
  oid arcs := .ok (dotted arcs)
  year text :=
    match intOfChars text with
    | some year => .ok year
    | none => .error (.der "bad certificate time")

/-- A run goes like one with the intended conversions, as long as everything converts. -/
abbrev FollowsIntended {ρ : Type} (run model : Reader ρ) : Prop :=
  Follows Conversion.Converts Fault.IsDerError (· = .valueError) run model

/-! ## Conversions -/

theorem follows_convertOid (arcs : List ℕ) :
    FollowsIntended (convertOid python arcs) (convertOid intended arcs) := by
  have hmodel : convertOid intended arcs = ⟨[.oid arcs], .ok (dotted arcs)⟩ := rfl
  rw [hmodel]
  refine ⟨FailsOnly.ok _, ?_, ?_⟩
  · intro hconverts
    have harcs : ∀ arc ∈ arcs, arc < 10 ^ intMaxStrDigits :=
      hconverts (.oid arcs) (List.mem_singleton.mpr rfl)
    rw [convertOid, Gen.bind_of_ok (Gen.yield_ended _)]
    simp only [python, if_pos harcs]
    rfl
  · intro ⟨conversion, hmem, hfails⟩
    obtain rfl := List.mem_singleton.mp hmem
    rw [convertOid, Gen.bind_of_ok (Gen.yield_ended _)]
    have harcs : ¬ ∀ arc ∈ arcs, arc < 10 ^ intMaxStrDigits := hfails
    simp only [python, if_neg harcs]
    exact ⟨.valueError, rfl, rfl⟩

theorem follows_convertYear (text : List Char) :
    FollowsIntended (convertYear python text) (convertYear intended text) := by
  rw [convertYear, convertYear, Gen.bind_of_ok (Gen.yield_ended _),
    Gen.bind_of_ok (Gen.yield_ended _)]
  cases hyear : intOfChars text with
  | some year =>
      simp only [python, intended, hyear]
      refine ⟨FailsOnly.ok _, fun _ => rfl, ?_⟩
      rintro ⟨conversion, hmem, hfails⟩
      obtain rfl := List.mem_singleton.mp hmem
      exact absurd (by rw [Conversion.Converts, hyear]; rfl) hfails
  | none =>
      simp only [python, intended, hyear]
      refine ⟨FailsOnly.error.mpr trivial, ?_, fun _ => ⟨.valueError, rfl, rfl⟩⟩
      intro hconverts
      have hsome := hconverts (.year text) (List.mem_singleton.mpr rfl)
      rw [Conversion.Converts, hyear] at hsome
      cases hsome

/-! ## Readers -/

section Readers

variable {buf : Bytes} {pos start stop : ℕ}

theorem byteAt_of_lt (hpos : pos < buf.length) : byteAt buf pos = .ok (buf[pos]).toNat := by
  rw [byteAt, List.getElem?_eq_getElem hpos]

theorem failsOnly_byteAt (hpos : pos < buf.length) :
    FailsOnly Fault.IsDerError (byteAt buf pos) := by
  rw [byteAt_of_lt hpos]
  exact FailsOnly.ok _

theorem failsOnly_elementAt (tag start length stop : ℕ) :
    FailsOnly Fault.IsDerError (elementAt tag start length stop) :=
  (failsOnly_raiseIf trivial).bind fun _ _ => FailsOnly.ok _

/-- An element is read inside its container. -/
theorem failsOnly_derTlv (pos : ℕ) (hstop : stop ≤ buf.length) :
    FailsOnly Fault.IsDerError (derTlv buf pos stop) := by
  refine (failsOnly_raiseIf trivial).bind fun _ hroom => ?_
  have hroom := raiseIf_ok.mp hroom
  refine (failsOnly_byteAt (by omega)).bind fun tag _ => ?_
  refine (failsOnly_raiseIf trivial).bind fun _ _ => ?_
  refine (failsOnly_byteAt (by omega)).bind fun first _ => ?_
  split
  · exact failsOnly_elementAt _ _ _ _
  · refine (failsOnly_raiseIf trivial).bind fun _ _ => ?_
    refine (failsOnly_raiseIf trivial).bind fun _ _ => ?_
    exact failsOnly_elementAt _ _ _ _

/-- A reader that starts with an element. -/
theorem follows_element {τ : Type} {f g : Tlv → Reader τ} (pos : ℕ) (hstop : stop ≤ buf.length)
    (hnext : ∀ element : Tlv, element.start ≤ element.stop → element.stop ≤ stop →
      FollowsIntended (f element) (g element)) :
    FollowsIntended ((liftM (derTlv buf pos stop) : Reader Tlv) >>= f)
      ((liftM (derTlv buf pos stop) : Reader Tlv) >>= g) := by
  refine (Follows.lift (failsOnly_derTlv pos hstop)).bind fun element hread => ?_
  have hbounds := derTlv_advances hread
  exact hnext element hbounds.2.1 hbounds.2.2

theorem failsOnly_check (condition : Prop) [Decidable condition] (message : String) :
    FailsOnly Fault.IsDerError (raiseIf condition (Fault.der message)) := failsOnly_raiseIf trivial

/-- A reader that starts with a check. -/
theorem follows_raiseIf {τ : Type} {condition : Prop} [Decidable condition] {message : String}
    {f g : Unit → Reader τ} (hnext : FollowsIntended (f ()) (g ())) :
    FollowsIntended ((liftM (raiseIf condition (Fault.der message)) : Reader Unit) >>= f)
      ((liftM (raiseIf condition (Fault.der message)) : Reader Unit) >>= g) :=
  (Follows.lift (failsOnly_check condition message)).bind fun _ _ => hnext

theorem follows_readElements {σ : Type} {use model : Tlv → σ → Reader σ}
    (hstop : stop ≤ buf.length) (start : ℕ) (state : σ)
    (huse : ∀ (element : Tlv) state, element.stop ≤ stop →
      FollowsIntended (use element state) (model element state)) :
    FollowsIntended (readElements buf start stop use state) (readElements buf start stop model state) := by
  refine Follows.scan (fun pos state => ?_) start state
  refine follows_element pos hstop fun element _ hinside => ?_
  exact (huse element state hinside).bind fun after _ => Follows.pure _

theorem follows_derOid (value : Bytes) : FollowsIntended (derOid python value) (derOid intended value) := by
  refine (Follows.lift (failsOnly_check _ _)).bind fun _ hterminated => ?_
  have hterminated := raiseIf_ok.mp hterminated
  have hlength : 0 < value.length := by
    rw [List.length_pos_iff]
    intro hempty
    exact hterminated (Or.inl hempty)
  refine (Follows.lift (failsOnly_byteAt hlength)).bind fun first _ => ?_
  exact follows_raiseIf (follows_convertOid _)

theorem follows_derAlgorithmOid (pos : ℕ) (hstop : stop ≤ buf.length) :
    FollowsIntended (derAlgorithmOid python buf pos stop) (derAlgorithmOid intended buf pos stop) := by
  refine follows_element pos hstop fun algorithm _ hinside => ?_
  refine follows_raiseIf ?_
  refine follows_element _ (hinside.trans hstop) fun object _ _ => ?_
  refine follows_raiseIf ?_
  exact (follows_derOid _).bind fun oid _ => Follows.pure _

theorem failsOnly_afterVersion (hstop : stop ≤ buf.length) :
    FailsOnly Fault.IsDerError (afterVersion buf pos stop) := by
  unfold afterVersion
  split
  · refine (failsOnly_byteAt (by omega)).bind fun tag _ => ?_
    split
    · exact (failsOnly_derTlv pos hstop).bind fun version _ => FailsOnly.ok _
    · exact FailsOnly.ok _
  · exact FailsOnly.ok _

theorem failsOnly_tbsCertificate (der : Bytes) :
    FailsOnly Fault.IsDerError (tbsCertificate der) := by
  refine (failsOnly_derTlv 0 le_rfl).bind fun certificate hread => ?_
  refine (failsOnly_check _ _).bind fun _ _ => ?_
  refine (failsOnly_derTlv _ (derTlv_advances hread).2.2).bind fun tbs _ => ?_
  exact (failsOnly_check _ _).bind fun _ _ => FailsOnly.ok _

theorem tbsCertificate_inside {der : Bytes} {tbs : Tlv} (hread : tbsCertificate der = .ok tbs) :
    tbs.stop ≤ der.length := by
  obtain ⟨certificate, hcertificate, hread⟩ := except_bind_ok.mp hread
  obtain ⟨_, _, hread⟩ := except_bind_ok.mp hread
  obtain ⟨found, hfound, hread⟩ := except_bind_ok.mp hread
  obtain ⟨_, _, hread⟩ := except_bind_ok.mp hread
  obtain rfl := Except.ok.inj hread
  exact (derTlv_advances hfound).2.2.trans (derTlv_advances hcertificate).2.2

theorem follows_certAlgorithmOids (der : Bytes) :
    FollowsIntended (certAlgorithmOids python der) (certAlgorithmOids intended der) := by
  refine (Follows.lift (failsOnly_tbsCertificate der)).bind fun tbs htbs => ?_
  have hstop := tbsCertificate_inside htbs
  refine (Follows.lift (failsOnly_afterVersion hstop)).bind fun pos _ => ?_
  refine follows_element pos hstop fun serial _ _ => ?_
  refine (follows_derAlgorithmOid _ hstop).bind fun algorithm _ => ?_
  refine follows_element _ hstop fun issuer _ _ => ?_
  refine follows_element _ hstop fun validity _ _ => ?_
  refine follows_element _ hstop fun subject _ _ => ?_
  refine follows_element _ hstop fun spki _ hinside => ?_
  refine follows_raiseIf ?_
  refine (follows_derAlgorithmOid _ (hinside.trans hstop)).bind fun key _ => ?_
  exact Follows.pure _

/-! ## Names, times, keys and extensions -/

theorem follows_attributeText {pair : Tlv} (hinside : pair.stop ≤ buf.length) :
    FollowsIntended (attributeText python buf pair) (attributeText intended buf pair) := by
  refine follows_raiseIf ?_
  refine follows_element _ hinside fun type _ _ => ?_
  refine follows_raiseIf ?_
  refine (follows_derOid _).bind fun oid _ => ?_
  exact follows_element _ hinside fun value _ _ => Follows.pure _

theorem follows_rdnText {rdn : Tlv} (hinside : rdn.stop ≤ buf.length) :
    FollowsIntended (rdnText python buf rdn) (rdnText intended buf rdn) := by
  refine follows_raiseIf ?_
  refine (follows_readElements hinside _ _ fun pair parts hpair => ?_).bind
    fun parts _ => Follows.pure _
  exact (follows_attributeText (hpair.trans hinside)).bind fun part _ => Follows.pure _

theorem follows_derName (start : ℕ) (hstop : stop ≤ buf.length) :
    FollowsIntended (derName python buf start stop) (derName intended buf start stop) := by
  refine (follows_readElements hstop _ _ fun rdn rdns hrdn => ?_).bind
    fun rdns _ => Follows.pure _
  exact (follows_rdnText (hrdn.trans hstop)).bind fun text _ => Follows.pure _

theorem failsOnly_isoTime (text : List Char) : FailsOnly Fault.IsDerError (isoTime text) := by
  unfold isoTime
  split
  · exact FailsOnly.ok _
  · exact FailsOnly.error.mpr trivial

theorem follows_derTime (tag : ℕ) (value : Bytes) :
    FollowsIntended (derTime python tag value) (derTime intended tag value) := by
  refine follows_raiseIf ?_
  split
  · refine (follows_convertYear _).bind fun yy _ => ?_
    exact Follows.lift (failsOnly_isoTime _)
  · exact follows_raiseIf (Follows.lift (failsOnly_isoTime _))

theorem failsOnly_rsaKeySize (pos : ℕ) (hstop : stop ≤ buf.length) (size : Option ℕ) :
    FailsOnly Fault.IsDerError (rsaKeySize buf pos stop size) := by
  refine (failsOnly_derTlv pos hstop).bind fun bits hbits => ?_
  have hbitsStop := (derTlv_advances hbits).2.2.trans hstop
  split
  · refine (failsOnly_derTlv _ hbitsStop).bind fun key hkey => ?_
    have hkeyStop := (derTlv_advances hkey).2.2.trans hbitsStop
    split
    · refine (failsOnly_derTlv _ hkeyStop).bind fun modulus _ => ?_
      split <;> exact FailsOnly.ok _
    · exact FailsOnly.ok _
  · exact FailsOnly.ok _

theorem follows_ecKey (oid name : String) (pos : ℕ) (hstop : stop ≤ buf.length)
    (size : Option ℕ) :
    FollowsIntended (ecKey python buf oid pos stop name size)
      (ecKey intended buf oid pos stop name size) := by
  refine follows_element pos hstop fun parameter _ _ => ?_
  split
  · refine (follows_derOid _).bind fun curve _ => ?_
    split <;> exact Follows.pure _
  · exact Follows.pure _

theorem follows_spkiKey (start : ℕ) (hstop : stop ≤ buf.length) :
    FollowsIntended (spkiKey python buf start stop) (spkiKey intended buf start stop) := by
  refine follows_element start hstop fun algorithm _ hinside => ?_
  refine follows_raiseIf ?_
  refine follows_element _ (hinside.trans hstop) fun object _ _ => ?_
  refine (follows_derOid _).bind fun oid _ => ?_
  split
  · exact follows_ecKey _ _ _ (hinside.trans hstop) _
  · dsimp only
    split
    · exact (Follows.lift (failsOnly_rsaKeySize _ hstop _)).bind fun size _ => Follows.pure _
    · exact Follows.pure _

theorem failsOnly_extensionElement (pos : ℕ) (hstop : stop ≤ buf.length) :
    FailsOnly Fault.IsDerError (extensionElement buf pos stop) := by
  refine (failsOnly_derTlv pos hstop).bind fun next _ => ?_
  split
  · exact failsOnly_derTlv _ hstop
  · exact FailsOnly.ok _

theorem follows_addExtension {extension : Tlv} (hinside : extension.stop ≤ buf.length)
    (out : Dict String Bytes) :
    FollowsIntended (addExtension python buf extension out) (addExtension intended buf extension out) := by
  refine follows_element _ hinside fun object _ _ => ?_
  refine (follows_derOid _).bind fun oid _ => ?_
  refine (Follows.lift (failsOnly_extensionElement _ hinside)).bind fun value _ => ?_
  split <;> exact Follows.pure _

theorem follows_extensions (start : ℕ) (hstop : stop ≤ buf.length) :
    FollowsIntended (extensions python buf start stop) (extensions intended buf start stop) := by
  refine follows_element start hstop fun sequence _ hinside => ?_
  refine follows_raiseIf ?_
  exact follows_readElements (hinside.trans hstop) _ _ fun extension out hextension =>
    follows_addExtension (hextension.trans (hinside.trans hstop)) out

theorem failsOnly_basicConstraintsCa (bc : Bytes) :
    FailsOnly Fault.IsDerError (basicConstraintsCa bc) := by
  refine (failsOnly_derTlv 0 le_rfl).bind fun sequence hsequence => ?_
  have hstop := (derTlv_advances hsequence).2.2
  split
  · exact FailsOnly.ok _
  · refine (failsOnly_derTlv _ hstop).bind fun flag hflag => ?_
    have hflagStop := (derTlv_advances hflag).2.2
    split
    · next hvalue =>
        exact (failsOnly_byteAt (by omega)).bind fun value _ => FailsOnly.ok _
    · exact FailsOnly.ok _

theorem failsOnly_isCa (exts : Dict String Bytes) : FailsOnly Fault.IsDerError (isCa exts) := by
  unfold isCa
  split
  · exact FailsOnly.ok _
  · exact FailsOnly.ok _
  · exact failsOnly_basicConstraintsCa _

/-! ## Certificates -/

theorem failsOnly_derExpect (pos : ℕ) (hstop : stop ≤ buf.length) (tag : ℕ) (message : String) :
    FailsOnly Fault.IsDerError (derExpect buf pos stop tag message) :=
  (failsOnly_derTlv pos hstop).bind fun _ _ =>
    (failsOnly_check _ _).bind fun _ _ => FailsOnly.ok _

theorem derExpect_inside {tag : ℕ} {message : String} {element : Tlv}
    (hread : derExpect buf pos stop tag message = .ok element) : element.stop ≤ stop := by
  obtain ⟨found, hfound, hread⟩ := except_bind_ok.mp hread
  obtain ⟨_, _, hread⟩ := except_bind_ok.mp hread
  obtain rfl := Except.ok.inj hread
  exact (derTlv_advances hfound).2.2

theorem follows_derParty (pos : ℕ) (hstop : stop ≤ buf.length) (message : String) :
    FollowsIntended (derParty python buf pos stop message) (derParty intended buf pos stop message) := by
  refine (Follows.lift (failsOnly_derExpect pos hstop _ _)).bind fun party hparty => ?_
  refine (follows_derName _ ((derExpect_inside hparty).trans hstop)).bind fun name _ => ?_
  exact Follows.pure _

theorem follows_derValidity {validity : Tlv} (hinside : validity.stop ≤ buf.length) :
    FollowsIntended (derValidity python buf validity) (derValidity intended buf validity) := by
  refine follows_element _ hinside fun first _ _ => ?_
  refine follows_element _ hinside fun second _ _ => ?_
  refine (follows_derTime _ _).bind fun notBefore _ => ?_
  exact (follows_derTime _ _).bind fun notAfter _ => Follows.pure _

theorem follows_trailingElement {element : Tlv} (hinside : element.stop ≤ buf.length)
    (exts : Dict String Bytes) :
    FollowsIntended (trailingElement python buf element exts)
      (trailingElement intended buf element exts) := by
  unfold trailingElement
  split
  · exact follows_extensions _ hinside
  · exact Follows.pure _

theorem follows_parseCertificate (sha256 : Bytes → String) (der : Bytes) :
    FollowsIntended (parseCertificate python sha256 der) (parseCertificate intended sha256 der) := by
  refine (Follows.lift (failsOnly_tbsCertificate der)).bind fun tbs htbs => ?_
  have hstop := tbsCertificate_inside htbs
  refine (Follows.lift (failsOnly_afterVersion hstop)).bind fun pos _ => ?_
  refine (Follows.lift (failsOnly_derExpect _ hstop _ _)).bind fun serial _ => ?_
  refine (follows_derAlgorithmOid _ hstop).bind fun algorithm _ => ?_
  refine (follows_derParty _ hstop _).bind fun issuer _ => ?_
  refine (Follows.lift (failsOnly_derExpect _ hstop _ _)).bind fun validity hvalidity => ?_
  refine (follows_derValidity ((derExpect_inside hvalidity).trans hstop)).bind fun times _ => ?_
  refine (follows_derParty _ hstop _).bind fun subject _ => ?_
  refine (Follows.lift (failsOnly_derExpect _ hstop _ _)).bind fun spki hspki => ?_
  refine (follows_spkiKey _ ((derExpect_inside hspki).trans hstop)).bind fun key _ => ?_
  refine (follows_readElements hstop _ _ fun element exts helement => ?_).bind fun exts _ => ?_
  · exact follows_trailingElement (helement.trans hstop) exts
  · exact (Follows.lift (failsOnly_isCa exts)).bind fun ca _ => Follows.pure _

end Readers

/-- The object identifier `1.2` converts. -/
theorem converts_oneTwo : (Conversion.oid [1, 2]).Converts := by
  intro arc harc
  have hsmall : arc ≤ 2 := by
    simp only [List.mem_cons, List.not_mem_nil, or_false] at harc
    omega
  have hdigits : intMaxStrDigits < 10 ^ intMaxStrDigits := Nat.lt_pow_self (by decide)
  have htwo : 2 ≤ intMaxStrDigits := by decide
  exact hsmall.trans_lt (htwo.trans_lt hdigits)

end PqcReadiness.Certs
