import PqcReadiness.Lib.Text
import Mathlib.Data.List.Forall2
import Mathlib.Data.List.Dedup

/-!
# IKE proposals and the connections that require ML-KEM

`scan_ike_proposals` classifies every proposal of the IPsec configuration and counts
connections.  A proposal has one slot of methods for the primary key exchange and one for
each additional exchange; peers agree on one method of each slot.

`pqc_mandatory` is about one proposal: every negotiation of it includes ML-KEM
(`pqcMandatory_iff`).  A connection offers all its proposals to the peer, and it counts as
requiring PQC as soon as one of them is mandatory (`connectionsRequiringPqc_eq`).
-/

namespace PqcReadiness.Ike

open PqcReadiness.Lib

/-! ## Proposals -/

/-- `_is_pqc`. -/
def isPqc (method : String) : Bool := startsWith "ML-KEM-" method

/-- The report-wide buckets. -/
inductive Category where
  | classical
  | hybrid
  | purePqc
  deriving DecidableEq

/-- What `_classify` says of a proposal. -/
structure Classified where
  category : Option Category
  pqcMandatory : Bool
  note : Option String

/-- `(pqc or others)[0]`, where there is one. -/
def preferPqc (methods : List String) : Option String :=
  ((methods.filter isPqc).head?).or methods.head?

/-- `_classify`: the best combination that can be negotiated, and whether ML-KEM can be
avoided. -/
def classify (primary : List String) (additional : List (String × List String)) : Classified :=
  if primary = [] ∧ additional = [] then
    ⟨none, false, some "no key exchange named; the implementation default applies"⟩
  else
    let chosen := (preferPqc primary).toList ++
      additional.filterMap fun slot => preferPqc (slot.2.filter (· ≠ "none"))
    let hasPqc := chosen.any isPqc
    let hasClassical := chosen.any fun method => !isPqc method
    { category := some
        (if hasPqc && hasClassical then .hybrid else if hasPqc then .purePqc else .classical)
      pqcMandatory := additional.foldl
        (fun mandatory slot => if slot.2 ≠ [] ∧ slot.2.all isPqc then true else mandatory)
        (!primary.isEmpty && primary.all isPqc)
      note := none }

/-- IKE or child SA. -/
inductive Kind where
  | ike
  | child
  deriving DecidableEq

/-- One entry of `proposals`: the slots, and where the proposal was configured. -/
structure Proposal where
  proposal : String
  primary : List String
  additional : List (String × List String)
  connection : Option String
  child : Option String
  kind : Kind
  source : String

/-- The category of an entry. -/
def Proposal.category (p : Proposal) : Option Category := (classify p.primary p.additional).category

/-- `pqc_mandatory` of an entry. -/
def Proposal.pqcMandatory (p : Proposal) : Bool := (classify p.primary p.additional).pqcMandatory

/-! ## The scan -/

/-- `summary`. -/
structure Summary where
  ikeProposals : ℕ
  classical : ℕ
  hybrid : ℕ
  purePqc : ℕ
  unclassified : ℕ
  connections : ℕ
  connectionsOfferingPqc : ℕ
  connectionsRequiringPqc : ℕ

/-- What `scan_ike_proposals` returns, less the table of standards. -/
structure IkeScan where
  files : List String
  proposals : List Proposal
  summary : Summary

/-- The IKE proposals of all connections. -/
def ikeProposals (proposals : List Proposal) : List Proposal :=
  proposals.filter fun p => p.kind = .ike

/-- `p["connection"] and not p["connection"].startswith("%")`, where there is one. -/
def isNamed (name : String) : Bool := name ≠ "" && !startsWith "%" name

/-- The set of connections with an IKE proposal; `%default` is a template and not one. -/
def conns (proposals : List Proposal) : List String :=
  (((ikeProposals proposals).filterMap Proposal.connection).filter isNamed).dedup

/-- The connections among them with a proposal that can negotiate ML-KEM. -/
def pqcConns (proposals : List Proposal) : List String :=
  (conns proposals).filter fun name =>
    (ikeProposals proposals).any fun p =>
      p.connection = some name && (p.category = some .hybrid || p.category = some .purePqc)

/-- The connections that are counted as requiring PQC. -/
def requiringConns (proposals : List Proposal) : List String :=
  ((((ikeProposals proposals).filter Proposal.pqcMandatory).filterMap
    Proposal.connection).filter (· ∈ conns proposals)).dedup

/-- `scan_ike_proposals`, from the parsed files on. -/
def scanIkeProposals (files : List String) (proposals : List Proposal) : IkeScan :=
  let ike := ikeProposals proposals
  let counted (category : Option Category) := ike.countP fun p => p.category = category
  { files := files
    proposals := proposals
    summary :=
      { ikeProposals := ike.length
        classical := counted (some .classical)
        hybrid := counted (some .hybrid)
        purePqc := counted (some .purePqc)
        unclassified := counted none
        connections := (conns proposals).length
        connectionsOfferingPqc := (pqcConns proposals).length
        connectionsRequiringPqc := (requiringConns proposals).length } }

/-! ## Negotiations -/

/-- The slots of a proposal that name a method. -/
def Proposal.slots (p : Proposal) : List (List String) :=
  (p.primary :: p.additional.map Prod.snd).filter (· ≠ [])

/-- A negotiation of a proposal: one method of each slot. -/
def Negotiates (p : Proposal) (methods : List String) : Prop :=
  List.Forall₂ (fun method slot => method ∈ slot) methods p.slots

/-- Every acceptable negotiation of the proposal includes ML-KEM. -/
def RequiresMlKem (p : Proposal) : Prop :=
  ∀ methods, Negotiates p methods → ∃ method ∈ methods, isPqc method

theorem exists_classical_choice {slots : List (List String)}
    (hslots : ∀ slot ∈ slots, ∃ method ∈ slot, ¬ isPqc method) :
    ∃ methods, List.Forall₂ (fun method slot => method ∈ slot) methods slots ∧
      ∀ method ∈ methods, ¬ isPqc method := by
  induction slots with
  | nil => exact ⟨[], .nil, by simp⟩
  | cons slot rest ih =>
      obtain ⟨method, hmethod, hclassical⟩ := hslots slot List.mem_cons_self
      obtain ⟨methods, hchosen, hall⟩ := ih fun other hother =>
        hslots other (List.mem_cons_of_mem _ hother)
      refine ⟨method :: methods, .cons hmethod hchosen, ?_⟩
      rw [List.forall_mem_cons]
      exact ⟨hclassical, hall⟩

theorem mem_of_choice {slots : List (List String)} {methods : List String}
    (hchosen : List.Forall₂ (fun method slot => method ∈ slot) methods slots) {slot : List String}
    (hslot : slot ∈ slots) : ∃ method ∈ methods, method ∈ slot := by
  induction hchosen with
  | nil => cases hslot
  | cons hmethod _ ih =>
      rcases List.mem_cons.mp hslot with rfl | hslot
      · exact ⟨_, List.mem_cons_self, hmethod⟩
      · obtain ⟨method, hmem, hin⟩ := ih hslot
        exact ⟨method, List.mem_cons_of_mem _ hmem, hin⟩

/-- ML-KEM is required when one slot names nothing else. -/
theorem requiresMlKem_iff (p : Proposal) :
    RequiresMlKem p ↔ ∃ slot ∈ p.slots, ∀ method ∈ slot, isPqc method := by
  constructor
  · intro hrequires
    by_contra hnone
    push Not at hnone
    obtain ⟨methods, hchosen, hclassical⟩ := exists_classical_choice hnone
    obtain ⟨method, hmethod, hpqc⟩ := hrequires methods hchosen
    exact hclassical method hmethod hpqc
  · rintro ⟨slot, hslot, hpqc⟩ methods hchosen
    obtain ⟨method, hmethod, hin⟩ := mem_of_choice hchosen hslot
    exact ⟨method, hmethod, hpqc method hin⟩

theorem foldl_mandatory (additional : List (String × List String)) (start : Bool) :
    additional.foldl
        (fun mandatory slot => if slot.2 ≠ [] ∧ slot.2.all isPqc then true else mandatory) start =
      (start || additional.any fun slot => slot.2 ≠ [] ∧ slot.2.all isPqc) := by
  induction additional generalizing start with
  | nil => simp
  | cons slot rest ih =>
      rw [List.foldl_cons, ih, List.any_cons]
      by_cases hslot : slot.2 ≠ [] ∧ slot.2.all isPqc
      · simp only [if_pos hslot, decide_eq_true hslot, Bool.true_or, Bool.or_true]
      · simp only [if_neg hslot, decide_eq_false hslot, Bool.false_or]

/-- `pqc_mandatory` says that every negotiation of the proposal includes ML-KEM. -/
theorem pqcMandatory_iff (p : Proposal) : p.pqcMandatory ↔ RequiresMlKem p := by
  rw [requiresMlKem_iff, Proposal.pqcMandatory, classify]
  split
  case isTrue hempty => simp [Proposal.slots, hempty.1, hempty.2]
  case isFalse =>
    rw [foldl_mandatory]
    simp only [Proposal.slots, Bool.or_eq_true, Bool.and_eq_true, List.any_eq_true,
      List.mem_filter, List.mem_cons, List.mem_map, decide_eq_true_eq, List.all_eq_true]
    constructor
    · rintro (⟨hprimary, hpqc⟩ | ⟨slot, hslot, hne, hpqc⟩)
      · exact ⟨p.primary, ⟨Or.inl rfl, by simpa using hprimary⟩, hpqc⟩
      · exact ⟨slot.2, ⟨Or.inr ⟨slot, hslot, rfl⟩, hne⟩, hpqc⟩
    · rintro ⟨methods, ⟨rfl | ⟨slot, hslot, rfl⟩, hne⟩, hpqc⟩
      · exact Or.inl ⟨by simpa using hne, hpqc⟩
      · exact Or.inr ⟨slot, hslot, hne, hpqc⟩

/-! ## The connections that are counted -/

theorem mem_conns {proposals : List Proposal} {name : String} :
    name ∈ conns proposals ↔ name ≠ "" ∧ ¬ startsWith "%" name ∧
      ∃ p ∈ proposals, p.kind = .ike ∧ p.connection = some name := by
  simp only [conns, ikeProposals, List.mem_dedup, List.mem_filter, List.mem_filterMap, isNamed,
    decide_eq_true_eq, Bool.and_eq_true, Bool.not_eq_true', Bool.not_eq_true]
  constructor
  · rintro ⟨⟨p, ⟨hp, hkind⟩, hconnection⟩, hname, hpercent⟩
    exact ⟨hname, hpercent, p, hp, hkind, hconnection⟩
  · rintro ⟨hname, hpercent, p, hp, hkind, hconnection⟩
    exact ⟨⟨p, ⟨hp, hkind⟩, hconnection⟩, hname, hpercent⟩

theorem mem_requiringConns {proposals : List Proposal} {name : String} :
    name ∈ requiringConns proposals ↔ name ≠ "" ∧ ¬ startsWith "%" name ∧
      ∃ p ∈ proposals, p.kind = .ike ∧ p.connection = some name ∧ RequiresMlKem p := by
  simp only [requiringConns, ikeProposals, List.mem_dedup, List.mem_filter, List.mem_filterMap,
    decide_eq_true_eq, pqcMandatory_iff]
  constructor
  · rintro ⟨⟨p, ⟨⟨hp, hkind⟩, hrequires⟩, hconnection⟩, hmem⟩
    obtain ⟨hname, hpercent, -⟩ := mem_conns.mp hmem
    exact ⟨hname, hpercent, p, hp, hkind, hconnection, hrequires⟩
  · rintro ⟨hname, hpercent, p, hp, hkind, hconnection, hrequires⟩
    have hmem : name ∈ conns proposals :=
      mem_conns.mpr ⟨hname, hpercent, p, hp, hkind, hconnection⟩
    exact ⟨⟨p, ⟨⟨hp, hkind⟩, hrequires⟩, hconnection⟩, hmem⟩

/-- A named connection all of whose IKE proposals require ML-KEM. -/
def AlwaysRequires (proposals : List Proposal) (name : String) : Prop :=
  name ∈ conns proposals ∧
    ∀ p ∈ proposals, p.kind = .ike → p.connection = some name → RequiresMlKem p

/-- **The connections counted as requiring PQC are the named ones with an IKE proposal
that cannot be negotiated without ML-KEM; whatever else they propose, they count.** -/
theorem connectionsRequiringPqc_eq (files : List String) (proposals : List Proposal) :
    ∃ counted : List String, counted.Nodup ∧
      (scanIkeProposals files proposals).summary.connectionsRequiringPqc = counted.length ∧
      (∀ name, name ∈ counted ↔ name ≠ "" ∧ ¬ startsWith "%" name ∧
        ∃ p ∈ proposals, p.kind = .ike ∧ p.connection = some name ∧ RequiresMlKem p) ∧
      ∀ name, AlwaysRequires proposals name → name ∈ counted := by
  refine ⟨requiringConns proposals, List.nodup_dedup _, rfl, ?_, ?_⟩
  · intro name
    exact mem_requiringConns
  · rintro name ⟨hname, hall⟩
    obtain ⟨hne, hpercent, p, hp, hkind, hconnection⟩ := mem_conns.mp hname
    exact mem_requiringConns.mpr
      ⟨hne, hpercent, p, hp, hkind, hconnection, hall p hp hkind hconnection⟩

/-- A gateway that proposes a hybrid key exchange, and a classical one to fall back to. -/
def fallbackGateway : List Proposal :=
  [⟨"aes256-sha256-ecp384-ke1_mlkem768", ["ECP-384"], [("1", ["ML-KEM-768"])], some "gw", none,
      .ike, "/etc/swanctl/swanctl.conf"⟩,
    ⟨"aes256-sha256-ecp384", ["ECP-384"], [], some "gw", none, .ike, "/etc/swanctl/swanctl.conf"⟩]

theorem fallbackGateway_counted :
    (scanIkeProposals ["/etc/swanctl/swanctl.conf"]
        fallbackGateway).summary.connectionsRequiringPqc = 1 ∧
      "gw" ∈ requiringConns fallbackGateway ∧ ¬ AlwaysRequires fallbackGateway "gw" ∧
      ∀ name, ¬ AlwaysRequires fallbackGateway name := by
  have hnone : ∀ name, ¬ AlwaysRequires fallbackGateway name := by
    rintro name ⟨hname, hall⟩
    have hclassical : ¬ RequiresMlKem fallbackGateway[1] := by
      rw [← pqcMandatory_iff]
      decide +kernel
    obtain ⟨-, -, p, hp, -, hconnection⟩ := mem_conns.mp hname
    have hgw : p.connection = some "gw" := by
      rcases List.mem_cons.mp hp with rfl | hp
      · rfl
      · rw [List.mem_singleton.mp hp]
    exact hclassical (hall _ (List.getElem_mem _) rfl (hgw.symm.trans hconnection))
  exact ⟨by decide +kernel, by decide +kernel, hnone "gw", hnone⟩

end PqcReadiness.Ike
