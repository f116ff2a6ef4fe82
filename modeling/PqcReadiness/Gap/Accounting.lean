import Mathlib
import PqcReadiness.Gap.Clients

/-!
# Every listener is accounted for

The loop of `_services` is a grouping loop: `serviceLoop_items` identifies its
dictionary with `Dict.collect`, where a listener is filed under the key
`filedUnder` and absorbed by `absorbListener`.  From there on the library says
what the dictionary holds: the item under a key is made of exactly the
listeners filed under that key, in order (`get?_serviceLoop`).

Three things follow for the finished verdict.

* Item by item, `members` recovers the listeners of an item from the input, and
  one item names a given judged listener (`countP_named`).
* Summed up, the items' listeners and the two counters add up to the number of
  sockets (`sum_listeners_serviceLoop`).
* The counts per state and the list of gaps are read off the items.
-/

namespace PqcReadiness.Gap

open Lib

/-! ## Report paths -/

theorem listenerPath_injective : Function.Injective listenerPath := by
  intro i j hpath
  have hbody := (String.append_left_inj _).mp hpath
  exact Nat.repr_injective ((String.append_right_inj _).mp hbody)

theorem groupPath_injective : Function.Injective groupPath := by
  intro i j hpath
  have hbody := (String.append_left_inj _).mp hpath
  exact Nat.repr_injective ((String.append_right_inj _).mp hbody)

/-! ## The three fates of a listener -/

/-- A socket without a process. -/
def Unattributed (listener : Listener) : Prop := orEmpty listener.process = ""

/-- A process that maps no crypto library. -/
def WithoutCrypto (listener : Listener) : Prop :=
  orEmpty listener.process ≠ "" ∧ (listenerCapability listener).cryptoFamilies = []

/-- A listener that gets a verdict. -/
def Judged (listener : Listener) : Prop :=
  orEmpty listener.process ≠ "" ∧ (listenerCapability listener).cryptoFamilies ≠ []

instance : DecidablePred Unattributed := fun _ => inferInstanceAs (Decidable (_ = _))

instance : DecidablePred WithoutCrypto := fun _ => inferInstanceAs (Decidable (_ ∧ _))

instance : DecidablePred Judged := fun _ => inferInstanceAs (Decidable (_ ∧ _))

theorem fates (listener : Listener) :
    (if Unattributed listener then 1 else 0) + (if WithoutCrypto listener then 1 else 0) +
      (if Judged listener then 1 else 0) = 1 := by
  by_cases hprocess : orEmpty listener.process = "" <;>
    by_cases hfamilies : (listenerCapability listener).cryptoFamilies = [] <;>
    simp [Unattributed, WithoutCrypto, Judged, hprocess, hfamilies]

/-! ## The judgement does not depend on the position -/

/-- The two judgements of a TLS listener, and whether the second is the
service's own. -/
structure TlsJudgement where
  capable : Option Bool
  configured : Option Bool
  own : Bool

/-- What `judge` decides about a listener that speaks TLS: a Go default first,
then the service's own settings, then the host's default. -/
def tlsJudgement (report : Report) (listener : Listener) : TlsJudgement :=
  let capable := (listenerCapability listener).libraryPqcCapable
  if (listenerCapability listener).goDefaultHybrid then ⟨capable, some true, true⟩
  else
    match (endpointForListener report.serviceTlsConfig listener).map Prod.snd with
    | none => ⟨capable, (tlsConfigured report).1, false⟩
    | some ep =>
        match ep.pqcKeyExchange with
        | none => ⟨capable, (tlsConfigured report).1, false⟩
        | some configured =>
            ⟨if ep.serviceSupportsPqcGroups = some false then some false else capable,
              some configured, true⟩

/-- The state of a listener. -/
def listenerState (report : Report) (protocols : Protocols) (listener : Listener) : State :=
  match serviceKind listener with
  | .ssh => protocols.ssh.state
  | .tls => classify (tlsJudgement report listener).capable (tlsJudgement report listener).configured

/-- Does the service decide its own configuration? -/
def decidesItself (report : Report) (listener : Listener) : Bool :=
  match serviceKind listener with
  | .ssh => false
  | .tls => (tlsJudgement report listener).own

/-- Does a listener reach the host's state through the host's default? -/
def followsHost (report : Report) (protocols : Protocols) (listener : Listener) : Bool :=
  !decidesItself report listener &&
    listenerState report protocols listener = (protocols.ofKind (serviceKind listener)).state

variable (report : Report) (protocols : Protocols)

theorem judge_spec (i : ℕ) (listener : Listener) :
    (judge report protocols i listener).kind = serviceKind listener ∧
      (judge report protocols i listener).verdict.state =
        listenerState report protocols listener ∧
      (judge report protocols i listener).ownDefault = decidesItself report listener := by
  unfold judge listenerState decidesItself
  cases serviceKind listener with
  | ssh => exact ⟨rfl, rfl, rfl⟩
  | tls =>
      unfold tlsJudgement
      by_cases hgo : (listenerCapability listener).goDefaultHybrid
      · simp [hgo, verdict]
      · cases endpointForListener report.serviceTlsConfig listener with
        | none => simp [hgo, verdict]
        | some found =>
            cases hpqc : found.2.pqcKeyExchange with
            | none => simp [hgo, hpqc, verdict]
            | some configured =>
                by_cases hgroups : found.2.serviceSupportsPqcGroups = some false <;>
                  simp [hgo, hpqc, hgroups, verdict]

/-- The key a listener is filed under. -/
def listenerKey (listener : Listener) : ServiceKey :=
  ⟨listener.process, listener.protocol, listener.port, listenerState report protocols listener⟩

theorem serviceKey_judge (i : ℕ) (listener : Listener) :
    serviceKey listener (judge report protocols i listener) =
      listenerKey report protocols listener := by
  rw [serviceKey, (judge_spec report protocols i listener).2.1, listenerKey]

/-! ## The loop is a grouping loop -/

/-- The key of a listener that gets a verdict. -/
def filedUnder (entry : Listener × ℕ) : Option ServiceKey :=
  if Judged entry.1 then some (listenerKey report protocols entry.1) else none

/-- What a listener makes of the item it is filed under. -/
def absorbListener (old : Option ServiceItem) (entry : Listener × ℕ) : ServiceItem :=
  match old with
  | some item => item.addListener entry.2 entry.1
  | none => newItem protocols entry.2 entry.1 (judge report protocols entry.2 entry.1)

theorem serviceStep_items (state : ServicesState) (entry : Listener × ℕ) :
    (serviceStep report protocols state entry).items =
      state.items.absorbInto (filedUnder report protocols) (absorbListener report protocols)
        entry := by
  obtain ⟨listener, i⟩ := entry
  unfold serviceStep Dict.absorbInto filedUnder Judged
  by_cases hprocess : orEmpty listener.process = ""
  · simp [hprocess]
  · by_cases hfamilies : (listenerCapability listener).cryptoFamilies = []
    · simp [hprocess, hfamilies]
    · -- The source files the listener under its verdict's state, which is `listenerState`.
      simp only [hprocess, hfamilies, if_false, ne_eq, not_false_eq_true, and_self, if_true,
        serviceKey_judge]
      rfl

theorem serviceLoop_items (state : ServicesState) (entries : List (Listener × ℕ)) :
    (serviceLoop report protocols state entries).items =
      state.items.collect (filedUnder report protocols) (absorbListener report protocols)
        entries := by
  induction entries generalizing state with
  | nil => rfl
  | cons entry rest ih =>
      rw [serviceLoop, List.foldl_cons]
      refine (ih _).trans ?_
      rw [serviceStep_items]
      rfl

theorem serviceLoop_unattributed (state : ServicesState) (entries : List (Listener × ℕ)) :
    (serviceLoop report protocols state entries).unattributed =
      state.unattributed + entries.countP fun entry => Unattributed entry.1 := by
  induction entries generalizing state with
  | nil => rfl
  | cons entry rest ih =>
      rw [serviceLoop, List.foldl_cons]
      refine (ih _).trans ?_
      obtain ⟨listener, i⟩ := entry
      by_cases hprocess : orEmpty listener.process = ""
      · simp only [serviceStep, Unattributed, hprocess, if_true, List.countP_cons, decide_true]
        omega
      · by_cases hfamilies : (listenerCapability listener).cryptoFamilies = [] <;>
          simp [serviceStep, Unattributed, hprocess, hfamilies]

theorem serviceLoop_noCrypto (state : ServicesState) (entries : List (Listener × ℕ)) :
    (serviceLoop report protocols state entries).noCrypto =
      state.noCrypto + entries.countP fun entry => WithoutCrypto entry.1 := by
  induction entries generalizing state with
  | nil => rfl
  | cons entry rest ih =>
      rw [serviceLoop, List.foldl_cons]
      refine (ih _).trans ?_
      obtain ⟨listener, i⟩ := entry
      by_cases hprocess : orEmpty listener.process = ""
      · simp [serviceStep, WithoutCrypto, hprocess]
      · by_cases hfamilies : (listenerCapability listener).cryptoFamilies = []
        · simp only [serviceStep, WithoutCrypto, hprocess, hfamilies, if_false, if_true,
            List.countP_cons, decide_true, ne_eq, not_false_eq_true, and_self]
          omega
        · simp [serviceStep, WithoutCrypto, hprocess, hfamilies]

/-- The entries filed under a key, in order. -/
def members (entries : List (Listener × ℕ)) (key : ServiceKey) : List (Listener × ℕ) :=
  entries.filter fun entry => filedUnder report protocols entry = some key

theorem get?_serviceLoop (entries : List (Listener × ℕ)) (key : ServiceKey) :
    (serviceLoop report protocols {} entries).items.get? key =
      Dict.absorbAll (absorbListener report protocols) none
        (members report protocols entries key) := by
  rw [serviceLoop_items]
  exact Dict.get?_collect _ _ _ _ _

/-! ## What an item holds -/

variable {report protocols}

/-- Absorbing further listeners only extends the list of names. -/
theorem absorbAll_some (report : Report) (protocols : Protocols) (item : ServiceItem)
    (entries : List (Listener × ℕ)) :
    ∃ final, Dict.absorbAll (absorbListener report protocols) (some item) entries = some final ∧
      final.listeners = item.listeners ++ entries.map (listenerPath ·.2) ∧
      final.process = item.process ∧ final.protocol = item.protocol ∧ final.port = item.port ∧
      final.verdict = item.verdict ∧ final.followsHostDefault = item.followsHostDefault := by
  induction entries generalizing item with
  | nil => exact ⟨item, rfl, by simp, rfl, rfl, rfl, rfl, rfl⟩
  | cons entry rest ih =>
      obtain ⟨final, hfinal, hlisteners, hprocess, hprotocol, hport, hverdict, hfollows⟩ :=
        ih (absorbListener report protocols (some item) entry)
      refine ⟨final, hfinal, ?_, hprocess, hprotocol, hport, hverdict, hfollows⟩
      rw [hlisteners]
      simp [absorbListener, ServiceItem.addListener]

theorem newItem_followsHostDefault (i : ℕ) (listener : Listener) :
    (newItem protocols i listener (judge report protocols i listener)).followsHostDefault =
      followsHost report protocols listener := by
  obtain ⟨hkind, hstate, hown⟩ := judge_spec report protocols i listener
  simp only [newItem, followsHost, hkind, hstate, hown]

/-- The item that opens with `first` and goes on with `rest`. -/
structure ItemOf (report : Report) (protocols : Protocols) (first : Listener × ℕ)
    (rest : List (Listener × ℕ)) (item : ServiceItem) : Prop where
  listeners : item.listeners = (first :: rest).map (listenerPath ·.2)
  process : item.process = first.1.process
  protocol : item.protocol = first.1.protocol
  port : item.port = first.1.port
  state : item.state = listenerState report protocols first.1
  follows : item.followsHostDefault = followsHost report protocols first.1

theorem exists_itemOf (report : Report) (protocols : Protocols) (first : Listener × ℕ)
    (rest : List (Listener × ℕ)) :
    ∃ item, Dict.absorbAll (absorbListener report protocols) none (first :: rest) = some item ∧
      ItemOf report protocols first rest item := by
  obtain ⟨item, hitem, hlisteners, hprocess, hprotocol, hport, hverdict, hfollows⟩ :=
    absorbAll_some report protocols (absorbListener report protocols none first) rest
  refine ⟨item, hitem, ⟨?_, hprocess, hprotocol, hport, ?_, ?_⟩⟩
  · rw [hlisteners]
    simp [absorbListener, newItem]
  · rw [ServiceItem.state, hverdict]
    exact (judge_spec report protocols first.2 first.1).2.1
  · rw [hfollows]
    exact newItem_followsHostDefault first.2 first.1

/-- The item under a key is made of the listeners filed under it. -/
theorem itemOf_of_get? {entries : List (Listener × ℕ)} {key : ServiceKey} {item : ServiceItem}
    (hget : (serviceLoop report protocols {} entries).items.get? key = some item) :
    ∃ first rest, members report protocols entries key = first :: rest ∧
      ItemOf report protocols first rest item := by
  rw [get?_serviceLoop] at hget
  cases hmembers : members report protocols entries key with
  | nil => rw [hmembers] at hget; simp [Dict.absorbAll] at hget
  | cons first rest =>
      obtain ⟨found, hfound, hitem⟩ := exists_itemOf report protocols first rest
      rw [hmembers, hfound] at hget
      exact ⟨first, rest, rfl, Option.some.inj hget ▸ hitem⟩

theorem mem_members {entries : List (Listener × ℕ)} {key : ServiceKey} {entry : Listener × ℕ} :
    entry ∈ members report protocols entries key ↔
      entry ∈ entries ∧ Judged entry.1 ∧ listenerKey report protocols entry.1 = key := by
  simp only [members, filedUnder, List.mem_filter]
  by_cases hjudged : Judged entry.1 <;> simp [hjudged]

/-! ## Every judged listener is named once -/

section Named

variable {entries : List (Listener × ℕ)} (hpositions : (entries.map Prod.snd).Nodup)

include hpositions

private theorem listener_unique {first second : Listener} {i : ℕ} (hfirst : (first, i) ∈ entries)
    (hsecond : (second, i) ∈ entries) : first = second :=
  congrArg Prod.fst (List.inj_on_of_nodup_map hpositions hfirst hsecond rfl)

/-- An item names the listeners filed under its key and no others. -/
theorem named_iff {key : ServiceKey} {item : ServiceItem}
    (hget : (serviceLoop report protocols {} entries).items.get? key = some item)
    {listener : Listener} {i : ℕ} (hentry : (listener, i) ∈ entries) :
    listenerPath i ∈ item.listeners ↔
      Judged listener ∧ listenerKey report protocols listener = key := by
  obtain ⟨first, rest, hmembers, hitem⟩ := itemOf_of_get? hget
  rw [hitem.listeners, ← hmembers, List.mem_map]
  constructor
  · rintro ⟨⟨other, j⟩, hother, hpath⟩
    obtain rfl := listenerPath_injective hpath
    obtain ⟨hmem, hjudged, hkey⟩ := mem_members.mp hother
    obtain rfl := listener_unique hpositions hmem hentry
    exact ⟨hjudged, hkey⟩
  · rintro ⟨hjudged, hkey⟩
    exact ⟨(listener, i), mem_members.mpr ⟨hentry, hjudged, hkey⟩, rfl⟩

theorem nodup_listeners {key : ServiceKey} {item : ServiceItem}
    (hget : (serviceLoop report protocols {} entries).items.get? key = some item) :
    item.listeners.Nodup := by
  obtain ⟨first, rest, hmembers, hitem⟩ := itemOf_of_get? hget
  have hsub : ((first :: rest).map Prod.snd).Nodup := by
    rw [← hmembers]
    exact hpositions.sublist (List.filter_sublist.map Prod.snd)
  have hnames := hsub.map listenerPath_injective
  rw [List.map_map] at hnames
  rw [hitem.listeners]
  exact hnames

/-- Of the items of the loop, one names a judged listener and none a skipped
one. -/
theorem countP_named {listener : Listener} {i : ℕ} (hentry : (listener, i) ∈ entries) :
    (serviceLoop report protocols {} entries).items.values.countP
        (fun item => listenerPath i ∈ item.listeners) =
      if Judged listener then 1 else 0 := by
  by_cases hjudged : Judged listener
  · -- Only the item under the listener's own key can name it.
    rw [Dict.countP_values _ (listenerKey report protocols listener), if_pos hjudged, if_pos]
    · rw [get?_serviceLoop, Dict.isSome_absorbAll]
      exact Or.inr (List.ne_nil_of_mem (mem_members.mpr ⟨hentry, hjudged, rfl⟩))
    · intro key item hget
      simp only [decide_eq_true_eq, named_iff hpositions hget hentry, hjudged, true_and]
      exact eq_comm
  · rw [if_neg hjudged, List.countP_eq_zero]
    intro item hitem
    obtain ⟨key, hget⟩ := (Dict.mem_values_iff _).mp hitem
    simp [named_iff hpositions hget hentry, hjudged]

end Named

theorem state_of_get? {entries : List (Listener × ℕ)} {key : ServiceKey} {item : ServiceItem}
    (hget : (serviceLoop report protocols {} entries).items.get? key = some item) :
    item.state = key.state := by
  obtain ⟨first, rest, hmembers, hitem⟩ := itemOf_of_get? hget
  have hfirst : first ∈ members report protocols entries key := by
    rw [hmembers]
    exact List.mem_cons_self ..
  rw [hitem.state, ← (mem_members.mp hfirst).2.2, listenerKey]

private theorem countP_fates (entries : List (Listener × ℕ)) :
    (entries.countP fun entry => Judged entry.1) +
        (entries.countP fun entry => WithoutCrypto entry.1) +
        (entries.countP fun entry => Unattributed entry.1) = entries.length := by
  induction entries with
  | nil => rfl
  | cons entry rest ih =>
      have hentry := fates entry.1
      simp only [List.countP_cons, decide_eq_true_eq, List.length_cons]
      omega

/-- Items, skipped listeners and unattributed listeners add up. -/
theorem sum_listeners_serviceLoop (report : Report) (protocols : Protocols)
    (entries : List (Listener × ℕ)) :
    ((serviceLoop report protocols {} entries).items.values.map (·.listeners.length)).sum +
        (serviceLoop report protocols {} entries).noCrypto +
        (serviceLoop report protocols {} entries).unattributed = entries.length := by
  have hitems : ((serviceLoop report protocols {} entries).items.values.map
      (·.listeners.length)).sum = entries.countP fun entry => Judged entry.1 := by
    rw [serviceLoop_items, Dict.sum_size_collect]
    · simp only [filedUnder, Dict.values, Dict.entries_empty, List.map_nil, List.sum_nil, zero_add]
      apply List.countP_congr
      intro entry _
      by_cases hjudged : Judged entry.1 <;> simp [hjudged]
    · intro old entry
      cases old <;> simp [absorbListener, newItem, ServiceItem.addListener]
  rw [hitems, serviceLoop_noCrypto, serviceLoop_unattributed]
  simp only [Nat.zero_add]
  exact countP_fates entries

/-! ## The finished verdict -/

theorem services_eq_some {services : Services}
    (hservices : (computeGap report).services = some services) :
    services = summarise (serviceLoop report (Gap.protocols report) {}
      report.serviceCryptoLinkage.listeners.zipIdx) := by
  simp only [computeGap, Gap.services] at hservices
  split at hservices
  · exact (Option.some.inj hservices).symm
  · exact absurd hservices (by simp)

theorem nodup_positions (listeners : List Listener) :
    (listeners.zipIdx.map Prod.snd).Nodup := by
  rw [List.zipIdx_map_snd]
  exact List.nodup_range'

theorem mem_zipIdx_getElem (listeners : List Listener) {i : ℕ} (hi : i < listeners.length) :
    (listeners[i], i) ∈ listeners.zipIdx := by
  rw [List.mem_zipIdx_iff_getElem?]
  exact List.getElem?_eq_getElem hi

private theorem countP_zipIdx (listeners : List Listener) (p : Listener → Bool) :
    (listeners.zipIdx.countP fun entry => p entry.1) = listeners.countP p := by
  conv_rhs => rw [← List.zipIdx_map_fst 0 listeners]
  rw [List.countP_map]
  rfl

theorem listenersUnattributed_eq {services : Services}
    (hservices : (computeGap report).services = some services) :
    services.listenersUnattributed =
      report.serviceCryptoLinkage.listeners.countP fun listener => Unattributed listener := by
  rw [services_eq_some hservices]
  simp only [summarise, serviceLoop_unattributed, Nat.zero_add]
  exact countP_zipIdx _ fun listener => Unattributed listener

theorem listenersWithoutCryptoLibrary_eq {services : Services}
    (hservices : (computeGap report).services = some services) :
    services.listenersWithoutCryptoLibrary =
      report.serviceCryptoLinkage.listeners.countP fun listener => WithoutCrypto listener := by
  rw [services_eq_some hservices]
  simp only [summarise, serviceLoop_noCrypto, Nat.zero_add]
  exact countP_zipIdx _ fun listener => WithoutCrypto listener

/-- An item of the finished verdict is an item of the loop. -/
theorem get?_of_mem_items {state : ServicesState} {item : ServiceItem}
    (hitem : item ∈ (summarise state).items) : ∃ key, state.items.get? key = some item :=
  (Dict.mem_values_iff _).mp (mem_sortedBy.mp hitem)

/-- An item that names a listener has that listener's state. -/
theorem state_of_named {services : Services}
    (hservices : (computeGap report).services = some services) {item : ServiceItem}
    (hitem : item ∈ services.items) {i : ℕ}
    (hi : i < report.serviceCryptoLinkage.listeners.length)
    (hnamed : listenerPath i ∈ item.listeners) :
    item.state = listenerState report (Gap.protocols report)
      report.serviceCryptoLinkage.listeners[i] := by
  rw [services_eq_some hservices] at hitem
  obtain ⟨key, hget⟩ := get?_of_mem_items hitem
  have hentry := mem_zipIdx_getElem report.serviceCryptoLinkage.listeners hi
  obtain ⟨-, hkey⟩ := (named_iff (nodup_positions _) hget hentry).mp hnamed
  rw [state_of_get? hget, ← hkey, listenerKey]

/-- A judged listener is named by an item of its state. -/
theorem exists_named {services : Services}
    (hservices : (computeGap report).services = some services) {i : ℕ}
    (hi : i < report.serviceCryptoLinkage.listeners.length)
    (hjudged : Judged report.serviceCryptoLinkage.listeners[i]) :
    ∃ item ∈ services.items, listenerPath i ∈ item.listeners := by
  have hcount := @countP_named report (Gap.protocols report) _ (nodup_positions _) _ _
    (mem_zipIdx_getElem report.serviceCryptoLinkage.listeners hi)
  rw [if_pos hjudged] at hcount
  obtain ⟨item, hitem, hnamed⟩ := List.countP_pos_iff.mp (hcount.symm ▸ Nat.one_pos)
  rw [services_eq_some hservices]
  exact ⟨item, mem_sortedBy.mpr hitem, by simpa using hnamed⟩

/-! ## The list of gaps -/

theorem startsWith_append (first rest : String) : startsWith first (first ++ rest) = true := by
  rw [startsWith, String.toList_append]
  exact List.isPrefixOf_iff_prefix.mpr (List.prefix_append _ _)

private theorem not_service_client (rest : String) :
    startsWith "service:" ("client:" ++ rest) = false := by
  rw [startsWith, String.toList_append]
  rfl

private theorem not_service_protocol (v : Verdict) :
    ∀ gap ∈ protocolGap "tls" v ++ protocolGap "ssh" v ++ protocolGap "ipsec" v,
      startsWith "service:" gap = false := by
  intro gap hgap
  simp only [protocolGap, List.mem_append] at hgap
  cases hstate : v.state <;> simp [hstate, State.isGap] at hgap
  all_goals rcases hgap with (rfl | rfl) | rfl <;> decide

theorem filter_gaps (report : Report) :
    (computeGap report).gaps.filter (startsWith "service:") =
      ((serviceItems (computeGap report).services).filter ServiceItem.isGap).map serviceGap := by
  have hprotocols : ∀ name v, (name = "tls" ∨ name = "ssh" ∨ name = "ipsec") →
      (protocolGap name v).filter (startsWith "service:") = [] := by
    intro name v hname
    apply List.filter_eq_nil_iff.mpr
    intro gap hgap
    rw [not_service_protocol v gap ?_]
    · simp
    · rcases hname with rfl | rfl | rfl <;> simp [hgap]
  have hclients : (((clientItems (computeGap report).clients).filter ClientItem.isGap).map
      clientGap).filter (startsWith "service:") = [] := by
    apply List.filter_eq_nil_iff.mpr
    intro gap hgap
    obtain ⟨item, -, rfl⟩ := List.mem_map.mp hgap
    rw [clientGap, String.append_assoc, String.append_assoc, not_service_client]
    simp
  have hservices : (((serviceItems (computeGap report).services).filter ServiceItem.isGap).map
      serviceGap).filter (startsWith "service:") =
      ((serviceItems (computeGap report).services).filter ServiceItem.isGap).map serviceGap := by
    apply List.filter_eq_self.mpr
    intro gap hgap
    obtain ⟨item, -, rfl⟩ := List.mem_map.mp hgap
    simp only [serviceGap, String.append_assoc]
    exact startsWith_append _ _
  -- The list of gaps in its five parts: protocols, services, clients.
  change List.filter _ (_ ++ _ ++ _ ++ _ ++ _) = _
  rw [List.filter_append, List.filter_append, List.filter_append, List.filter_append,
    hprotocols "tls" _ (by simp), hprotocols "ssh" _ (by simp), hprotocols "ipsec" _ (by simp)]
  exact (congrArg₂ _ hservices hclients).trans (List.append_nil _)

/-! ## Conservation -/

/-- Nothing is lost or counted twice between the sockets of a report and its
verdict. -/
structure Conserved (report : Report) (services : Services) (gaps : List String) : Prop where
  /-- Every listener is skipped for one reason or named by exactly one item. -/
  once : ∀ (i : ℕ) (hi : i < report.serviceCryptoLinkage.listeners.length),
    (if Unattributed report.serviceCryptoLinkage.listeners[i] then 1 else 0) +
      (if WithoutCrypto report.serviceCryptoLinkage.listeners[i] then 1 else 0) +
      (services.items.countP fun item => listenerPath i ∈ item.listeners) = 1
  /-- Items name listeners of the report, each once. -/
  names : ∀ item ∈ services.items, item.listeners.Nodup ∧
    ∀ name ∈ item.listeners, ∃ i < report.serviceCryptoLinkage.listeners.length,
      name = listenerPath i
  unattributed : services.listenersUnattributed =
    report.serviceCryptoLinkage.listeners.countP fun listener => Unattributed listener
  withoutCrypto : services.listenersWithoutCryptoLibrary =
    report.serviceCryptoLinkage.listeners.countP fun listener => WithoutCrypto listener
  total : (services.items.map (·.listeners.length)).sum +
    services.listenersWithoutCryptoLibrary + services.listenersUnattributed =
      report.serviceCryptoLinkage.listeners.length
  byState_sum : (services.byState.map Prod.snd).sum = services.items.length
  byState_count : ∀ name n, (name, n) ∈ services.byState ↔
    0 < n ∧ n = services.items.countP fun item => item.state.name = name
  /-- The service gaps are the differing items in a gap state, in item order. -/
  gaps_eq : gaps.filter (startsWith "service:") =
    (services.items.filter fun item => !item.followsHostDefault &&
      (item.state = .capableNotConfigured || item.state = .configuredNotCapable)).map serviceGap

/-- **Conservation.**  Every report with a service scan is accounted for by its
verdict. -/
theorem computeGap_conserved (report : Report) {services : Services}
    (hservices : (computeGap report).services = some services) :
    Conserved report services (computeGap report).gaps := by
  have heq := services_eq_some hservices
  have hperm : services.items.Perm (serviceLoop report (Gap.protocols report) {}
      report.serviceCryptoLinkage.listeners.zipIdx).items.values := by
    rw [heq]
    exact sortedBy_perm _ _
  constructor
  · intro i hi
    rw [hperm.countP_eq, countP_named (nodup_positions _) (mem_zipIdx_getElem _ hi)]
    exact fates _
  · intro item hitem
    rw [heq] at hitem
    obtain ⟨key, hget⟩ := get?_of_mem_items hitem
    refine ⟨nodup_listeners (nodup_positions _) hget, ?_⟩
    intro name hname
    obtain ⟨first, rest, hmembers, hof⟩ := itemOf_of_get? hget
    rw [hof.listeners, ← hmembers] at hname
    obtain ⟨⟨listener, i⟩, hentry, rfl⟩ := List.mem_map.mp hname
    have hmem := List.mem_zipIdx_iff_getElem?.mp (mem_members.mp hentry).1
    exact ⟨i, (List.getElem?_eq_some_iff.mp hmem).1, rfl⟩
  · exact listenersUnattributed_eq hservices
  · exact listenersWithoutCryptoLibrary_eq hservices
  · have hsum := sum_listeners_serviceLoop report (Gap.protocols report)
      report.serviceCryptoLinkage.listeners.zipIdx
    rw [List.length_zipIdx] at hsum
    rw [(hperm.map _).sum_eq, heq]
    exact hsum
  · rw [heq]
    simp [summarise, Dict.sum_sortedItems_tally, Function.comp_def]
  · intro name n
    rw [heq]
    have hones := Dict.mem_sortedItems_tally_ones
      ((summarise (serviceLoop report (Gap.protocols report) {}
        report.serviceCryptoLinkage.listeners.zipIdx)).items.map (·.state.name)) name n
    rw [List.map_map, List.count, List.countP_map] at hones
    exact hones
  · rw [filter_gaps, hservices]
    rfl

/-- A web server on IPv4 and IPv6 with a capable library, a process without
crypto and a socket without a process, on a host whose policy keeps TLS
classical. -/
def sampleReport : Report :=
  { openssl := { available := true, pqcNative := .bool true }
    cryptoPolicy := { tlsKeyExchange := .bool false }
    serviceCryptoLinkage :=
      { available := true
        listeners :=
          [{ process := some "httpd", protocol := some .tcp, port := some 443,
             cryptoLibraries := [{ family := some "openssl", libraryPqcCapable := some true }] },
           { process := some "rpcbind", protocol := some .udp, port := some 111 },
           { process := some "httpd", protocol := some .tcp, port := some 443,
             cryptoLibraries := [{ family := some "openssl", libraryPqcCapable := some true }] },
           { protocol := some .tcp, port := some 25 }] } }

theorem computeGap_conserved_sampleReport :
    ∃ services, (computeGap sampleReport).services = some services ∧
      services.items.length = 1 ∧ Conserved sampleReport services (computeGap sampleReport).gaps :=
  ⟨_, rfl, by decide +kernel, computeGap_conserved sampleReport rfl⟩

end PqcReadiness.Gap
