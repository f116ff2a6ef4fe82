import Mathlib
import PqcReadiness.Gap.Accounting

/-!
# The verdict and the order of the sockets

The first listener of a key opens its item and decides whether the item
follows the host default; later listeners of the same key only add their name.
So the verdict is independent of the order in which the scanner enumerated the
sockets exactly when listeners of one key never disagree about that flag
(`KeysAgree`).

The argument is about the `summary` of an item: the four members of its key and
the flag.  An item is told apart by its key, so the summaries of a verdict have
no duplicates, and `mem_summaries` describes the set of them for a report whose
keys agree without any reference to the order.  Everything that is to be the
same in every order is a function of that set.  Conversely, moving a listener
to the front makes it decide the flag of its item (`summary_of_head`).
-/

namespace PqcReadiness.Gap

open Lib

/-! ## Summaries -/

/-- What tells items apart, and whether they follow the host default. -/
def ServiceItem.summary (item : ServiceItem) : ServiceKey × Bool :=
  (⟨item.process, item.protocol, item.port, item.state⟩, item.followsHostDefault)

/-- The summaries of a verdict. -/
def summaries (gap : DeploymentGap) : List (ServiceKey × Bool) :=
  (serviceItems gap.services).map ServiceItem.summary

variable {report : Report} {protocols : Protocols}

theorem summary_of_get? {entries : List (Listener × ℕ)} {key : ServiceKey} {item : ServiceItem}
    (hget : (serviceLoop report protocols {} entries).items.get? key = some item) :
    ∃ first rest, members report protocols entries key = first :: rest ∧
      item.summary = (key, followsHost report protocols first.1) := by
  obtain ⟨first, rest, hmembers, hitem⟩ := itemOf_of_get? hget
  have hfirst : first ∈ members report protocols entries key := by
    rw [hmembers]
    exact List.mem_cons_self ..
  refine ⟨first, rest, hmembers, ?_⟩
  rw [← (mem_members.mp hfirst).2.2, ServiceItem.summary, hitem.process, hitem.protocol,
    hitem.port, hitem.state, hitem.follows, listenerKey]

/-- No two items of a verdict have the same key. -/
theorem nodup_keys_values (entries : List (Listener × ℕ)) :
    ((serviceLoop report protocols {} entries).items.values.map
      fun item => item.summary.1).Nodup := by
  have hkeys : (serviceLoop report protocols {} entries).items.values.map
      (fun item => item.summary.1) = (serviceLoop report protocols {} entries).items.keys := by
    rw [Dict.values, Dict.keys, List.map_map]
    refine List.map_congr_left ?_
    rintro ⟨key, item⟩ hmem
    obtain ⟨first, rest, -, hsummary⟩ := summary_of_get? ((Dict.mem_entries_iff _).mp hmem)
    simp [hsummary]
  rw [hkeys]
  exact (serviceLoop report protocols {} entries).items.nodup

/-! ## A report with its sockets in another order -/

section Available

variable (havailable : report.serviceCryptoLinkage.available = true)

include havailable

theorem services_withListeners (listeners : List Listener) :
    (computeGap (report.withListeners listeners)).services =
      some (summarise (serviceLoop report (Gap.protocols report) {} listeners.zipIdx)) := by
  simp only [computeGap, Gap.services, Report.withListeners, havailable, if_true]
  rfl

theorem summaries_withListeners (listeners : List Listener) :
    (summaries (computeGap (report.withListeners listeners))).Perm
      ((serviceLoop report (Gap.protocols report) {} listeners.zipIdx).items.values.map
        ServiceItem.summary) := by
  rw [summaries, services_withListeners havailable]
  exact (sortedBy_perm _ _).map _

theorem nodup_summary_keys (listeners : List Listener) :
    ((summaries (computeGap (report.withListeners listeners))).map Prod.fst).Nodup := by
  rw [((summaries_withListeners havailable listeners).map Prod.fst).nodup_iff, List.map_map]
  exact nodup_keys_values _

/-- The first listener of a key decides the flag of its item. -/
theorem summary_of_head {listener : Listener} (hjudged : Judged listener)
    (rest : List Listener) :
    (listenerKey report (Gap.protocols report) listener,
        followsHost report (Gap.protocols report) listener) ∈
      summaries (computeGap (report.withListeners (listener :: rest))) := by
  rw [(summaries_withListeners havailable _).mem_iff, List.mem_map]
  have hmembers : ∃ more, members report (Gap.protocols report) (listener :: rest).zipIdx
      (listenerKey report (Gap.protocols report) listener) = (listener, 0) :: more := by
    simp [members, filedUnder, hjudged]
  obtain ⟨more, hmembers⟩ := hmembers
  have hsome : ((serviceLoop report (Gap.protocols report) {} (listener :: rest).zipIdx).items.get?
      (listenerKey report (Gap.protocols report) listener)).isSome := by
    rw [get?_serviceLoop, Dict.isSome_absorbAll, hmembers]
    exact Or.inr (by simp)
  obtain ⟨item, hget⟩ := Option.isSome_iff_exists.mp hsome
  refine ⟨item, (Dict.mem_values_iff _).mpr ⟨_, hget⟩, ?_⟩
  obtain ⟨first, others, hfirst, hsummary⟩ := summary_of_get? hget
  rw [hmembers] at hfirst
  cases hfirst
  exact hsummary

end Available

/-! ## When the order does not show -/

/-- Listeners that are collapsed into one item agree on whether they follow the
host default. -/
def KeysAgree (report : Report) : Prop :=
  report.serviceCryptoLinkage.available = true →
    ∀ first ∈ report.serviceCryptoLinkage.listeners,
      ∀ second ∈ report.serviceCryptoLinkage.listeners,
        Judged first → Judged second →
        listenerKey report (Gap.protocols report) first =
          listenerKey report (Gap.protocols report) second →
        followsHost report (Gap.protocols report) first =
          followsHost report (Gap.protocols report) second

/-- The parts of a verdict that should not depend on the order of the sockets. -/
structure SameVerdict (first second : DeploymentGap) : Prop where
  gaps : first.gaps.Perm second.gaps
  byState : first.services.map Services.byState = second.services.map Services.byState
  differing : first.services.map Services.differingFromHost =
    second.services.map Services.differingFromHost
  withoutCrypto : first.services.map Services.listenersWithoutCryptoLibrary =
    second.services.map Services.listenersWithoutCryptoLibrary
  unattributed : first.services.map Services.listenersUnattributed =
    second.services.map Services.listenersUnattributed
  items : ∀ summary, summary ∈ summaries first ↔ summary ∈ summaries second

/-- The summaries of a report whose keys agree, whatever the order. -/
theorem mem_summaries (havailable : report.serviceCryptoLinkage.available = true)
    (hagree : KeysAgree report) {listeners : List Listener}
    (hperm : listeners.Perm report.serviceCryptoLinkage.listeners) (key : ServiceKey)
    (follows : Bool) :
    (key, follows) ∈ summaries (computeGap (report.withListeners listeners)) ↔
      ∃ listener ∈ report.serviceCryptoLinkage.listeners, Judged listener ∧
        listenerKey report (Gap.protocols report) listener = key ∧
        followsHost report (Gap.protocols report) listener = follows := by
  have hmem : ∀ {listener i}, (listener, i) ∈ listeners.zipIdx →
      listener ∈ report.serviceCryptoLinkage.listeners := by
    intro listener i hentry
    rw [List.mem_zipIdx_iff_getElem?] at hentry
    exact hperm.mem_iff.mp (List.mem_of_getElem? hentry)
  rw [(summaries_withListeners havailable _).mem_iff, List.mem_map]
  constructor
  · rintro ⟨item, hitem, hsummary⟩
    obtain ⟨other, hget⟩ := (Dict.mem_values_iff _).mp hitem
    obtain ⟨first, rest, hmembers, hfirst⟩ := summary_of_get? hget
    rw [hfirst] at hsummary
    cases hsummary
    have hin : first ∈ members report (Gap.protocols report) listeners.zipIdx key := by
      rw [hmembers]
      exact List.mem_cons_self ..
    obtain ⟨hentry, hjudged, hkey⟩ := mem_members.mp hin
    exact ⟨first.1, hmem hentry, hjudged, hkey, rfl⟩
  · -- The item of the key may have been opened by another listener; the two agree.
    rintro ⟨listener, hlistener, hjudged, rfl, rfl⟩
    obtain ⟨i, hi, hget⟩ := List.getElem_of_mem (hperm.mem_iff.mpr hlistener)
    have hin : (listener, i) ∈ members report (Gap.protocols report) listeners.zipIdx
        (listenerKey report (Gap.protocols report) listener) := by
      refine mem_members.mpr ⟨?_, hjudged, rfl⟩
      exact hget ▸ mem_zipIdx_getElem listeners hi
    have hsome : ((serviceLoop report (Gap.protocols report) {} listeners.zipIdx).items.get?
        (listenerKey report (Gap.protocols report) listener)).isSome := by
      rw [get?_serviceLoop, Dict.isSome_absorbAll]
      exact Or.inr (List.ne_nil_of_mem hin)
    obtain ⟨item, hitem⟩ := Option.isSome_iff_exists.mp hsome
    obtain ⟨first, rest, hmembers, hsummary⟩ := summary_of_get? hitem
    have hfirst : first ∈ members report (Gap.protocols report) listeners.zipIdx
        (listenerKey report (Gap.protocols report) listener) := by
      rw [hmembers]
      exact List.mem_cons_self ..
    obtain ⟨hentry, hjudgedFirst, hkey⟩ := mem_members.mp hfirst
    refine ⟨item, (Dict.mem_values_iff _).mpr ⟨_, hitem⟩, ?_⟩
    rw [hsummary, hagree havailable first.1 (hmem hentry) listener hlistener hjudgedFirst hjudged
      hkey]

theorem summaries_perm (havailable : report.serviceCryptoLinkage.available = true)
    (hagree : KeysAgree report) {listeners : List Listener}
    (hperm : listeners.Perm report.serviceCryptoLinkage.listeners) :
    (summaries (computeGap (report.withListeners listeners))).Perm
      (summaries (computeGap report)) := by
  have hself : report = report.withListeners report.serviceCryptoLinkage.listeners := rfl
  rw [List.perm_ext_iff_of_nodup
    ((nodup_summary_keys havailable listeners).of_map _)
    (by rw [hself]; exact (nodup_summary_keys havailable _).of_map _)]
  rintro ⟨key, follows⟩
  rw [mem_summaries havailable hagree hperm]
  conv_rhs => rw [hself]
  rw [mem_summaries havailable hagree (List.Perm.refl _)]

/-! ## Everything is a function of the summaries -/

/-- Is the item with this summary a gap in its own right? -/
def summaryIsGap (summary : ServiceKey × Bool) : Bool := !summary.2 && summary.1.state.isGap

/-- The gap text of the item with this summary. -/
def summaryGap (summary : ServiceKey × Bool) : String :=
  "service:" ++ optionText summary.1.process ++ "/" ++
    optionText (summary.1.protocol.map Transport.name) ++ "/" ++
    optionText (summary.1.port.map toString) ++ ":" ++ summary.1.state.name

theorem serviceGaps_eq (items : List ServiceItem) :
    (items.filter ServiceItem.isGap).map serviceGap =
      ((items.map ServiceItem.summary).filter summaryIsGap).map summaryGap := by
  rw [List.filter_map, List.map_map]
  rfl

theorem sameVerdict_of_perm (hagree : KeysAgree report) {listeners : List Listener}
    (hperm : listeners.Perm report.serviceCryptoLinkage.listeners) :
    SameVerdict (computeGap (report.withListeners listeners)) (computeGap report) := by
  cases havailable : report.serviceCryptoLinkage.available with
  | false =>
      -- Without a service scan the sockets are not read at all.
      have hnone : computeGap (report.withListeners listeners) = computeGap report := by
        simp only [computeGap, Gap.services, Report.withListeners, havailable]
        rfl
      rw [hnone]
      exact ⟨List.Perm.refl _, rfl, rfl, rfl, rfl, fun _ => Iff.rfl⟩
  | true =>
      have hsummaries := summaries_perm havailable hagree hperm
      have hnew := services_withListeners havailable listeners
      have hold : (computeGap report).services = _ :=
        services_withListeners havailable report.serviceCryptoLinkage.listeners
      have hitems : ((summarise (serviceLoop report (Gap.protocols report) {}
          listeners.zipIdx)).items.map ServiceItem.summary).Perm
          ((summarise (serviceLoop report (Gap.protocols report) {}
            report.serviceCryptoLinkage.listeners.zipIdx)).items.map ServiceItem.summary) := by
        rw [summaries, summaries, hnew, hold] at hsummaries
        exact hsummaries
      refine ⟨?_, ?_, ?_, ?_, ?_, fun summary => hsummaries.mem_iff⟩
      · have hgaps := (hsummaries.filter summaryIsGap).map summaryGap
        rw [summaries, summaries, ← serviceGaps_eq, ← serviceGaps_eq] at hgaps
        exact (hgaps.append_left _).append_right _
      · rw [hnew, hold]
        have hnames := (hitems.map fun summary => (summary.1.state.name, 1))
        rw [List.map_map, List.map_map] at hnames
        exact congrArg some (Dict.sortedItems_eq_of_equiv (Dict.tally_equiv_of_perm hnames))
      · rw [hnew, hold]
        have hcount := hitems.countP_eq fun summary => !summary.2
        rw [List.countP_map, List.countP_map] at hcount
        exact congrArg some hcount
      · have hcount := hperm.countP_eq fun listener => WithoutCrypto listener
        rw [hnew, hold, Option.map_some, Option.map_some, listenersWithoutCryptoLibrary_eq hnew,
          listenersWithoutCryptoLibrary_eq hold]
        exact congrArg some hcount
      · have hcount := hperm.countP_eq fun listener => Unattributed listener
        rw [hnew, hold, Option.map_some, Option.map_some, listenersUnattributed_eq hnew,
          listenersUnattributed_eq hold]
        exact congrArg some hcount

/-! ## The exact condition -/

/-- **The order of the sockets does not show if and only if collapsed listeners
agree.** -/
theorem computeGap_order_independent_iff (report : Report) :
    (∀ listeners, listeners.Perm report.serviceCryptoLinkage.listeners →
      SameVerdict (computeGap (report.withListeners listeners)) (computeGap report)) ↔
      KeysAgree report := by
  constructor
  · intro hsame havailable first hfirst second hsecond hjudgedFirst hjudgedSecond hkey
    -- Move each of the two to the front: it then decides the flag of the item.
    have hfront : ∀ listener ∈ report.serviceCryptoLinkage.listeners, Judged listener →
        (listenerKey report (Gap.protocols report) listener,
          followsHost report (Gap.protocols report) listener) ∈ summaries (computeGap report) := by
      intro listener hlistener hjudged
      obtain ⟨before, after, hsplit⟩ := List.append_of_mem hlistener
      have hperm : (listener :: (before ++ after)).Perm report.serviceCryptoLinkage.listeners := by
        rw [hsplit]
        exact List.perm_middle.symm
      exact ((hsame _ hperm).items _).mp (summary_of_head havailable hjudged _)
    have hnodup : ((summaries (computeGap report)).map Prod.fst).Nodup :=
      nodup_summary_keys havailable report.serviceCryptoLinkage.listeners
    have hmemFirst := hfront first hfirst hjudgedFirst
    have hmemSecond := hfront second hsecond hjudgedSecond
    rw [← hkey] at hmemSecond
    exact congrArg Prod.snd (List.inj_on_of_nodup_map hnodup hmemFirst hmemSecond rfl)
  · intro hagree listeners hperm
    exact sameVerdict_of_perm hagree hperm

/-- A Tomcat whose own configuration keeps TLS classical. -/
def tomcat : Listener :=
  { process := some "java", protocol := some .tcp, port := some 8443
    exe := some "/usr/lib/jvm/jre/bin/java", systemdUnit := some "tomcat.service"
    networkNamespace := some .host
    cryptoLibraries := [{ family := some "openssl", libraryPqcCapable := some true }] }

/-- Another Java server on the same port of another network namespace, without
a configuration of its own. -/
def otherJava : Listener :=
  { tomcat with systemdUnit := some "kafka.service", networkNamespace := some .other }

/-- A host whose policy keeps TLS classical, running both. -/
def javaReport : Report :=
  { openssl := { available := true, pqcNative := .bool true }
    cryptoPolicy := { tlsKeyExchange := .bool false }
    serviceTlsConfig :=
      { available := true
        services :=
          [{ service := "tomcat"
             endpoints := [{ ports := [8443], pqcKeyExchange := some false }] }] }
    serviceCryptoLinkage := { available := true, listeners := [tomcat, otherJava] } }

/-- Enumerated in this order the host has a service gap, in the other order it
has none. -/
theorem javaReport_order_shows :
    [otherJava, tomcat].Perm javaReport.serviceCryptoLinkage.listeners ∧
      ¬ SameVerdict (computeGap (javaReport.withListeners [otherJava, tomcat]))
        (computeGap javaReport) := by
  refine ⟨List.Perm.swap .., ?_⟩
  intro hsame
  exact absurd hsame.gaps.length_eq (by decide +kernel)

end PqcReadiness.Gap
