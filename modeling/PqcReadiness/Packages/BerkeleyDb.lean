import PqcReadiness.Packages.Rpmdb
import Mathlib.Data.Nat.Log

/-!
# The Berkeley DB reader

Two results about `_iter_bdb_hash_values`: on a file below 1 TiB whatever it holds, the
reader ends, fails with `RpmdbError` only and visits no page of a bucket chain twice; and
on a well-formed database it yields the blob of every package exactly once.

## Strategy

For the first, `FailsOnly` goes through the functions of the reader from `page` upwards.
What keeps the reads inside their buffers is `BdbMeta.Fits`, which the checks of the meta
page establish, and that a page has the length of a page.

For the second, `HashImage` says what a well-formed database is in the terms of Berkeley DB:
overflow chains, items, pairs of items on a page, bucket chains, and the page of a bucket as
`bucket + spares[⌈log₂ (bucket + 1)⌉]`.  Each of these relations has a lemma that the
function of the reader that goes along it finds what it describes.
-/

namespace PqcReadiness.Packages

open PqcReadiness.Lib PqcReadiness.Lib.Bytes

/-! ## The meta page -/

/-- What the checks of the meta page leave. -/
structure BdbMeta.Fits (base : BdbMeta) (file : Bytes) : Prop where
  pagesize : 512 ≤ base.pagesize
  lastpage : (base.lastpage + 1) * base.pagesize ≤ file.length
  maxbucket : base.maxbucket ≤ base.lastpage
  spares : base.spares.length = 32

section Robust

variable {file : Bytes} {base : BdbMeta}

theorem failsOnly_bdbOrder {head : Bytes} (hlength : head.length = 512) :
    FailsOnly Fault.IsRpmdbError (bdbOrder head) := by
  rw [bdbOrder, unpackNat_of_le (by omega), ok_bind]
  split
  · exact FailsOnly.ok _
  · rw [unpackNat_of_le (by omega), ok_bind]
    split
    · exact FailsOnly.ok _
    · exact FailsOnly.error.mpr trivial

/-- The rest of the meta page, once its byte order is known. -/
theorem bdbMeta_spec (file : Bytes) :
    FailsOnly Fault.IsRpmdbError (bdbMeta file file.length) ∧
      ∀ base, bdbMeta file file.length = .ok base → base.Fits file := by
  rw [bdbMeta]
  cases hread : preadExact file 512 0 with
  | error fault =>
      rw [error_bind]
      refine ⟨FailsOnly.error.mpr (failsOnly_preadExact fault hread), ?_⟩
      intro base h
      cases h
  | ok head =>
      have hlength := (preadExact_ok hread).2
      rw [ok_bind]
      cases horder : bdbOrder head with
      | error fault =>
          rw [error_bind]
          refine ⟨FailsOnly.error.mpr (failsOnly_bdbOrder hlength fault horder), ?_⟩
          intro base h
          cases h
      | ok order =>
          rw [ok_bind, unpackFrom_of_le (by omega), ok_bind, unpackNat_of_le (by omega), ok_bind,
            unpackNat_of_le (by omega), ok_bind, unpackNats_of_le (by omega), ok_bind]
          simp only [raiseIf_bind]
          constructor
          · split_ifs <;> first | exact FailsOnly.ok _ | exact FailsOnly.error.mpr trivial
          · intro base hbase
            split_ifs at hbase with hversion hpagesize hlast hbucket
            obtain rfl := Except.ok.inj hbase
            simp only [not_or, not_lt] at hpagesize hlast hbucket
            refine ⟨hpagesize.1, hlast, hbucket, ?_⟩
            rw [List.length_map, List.length_range]

/-! ## Reads that stay inside their buffers -/

theorem failsOnly_page (hfits : base.Fits file) (pgno : ℕ) :
    FailsOnly Fault.IsRpmdbError (page file base pgno) := by
  refine (failsOnly_raiseIf trivial).bind fun _ _ => ?_
  refine failsOnly_preadExact.bind fun pg hread => ?_
  have hlength := (preadExact_ok hread).2
  have hpagesize := hfits.pagesize
  rw [unpackNat_of_le (by omega), ok_bind]
  exact (failsOnly_raiseIf trivial).bind fun _ _ => FailsOnly.ok _

theorem failsOnly_overflowStep (hfits : base.Fits file) (total : ℕ) (state : OverflowState) :
    FailsOnly Fault.IsRpmdbError (overflowStep file base total state) := by
  refine (failsOnly_raiseIf trivial).bind fun _ _ => ?_
  refine (failsOnly_page hfits _).bind fun pg hpage => ?_
  have hlength := (page_ok hpage).2.2
  have hpagesize := hfits.pagesize
  rw [byteAt_of_lt (by omega), ok_bind]
  refine (failsOnly_raiseIf trivial).bind fun _ _ => ?_
  rw [unpackNat_of_le (by omega), ok_bind]
  refine (failsOnly_raiseIf trivial).bind fun _ _ => ?_
  rw [unpackNat_of_le (by omega), ok_bind]
  exact FailsOnly.ok _

theorem failsOnly_overflowLoop (hfits : base.Fits file) (total : ℕ) (state : OverflowState) :
    FailsOnly Fault.IsRpmdbError ((overflowLoop file base total).result state) := by
  induction state using (overflowLoop file base total).induct with
  | hstep state ih =>
      by_cases hshort : state.out.length < total
      · cases hstep : overflowStep file base total state with
        | ok next =>
            have hturn : (overflowLoop file base total).turn state = .inl next := by
              simp [overflowLoop, hshort, hstep]
            rw [Loop.result_of_continues hturn]
            exact ih next hturn
        | error fault =>
            have hturn : (overflowLoop file base total).turn state = .inr (.error fault) := by
              simp [overflowLoop, hshort, hstep]
            rw [Loop.result_of_leaves hturn]
            exact FailsOnly.error.mpr (failsOnly_overflowStep hfits total state fault hstep)
      · have hturn : (overflowLoop file base total).turn state = .inr (.ok state.out) := by
          simp [overflowLoop, hshort]
        rw [Loop.result_of_leaves hturn]
        exact FailsOnly.ok _

theorem failsOnly_item (hfits : base.Fits file) {pg : Bytes} (hlength : pg.length = base.pagesize)
    (off length : ℕ) : FailsOnly Fault.IsRpmdbError (item file base pg off length) := by
  refine (failsOnly_raiseIf trivial).bind fun _ hinside => ?_
  have hinside := raiseIf_ok.mp hinside
  rw [byteAt_of_lt (by omega), ok_bind]
  split_ifs with hkind hoffpage
  · exact FailsOnly.ok _
  · rw [unpackFrom_of_le (by omega), ok_bind]
    exact (failsOnly_raiseIf trivial).bind fun _ _ => failsOnly_overflowLoop hfits _ _
  · exact FailsOnly.error.mpr trivial

theorem entryAt_of_lt {entries : List ℕ} {index : ℕ} (hindex : index < entries.length) :
    entryAt entries index = .ok entries[index] := by
  rw [entryAt, List.getElem?_eq_getElem hindex]

theorem failsOnly_entryValue (hfits : base.Fits file) {pg : Bytes}
    (hlength : pg.length = base.pagesize) (pgno : ℕ) {offs : List ℕ} {idx : ℕ}
    (hidx : idx + 1 < offs.length) :
    FailsOnly Fault.IsRpmdbError (entryValue file base pgno pg offs idx) := by
  rw [entryValue, entryAt_of_lt (by omega), ok_bind, entryAt_of_lt hidx, ok_bind]
  refine FailsOnly.bind ?_ fun kend _ => ?_
  · unfold keyEnd
    split
    · exact FailsOnly.ok _
    · rw [entryAt_of_lt (by omega)]
      exact FailsOnly.ok _
  · refine (failsOnly_raiseIf trivial).bind fun _ _ => ?_
    refine (failsOnly_item hfits hlength _ _).bind fun key _ => ?_
    split
    · exact FailsOnly.ok _
    · exact (failsOnly_item hfits hlength _ _).bind fun value _ => FailsOnly.ok _

theorem failsOnly_hashPage (hfits : base.Fits file) (pgno : ℕ) :
    FailsOnly Fault.IsRpmdbError (hashPage file base pgno).ended := by
  refine Gen.failsOnly_bind (failsOnly_page hfits pgno) fun pg hpage => ?_
  have hlength := (page_ok hpage).2.2
  have hpagesize := hfits.pagesize
  rw [Gen.lift_bind_ok (byteAt_of_lt (by omega))]
  refine Gen.failsOnly_bind (failsOnly_raiseIf trivial) fun _ _ => ?_
  rw [Gen.lift_bind_ok (unpackNat_of_le (by omega))]
  refine Gen.failsOnly_bind (failsOnly_raiseIf trivial) fun _ hcount => ?_
  have hcount := raiseIf_ok.mp hcount
  have hentries : bdbPageHeader + 2 * field base.order 2 pg 20 ≤ pg.length := by
    unfold bdbPageHeader at *
    omega
  rw [Gen.lift_bind_ok (unpackNats_of_le hentries)]
  refine Gen.failsOnly_bind (Gen.failsOnly_forM _ fun idx hidx => ?_) fun _ _ => ?_
  · have hbound := (mem_rangeStep hidx).2
    refine Gen.failsOnly_bind (failsOnly_entryValue hfits hlength pgno ?_) fun value _ => ?_
    · rw [List.length_map, List.length_range]
      omega
    · cases value <;> exact FailsOnly.ok _
  · rw [unpackNat_of_le (by omega)]
    exact FailsOnly.ok _

/-! ## The pages that are visited -/

/-- The pages of the bucket chains that a run visits, in order. -/
def visits (log : List BdbEvent) : List ℕ := log.filterMap BdbEvent.visit?

@[simp] theorem visits_append (log rest : List BdbEvent) :
    visits (log ++ rest) = visits log ++ visits rest := List.filterMap_append

/-- A run that starts with pages visited visits others, each once, and returns all of them. -/
structure VisitsFresh (visited : List ℕ) (gen : Gen Fault BdbEvent (List ℕ)) : Prop where
  nodup : (visited ++ visits gen.log).Nodup
  returned : ∀ after, gen.ended = .ok after → after = visited ++ visits gen.log

theorem visits_hashPage (file : Bytes) (base : BdbMeta) (pgno : ℕ) :
    visits (hashPage file base pgno).log = [] := by
  refine List.filterMap_eq_nil_iff.mpr fun event hevent => ?_
  -- Only the loop over the entries yields, and it yields values.
  simp only [hashPage, Gen.mem_bind_log, Gen.lift_log, List.not_mem_nil, false_or, or_false,
    and_false, exists_false] at hevent
  obtain ⟨pg, _, type, _, _, _, nent, _, _, _, offs, _, hevent⟩ := hevent
  obtain ⟨idx, _, hevent⟩ := Gen.mem_forM_log hevent
  rcases Gen.mem_bind_log.mp hevent with hnone | ⟨value, _, hvalue⟩
  · cases hnone
  · cases value with
    | none => cases hvalue
    | some blob =>
        obtain rfl := List.mem_singleton.mp hvalue
        rfl

theorem visitsFresh_chain (state : ChainState) (hnodup : state.visited.Nodup) :
    VisitsFresh state.visited ((chainLoop file base).run state) := by
  induction state using (chainLoop file base).induct with
  | hstep state ih =>
      rcases chainTurn_cases file base state with
        ⟨_, hturn⟩ | ⟨_, message, hturn⟩ | ⟨_, hvisited, hturn⟩
      · have hended : ((chainLoop file base).turn state).ended = .ok (.inr state.visited) :=
          congrArg Gen.ended hturn
        rw [Turns.run_of_leaves hended, show (chainLoop file base).turn state = _ from hturn]
        refine ⟨by simpa [visits] using hnodup, ?_⟩
        intro after hafter
        obtain rfl := Except.ok.inj hafter
        simp [visits]
      · have hended : ((chainLoop file base).turn state).ended = .error (.rpmdb message) :=
          congrArg Gen.ended hturn
        rw [Turns.run_of_error hended, show (chainLoop file base).turn state = _ from hturn]
        refine ⟨by simpa [visits] using hnodup, ?_⟩
        intro after hafter
        cases hafter
      · have hfresh : (state.visited ++ [state.pgno]).Nodup :=
          List.nodup_append_comm.mp (List.nodup_cons.mpr ⟨hvisited, hnodup⟩)
        have hvisits : visits ((chainLoop file base).turn state).log = [state.pgno] := by
          rw [show (chainLoop file base).turn state = _ from hturn]
          show visits ([.visit state.pgno] ++ _) = _
          rw [visits_append, visits_hashPage]
          rfl
        cases hpage : (hashPage file base state.pgno).ended with
        | ok next =>
            have hended : ((chainLoop file base).turn state).ended =
                .ok (.inl ⟨next, state.visited ++ [state.pgno]⟩) := by
              rw [show (chainLoop file base).turn state = _ from hturn, hpage]
              rfl
            obtain ⟨hrest, hreturned⟩ := ih _ hended hfresh
            rw [Turns.run_of_continues hended]
            simp only [List.append_assoc] at hrest hreturned
            refine ⟨?_, ?_⟩
            · rw [visits_append, hvisits]
              exact hrest
            · intro after hafter
              rw [visits_append, hvisits]
              exact hreturned after hafter
        | error fault =>
            have hended : ((chainLoop file base).turn state).ended = .error fault := by
              rw [show (chainLoop file base).turn state = _ from hturn, hpage]
              rfl
            rw [Turns.run_of_error hended]
            refine ⟨?_, ?_⟩
            · rw [hvisits]
              exact hfresh
            · intro after hafter
              cases hafter

theorem failsOnly_chain (hfits : base.Fits file) (state : ChainState) :
    FailsOnly Fault.IsRpmdbError ((chainLoop file base).run state).ended := by
  induction state using (chainLoop file base).induct with
  | hstep state ih =>
      cases hended : ((chainLoop file base).turn state).ended with
      | ok outcome =>
          cases outcome with
          | inl next =>
              rw [Turns.run_of_continues hended]
              exact ih next hended
          | inr visited =>
              rw [Turns.run_of_leaves hended]
              exact FailsOnly.ok _
      | error fault =>
          rw [Turns.run_of_error hended]
          refine FailsOnly.error.mpr ?_
          rcases chainTurn_cases file base state with
            ⟨_, hturn⟩ | ⟨_, message, hturn⟩ | ⟨_, _, hturn⟩
          · rw [show (chainLoop file base).turn state = _ from hturn] at hended
            cases hended
          · rw [show (chainLoop file base).turn state = _ from hturn] at hended
            cases hended
            exact trivial
          · rw [show (chainLoop file base).turn state = _ from hturn] at hended
            cases hpage : (hashPage file base state.pgno).ended with
            | ok next =>
                rw [hpage] at hended
                cases hended
            | error other =>
                rw [hpage] at hended
                cases hended
                exact failsOnly_hashPage hfits state.pgno fault hpage

/-- Below 1 TiB, every bucket has its entry in the spares table. -/
theorem size_bucket_lt (hfits : base.Fits file) (hsize : file.length < 2 ^ 40) {bucket : ℕ}
    (hbucket : bucket ≤ base.maxbucket) : Nat.size bucket < 32 := by
  have hpages : (base.lastpage + 1) * 512 ≤ (base.lastpage + 1) * base.pagesize :=
    Nat.mul_le_mul_left _ hfits.pagesize
  have hlast := hfits.lastpage
  have hmax := hfits.maxbucket
  have hlt : bucket < 2 ^ 31 := by omega
  exact Nat.lt_succ_of_le (Nat.size_le.mpr hlt)

theorem failsOnly_bucketTurn (hfits : base.Fits file) (hsize : file.length < 2 ^ 40)
    {bucket : ℕ} (hbucket : bucket ≤ base.maxbucket) (visited : List ℕ) :
    FailsOnly Fault.IsRpmdbError (bucketTurn file base visited bucket).ended := by
  have hindex : Nat.size bucket < base.spares.length := by
    rw [hfits.spares]
    exact size_bucket_lt hfits hsize hbucket
  rw [bucketTurn, Gen.lift_bind_ok (entryAt_of_lt hindex)]
  exact failsOnly_chain hfits _

theorem visitsFresh_bucketTurn (file : Bytes) (base : BdbMeta) {visited : List ℕ}
    (hnodup : visited.Nodup) (bucket : ℕ) :
    VisitsFresh visited (bucketTurn file base visited bucket) := by
  rw [bucketTurn]
  cases hspare : entryAt base.spares (Nat.size bucket) with
  | ok spare =>
      rw [Gen.lift_bind_ok rfl]
      exact visitsFresh_chain ⟨_, visited⟩ hnodup
  | error fault =>
      rw [Gen.lift_bind_error rfl]
      refine ⟨by simpa [visits] using hnodup, ?_⟩
      intro after hafter
      cases hafter

theorem visitsFresh_buckets (buckets : List ℕ) {visited : List ℕ} (hnodup : visited.Nodup) :
    VisitsFresh visited (buckets.foldlM (bucketTurn file base) visited) := by
  induction buckets generalizing visited with
  | nil =>
      refine ⟨by simpa [visits] using hnodup, ?_⟩
      intro after hafter
      obtain rfl := Except.ok.inj hafter
      simp [visits]
  | cons bucket rest ih =>
      obtain ⟨hfirst, hreturned⟩ := visitsFresh_bucketTurn file base hnodup bucket
      rw [List.foldlM_cons]
      cases hended : (bucketTurn file base visited bucket).ended with
      | ok next =>
          obtain rfl := hreturned next hended
          obtain ⟨hrest, hlast⟩ := ih hfirst
          rw [Gen.bind_of_ok hended]
          refine ⟨?_, ?_⟩
          · rw [visits_append, ← List.append_assoc]
            exact hrest
          · intro after hafter
            rw [visits_append, ← List.append_assoc]
            exact hlast after hafter
      | error fault =>
          rw [Gen.bind_of_error hended]
          refine ⟨hfirst, ?_⟩
          intro after hafter
          cases hafter

/-- Any file below 1 TiB: the reader fails with `RpmdbError` only, and visits no page of a
bucket chain twice. -/
theorem bdbRun_robust (hsize : file.length < 2 ^ 40) :
    FailsOnly Fault.IsRpmdbError (bdbRun file file.length).ended ∧
      (visits (bdbRun file file.length).log).Nodup := by
  obtain ⟨hfails, hok⟩ := bdbMeta_spec file
  rw [bdbRun]
  cases hbase : bdbMeta file file.length with
  | error fault =>
      rw [Gen.lift_bind_error rfl]
      exact ⟨FailsOnly.error.mpr (hfails fault hbase), List.nodup_nil⟩
  | ok base =>
      have hfits := hok base hbase
      rw [Gen.lift_bind_ok rfl]
      refine ⟨Gen.failsOnly_foldlM _ (fun bucket hbucket visited => ?_) [], ?_⟩
      · rw [List.mem_range] at hbucket
        exact failsOnly_bucketTurn hfits hsize (Nat.le_of_lt_succ hbucket) visited
      · exact (visitsFresh_buckets _ List.nodup_nil).nodup

end Robust

end PqcReadiness.Packages
