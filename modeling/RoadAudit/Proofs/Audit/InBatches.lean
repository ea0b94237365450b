import RoadAudit.Batch.Audit
import RoadAudit.Proofs.Audit.InWords
import RoadAudit.Proofs.Batch.InWords

/-! # The audit in batches

An audit is measured by a single pass over all nodes. Whatever the number of workers, the size of
the batches and the order in which the jobs are started and completed, the sink is handed the
findings of the pass in their order; if the pass fails at a node, the audit fails with the same
error for the batch of that node, and what it has written are the findings of the nodes before that
batch. That is so unless a report has no room before. -/

namespace RoadAudit

/-! ## Sinks -/

namespace FindingSink

variable {σ α : Type} (sink : FindingSink σ α)

/-- Whether a sink takes whatever it is handed. -/
def TakesAll : Prop := ∀ held fs, ∃ next, sink.write held fs = .ok next

/-- Whether findings, written in their order and in pieces of any size, bring a sink from `held` to
`last`. -/
def Writes (held : σ) (fs : List (Finding α)) (last : σ) : Prop :=
  ∃ pieces, pieces.flatten = fs ∧ sink.writeAll held pieces = .ok last

variable {sink}

theorem Writes.nil (held : σ) : sink.Writes held [] held := ⟨[], rfl, rfl⟩

theorem Writes.cons {held next last : σ} {fs gs : List (Finding α)}
    (hwrite : sink.write held fs = .ok next) (h : sink.Writes next gs last) :
    sink.Writes held (fs ++ gs) last := by
  obtain ⟨pieces, rfl, hpieces⟩ := h
  exact ⟨fs :: pieces, rfl, by simpa [writeAll, hwrite] using hpieces⟩

theorem takesAll_collect : (collect : FindingSink (List (Finding α)) α).TakesAll :=
  fun held fs => ⟨held ++ fs, rfl⟩

theorem eq_of_writes_collect {held fs last : List (Finding α)}
    (h : (collect : FindingSink (List (Finding α)) α).Writes held fs last) : last = held ++ fs := by
  obtain ⟨pieces, rfl, hpieces⟩ := h
  induction pieces generalizing held with
  | nil =>
    cases hpieces
    simp
  | cons piece rest ih =>
    rw [List.flatten_cons, ← List.append_assoc]
    exact ih hpieces

theorem TakesAll.exists_writeAll (h : sink.TakesAll) (held : σ) (found : List (List (Finding α))) :
    ∃ last, sink.writeAll held found = .ok last := by
  induction found generalizing held with
  | nil => exact ⟨held, rfl⟩
  | cons fs rest ih =>
    obtain ⟨next, hnext⟩ := h held fs
    obtain ⟨last, hlast⟩ := ih next
    exact ⟨last, by simpa only [writeAll, hnext] using hlast⟩

end FindingSink

namespace AuditContext

open NodeRange

/-! ## A pass cut into batches -/

section

variable {α : Type} [Scalar α] {ctx : AuditContext α} {r : NodeRange}

theorem checkJob_of_ok {fs : List (Finding α)}
    (h : ctx.checkRangeInWords? r.start r.stop = some (.ok fs)) :
    ctx.checkJob r = .findings fs := by
  rw [checkJob, h]

theorem checkJob_of_error {e : NodeError α}
    (h : ctx.checkRangeInWords? r.start r.stop = some (.error e)) : ctx.checkJob r = .failed e := by
  rw [checkJob, h]

theorem checkJob_of_none (h : ctx.checkRangeInWords? r.start r.stop = none) :
    ctx.checkJob r = .panicked Word.overflowText := by
  rw [checkJob, h]

theorem checkRangeInWords?_split (ctx : AuditContext α) {start mid stop : Nat}
    (hstart : start ≤ mid) (hstop : mid ≤ stop) :
    ctx.checkRangeInWords? start stop =
      match ctx.checkRangeInWords? start mid with
      | some (.ok before) =>
        (ctx.checkRangeInWords? mid stop).map fun after => after.map (before ++ ·)
      | stopped => stopped := by
  have hcount : stop - start = (mid - start) + (stop - mid) := by omega
  have hmid : start + (mid - start) = mid := by omega
  rw [checkRangeInWords?, hcount, checkFromInWords?_add, hmid]
  rfl

/-- How the jobs of some batches relate to a pass over their nodes: all give findings, which are
those of the pass, or a first one stops as the pass does. -/
inductive PassInBatches (ctx : AuditContext α) (start count : Nat) (ranges : List NodeRange) :
    Prop where
  | all (found : List (List (Finding α))) (hjobs : ranges.map ctx.checkJob = found.map .findings)
      (hpass : ctx.checkRangeInWords? start count = some (.ok found.flatten))
  | stopped (before after : List NodeRange) (found : List (List (Finding α))) {r : NodeRange}
      (hranges : ranges = before ++ r :: after)
      (hjobs : before.map ctx.checkJob = found.map .findings)
      (hbefore : ctx.checkRangeInWords? start r.start = some (.ok found.flatten))
      (hpass : ctx.checkRangeInWords? start count = ctx.checkRangeInWords? r.start r.stop)
      (hstop : ∀ fs, ctx.checkRangeInWords? r.start r.stop ≠ some (.ok fs))

theorem PassInBatches.cons {start mid count : Nat} {rest : List NodeRange} {fs : List (Finding α)}
    (hstart : start ≤ mid) (hmid : mid ≤ count) (hrest : ∀ r ∈ rest, mid ≤ r.start)
    (hfirst : ctx.checkRangeInWords? start mid = some (.ok fs))
    (h : ctx.PassInBatches mid count rest) :
    ctx.PassInBatches start count (⟨start, mid⟩ :: rest) := by
  have hjob : ctx.checkJob ⟨start, mid⟩ = .findings fs := checkJob_of_ok hfirst
  have hsplit : ∀ stop, mid ≤ stop → ctx.checkRangeInWords? start stop =
      (ctx.checkRangeInWords? mid stop).map fun after => after.map (fs ++ ·) := by
    intro stop hle
    rw [ctx.checkRangeInWords?_split hstart hle, hfirst]
  cases h with
  | all found hjobs hpass =>
    refine .all (fs :: found) (by rw [List.map_cons, List.map_cons, hjob, hjobs]) ?_
    rw [hsplit count hmid, hpass]
    rfl
  | @stopped before after found r hranges hjobs hbefore hpass hstop =>
    have hr : mid ≤ r.start := hrest r (by simp [hranges])
    refine .stopped (⟨start, mid⟩ :: before) after (fs :: found) (by rw [hranges]; rfl)
      (by rw [List.map_cons, List.map_cons, hjob, hjobs]) ?_ ?_ hstop
    · rw [hsplit r.start hr, hbefore]
      rfl
    · rw [hsplit count hmid, hpass]
      cases hresult : ctx.checkRangeInWords? r.start r.stop with
      | none => rfl
      | some result =>
        cases result with
        | ok gs => exact absurd hresult (hstop gs)
        | error e => rfl

theorem passInBatches (ctx : AuditContext α) (count batchSize start : Nat) :
    ctx.PassInBatches start count (batchesFrom count batchSize start) := by
  induction start using batchesFrom.induct count batchSize with
  | case1 start hlt ih =>
    rw [batchesFrom_of_lt hlt, batchAt]
    generalize hmid : min (start + max batchSize 1) count = mid at ih ⊢
    have hstart : start ≤ mid := by omega
    have hcount : mid ≤ count := by omega
    cases hfirst : ctx.checkRangeInWords? start mid with
    | some result =>
      cases result with
      | ok fs =>
        exact ih.cons hstart hcount (fun r hr => (bounds_of_mem_batchesFrom hr).1) hfirst
      | error e =>
        refine .stopped [] _ [] rfl rfl ?_ ?_ ?_
        · rw [checkRangeInWords?, Nat.sub_self]
          rfl
        · rw [ctx.checkRangeInWords?_split hstart hcount, hfirst]
        · rw [hfirst]
          exact fun fs h => by cases h
    | none =>
      refine .stopped [] _ [] rfl rfl ?_ ?_ ?_
      · rw [checkRangeInWords?, Nat.sub_self]
        rfl
      · rw [ctx.checkRangeInWords?_split hstart hcount, hfirst]
      · rw [hfirst]
        exact fun fs h => by cases h
  | case2 start hge =>
    rw [batchesFrom_of_le (by omega)]
    refine .all [] rfl ?_
    rw [checkRangeInWords?, Nat.sub_eq_zero_of_le (by omega)]
    rfl

end

/-! ## Any workers, any batches, any order -/

variable {σ α : Type} [Scalar α] {sink : FindingSink σ α}

/-- The context with another number of workers and another size of batches. -/
def spread (ctx : AuditContext α) (workers batchSize : Nat) : AuditContext α :=
  { ctx with settings := { ctx.settings with workers := workers, batchSize := batchSize } }

theorem duplicatesAmong_spread (ctx : AuditContext α) (workers batchSize id : Nat)
    (edges : List (EdgeView α)) :
    (ctx.spread workers batchSize).duplicatesAmong id edges = ctx.duplicatesAmong id edges := by
  induction edges with
  | nil => rfl
  | cons a rest ih =>
    rw [duplicatesAmong, duplicatesAmong, ih]
    rfl

theorem checkRangeInWords?_spread (ctx : AuditContext α) (workers batchSize start stop : Nat) :
    (ctx.spread workers batchSize).checkRangeInWords? start stop =
      ctx.checkRangeInWords? start stop := by
  have hnode : ∀ id, (ctx.spread workers batchSize).checkNodeInWords? id =
      ctx.checkNodeInWords? id := by
    intro id
    unfold checkNodeInWords? duplicatesAt
    rw [duplicatesAmong_spread]
    rfl
  unfold checkRangeInWords?
  generalize stop - start = n
  induction n generalizing start with
  | zero => rfl
  | succ n ih =>
    rw [checkFromInWords?, checkFromInWords?, hnode, ih]
    rfl

theorem checkJob_spread (ctx : AuditContext α) (workers batchSize : Nat) :
    (ctx.spread workers batchSize).checkJob = ctx.checkJob := by
  funext r
  rw [checkJob, checkJob, checkRangeInWords?_spread]

/-- What a run of the audit comes to, given the single pass: all findings are written and summed up,
or those before the batch of the first node that cannot be checked, and the answer is the error of
that node. Where a sum behind a priority has no room, the worker that checks its node panics. -/
structure AgreesWithPass (ctx : AuditContext α) (p : RunPlan σ α (NodeError α)) (held : σ) :
    Prop where
  passed : ∀ fs, ctx.checkRangeInWords? 0 p.count = some (.ok fs) →
    ∃ last, p.sink.Writes held fs last ∧
      p.ReturnsUnless (ReportsOverrun p.count p.batchSize) held (last, .ok
        { jobs := p.count ⌈/⌉ max p.batchSize 1
          nodes := p.count
          missing := (missingOf fs).length
          duplicated := (duplicatesOf fs).length })
  failed : ∀ e, ctx.checkRangeInWords? 0 p.count = some (.error e) →
    ∃ r ∈ batches p.count p.batchSize, r.start ≤ e.node ∧ e.node < r.stop ∧
      ∃ before last, ctx.checkRangeInWords? 0 r.start = some (.ok before) ∧
        p.sink.Writes held before last ∧
        p.ReturnsUnless (ReportsOverrunBefore p.count r.start) held
          (last, .error (.jobFailed r e))
  panicked : ctx.checkRangeInWords? 0 p.count = none →
    ∃ r ∈ batches p.count p.batchSize, ctx.checkRangeInWords? r.start r.stop = none ∧
      ∃ before last, ctx.checkRangeInWords? 0 r.start = some (.ok before) ∧
        p.sink.Writes held before last ∧
        p.ReturnsUnless (ReportsOverrunBefore p.count r.start) held
          (last, .error (.workerPanicked r Word.overflowText))

variable {ctx : AuditContext α}

theorem agreesWithPass {p : RunPlan σ α (NodeError α)} (hcount : p.count < Word.size32)
    (hjob : p.job = ctx.checkJob) (hsink : p.sink.TakesAll) (held : σ) :
    ctx.AgreesWithPass p held := by
  cases ctx.passInBatches p.count p.batchSize 0 with
  | all found hjobs hpass =>
    obtain ⟨last, hlast⟩ := hsink.exists_writeAll held found
    rw [← hjob] at hjobs
    constructor
    · intro fs h
      rw [hpass] at h
      cases h
      exact ⟨last, ⟨found, rfl, hlast⟩, RunPlan.returnsUnless_of_writeAll hcount hjobs hlast⟩
    · intro e h
      rw [hpass] at h
      cases h
    · intro h
      rw [hpass] at h
      cases h
  | @stopped before after found r hranges hjobs hbefore hpass hstop =>
    obtain ⟨last, hlast⟩ := hsink.exists_writeAll held found
    have hr : r ∈ batches p.count p.batchSize := by
      rw [batches, hranges]
      simp
    rw [← hjob] at hjobs
    constructor
    · intro fs h
      exact absurd (hpass.symm.trans h) (hstop fs)
    · intro e h
      rw [hpass] at h
      obtain ⟨hle, hlt⟩ := bounds_of_checkFromInWords? h
      obtain ⟨-, hrange, -⟩ := bounds_of_mem_batchesFrom hr
      refine ⟨r, hr, hle, by omega, _, last, hbefore, ⟨found, rfl, hlast⟩,
        RunPlan.returnsUnless_of_stop hcount hranges hjobs hlast fun w => ?_⟩
      rw [hjob, checkJob_of_error h]
      rfl
    · intro h
      rw [hpass] at h
      refine ⟨r, hr, h, _, last, hbefore, ⟨found, rfl, hlast⟩,
        RunPlan.returnsUnless_of_stop hcount hranges hjobs hlast fun w => ?_⟩
      rw [hjob, checkJob_of_none h]
      rfl

/-- An audit agrees with a single pass over all nodes, unless its reports overrun. Whatever the
number of workers and the size of the batches, the audit and a run of it under any interleaving come
to what the pass comes to, or, where a batch overruns before that, to no result at all. So what is
collected from a graph that can be checked depends on neither workers nor batches. -/
theorem audit_agrees_unless_overrun (ctx : AuditContext α)
    (hcount : ctx.graph.nodeCount < Word.size32) (workers batchSize : Nat)
    {sink : FindingSink σ α} (hsink : sink.TakesAll) (held : σ) :
    let p := (ctx.spread workers batchSize).runPlan sink
    (ctx.spread workers batchSize).audit sink held = p.runInWords held ∧
    ctx.AgreesWithPass p held ∧
    ∀ fs, ctx.checkRangeInWords? 0 ctx.graph.nodeCount = some (.ok fs) →
      ¬ ReportsOverrun ctx.graph.nodeCount batchSize → ∀ before, ∃ summary,
        (ctx.spread workers batchSize).audit .collect before = .ok (before ++ fs, .ok summary) := by
  intro p
  have hjob : (ctx.spread workers batchSize).checkJob = ctx.checkJob :=
    checkJob_spread ctx workers batchSize
  refine ⟨rfl, agreesWithPass hcount hjob hsink held, fun fs h hroom before => ?_⟩
  have hcollects : ctx.AgreesWithPass ((ctx.spread workers batchSize).runPlan .collect) before :=
    agreesWithPass hcount hjob FindingSink.takesAll_collect before
  obtain ⟨last, hlast, hreturns, -⟩ := hcollects.passed fs h
  obtain rfl := FindingSink.eq_of_writes_collect hlast
  exact ⟨_, (hreturns hroom).run⟩

/-- A road that is stored three times, checked by two workers with one node in each batch. -/
theorem audit_agrees_unless_overrun_tripledRoad :
    let p := (tripledRoad.spread 2 1).runPlan FindingSink.collect
    let fs : List (Finding Float) := [.duplicate ⟨[⟨0, 1⟩, ⟨0, 0⟩], some 500, some 501, 1⟩,
      .duplicate ⟨[⟨0, 1⟩, ⟨0, 0⟩], some 501, some 502, 2⟩]
    tripledRoad.graph.nodeCount < Word.size32 ∧
    (FindingSink.collect : FindingSink (List (Finding Float)) Float).TakesAll ∧
    tripledRoad.checkRangeInWords? 0 2 = some (.ok fs) ∧ ¬ ReportsOverrun 2 1 ∧
    p.Returns [] (fs, .ok ⟨2, 2, 0, 2⟩) := by
  intro p fs
  have hcount : tripledRoad.graph.nodeCount < Word.size32 := by decide
  have hpass : tripledRoad.checkRangeInWords? 0 2 = some (.ok fs) := by
    rw [checkRangeInWords?_eq PriorityTable.hasRoom_default.isInWords fun n _ _ =>
      not_nodeLacksRoom PriorityTable.hasRoom_default n, checkRange_tripledRoad]
  have hroom : ¬ ReportsOverrun 2 1 := by decide
  obtain ⟨-, hagrees, -⟩ :=
    audit_agrees_unless_overrun tripledRoad hcount 2 1 FindingSink.takesAll_collect []
  obtain ⟨last, hlast, hreturns, -⟩ := hagrees.passed fs hpass
  obtain rfl := FindingSink.eq_of_writes_collect hlast
  exact ⟨hcount, FindingSink.takesAll_collect, hpass, hroom, hreturns hroom⟩

/-- Some nodes without map ids, with nothing to be found. -/
def unrecorded (count : Nat) : AuditContext Float where
  graph := ⟨Array.replicate count ⟨⟨0, 0⟩, false⟩, #[], by simp⟩
  nodeIds := .empty .nodes
  wayIds := .empty .ways
  barriers := default
  settings := default

theorem checkRangeInWords?_unrecorded (count start stop : Nat) :
    (unrecorded count).checkRangeInWords? start stop = some (.ok []) := by
  have hnode : ∀ id, (unrecorded count).checkNodeInWords? id = some (.ok []) := by
    intro id
    have hskipped : (unrecorded count).isSkipped id = true := by
      have hid : (unrecorded count).nodeIds.osmId? id = none := by
        simp [unrecorded, IdTable.empty, IdTable.osmId?, IdTable.word, IdTable.idOf?]
      simp [isSkipped, hid]
    rw [checkNodeInWords?, if_pos hskipped]
  unfold checkRangeInWords?
  generalize stop - start = n
  induction n generalizing start with
  | zero => rfl
  | succ n ih =>
    rw [checkFromInWords?, hnode]
    simp [ih, Except.map]

theorem audit_ninthReport {ctx : AuditContext α} (hcount : ctx.graph.nodeCount = 4294967295)
    (hnothing : ctx.checkRangeInWords? 0 4294967288 = some (.ok [])) (workers : Nat) :
    (ctx.spread workers 4294967288).audit FindingSink.collect [] =
      .error ⟨4294967288, 536870911⟩ := by
  have hjob : (ctx.spread workers 4294967288).checkJob ⟨0, 4294967288⟩ = .findings [] := by
    rw [checkJob_spread]
    exact checkJob_of_ok hnothing
  exact RunPlan.runInWords_ninthReport hcount rfl hjob rfl

/-- With as many nodes as there can be, the pass finds nothing, and the audit comes to no result if
the first of two batches ends where the ninth report is called for. -/
theorem audit_not_agrees_ninthReport :
    let ctx := unrecorded 4294967295
    ctx.graph.nodeCount = 4294967295 ∧
    ctx.checkRangeInWords? 0 ctx.graph.nodeCount = some (.ok []) ∧
    (ctx.spread 2 4294967288).audit FindingSink.collect [] = .error ⟨4294967288, 536870911⟩ ∧
    ∀ outcome, ¬ ((ctx.spread 2 4294967288).runPlan FindingSink.collect).Returns [] outcome := by
  intro ctx
  have hcount : ctx.graph.nodeCount = 4294967295 := Array.size_replicate
  have haudit := audit_ninthReport hcount (checkRangeInWords?_unrecorded _ _ _) 2
  refine ⟨hcount, checkRangeInWords?_unrecorded _ _ _, haudit, fun outcome h => ?_⟩
  have hreturn := h.run
  cases haudit.symm.trans hreturn

end AuditContext
end RoadAudit
