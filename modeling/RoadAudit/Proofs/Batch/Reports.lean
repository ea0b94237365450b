import Mathlib.Tactic
import RoadAudit.Proofs.Batch.InOrder
import RoadAudit.Proofs.Batch.Ranges

/-! # When a report has no room

A report is due at a multiple of the step between two reports, so the clock that has been moved past
the end of a batch shows the next multiple. It has no room in a word if this multiple has none. The
eighth report is never beyond the nodes; the ninth can be, and a batch whose end calls for it ends
among the few nodes that are left over when their number is divided by eight. A run in order in words
is the run in order unless the findings of such a batch are written. -/

namespace RoadAudit

/-- Whether a report has no room in a word, given that all findings are written: there is none for
the ninth report, and some batch but the last ends where it is called for. -/
def ReportsOverrun (count batchSize : Nat) : Prop :=
  Word.size32 ≤ 9 * (count / 8) ∧ (count - 1) % max batchSize 1 < count % 8

instance (count batchSize : Nat) : Decidable (ReportsOverrun count batchSize) :=
  inferInstanceAs (Decidable (_ ∧ _))

namespace ReportClock

variable {c d : ReportClock} {count stop : Nat} {r : NodeRange}

/-- What moving a clock on keeps. -/
structure InWord (c : ReportClock) : Prop where
  dvd : c.step ∣ c.due
  lt : c.due < Word.size32

theorem inWord_start (h : count < Word.size32) : (start count).InWord where
  dvd := dvd_refl _
  lt := by
    simp only [start, Word.size32] at h ⊢
    omega

/-- The first multiple of a step past a node is at most some multiple exactly if the node is before
that one. -/
theorem nextMultiple_le_iff (stop : Nat) {step due : Nat} (hpos : 0 < step) (hdvd : step ∣ due) :
    (stop / step + 1) * step ≤ due ↔ stop < due := by
  obtain ⟨k, rfl⟩ := hdvd
  rw [mul_comm step k, Nat.mul_le_mul_right_iff hpos, Nat.succ_le_iff, Nat.div_lt_iff_lt_mul hpos]

/-! ## One batch -/

theorem past_error_iff (hc : c.InWord) :
    (∃ overflow, c.past stop = .error overflow) ↔
      Word.size32 ≤ (stop / c.step + 1) * c.step := by
  induction c using past.induct stop with
  | case1 c hdue hroom ih =>
    rw [past, if_pos hdue, if_pos hroom]
    exact ih ⟨hc.dvd.add (dvd_refl _), hroom⟩
  | case2 c hdue hroom =>
    rw [past, if_pos hdue, if_neg hroom]
    have hnext : ¬ (stop / c.step + 1) * c.step ≤ c.due :=
      mt (nextMultiple_le_iff stop c.step_pos hc.dvd).mp (by omega)
    have hafter : c.due + c.step ≤ (stop / c.step + 1) * c.step := by
      rcases NodeRange.eq_or_add_le_of_dvd hc.dvd (Nat.dvd_mul_left c.step (stop / c.step + 1))
        (by omega) with heq | hle
      · omega
      · exact hle
    exact ⟨fun _ => by omega, fun _ => ⟨_, rfl⟩⟩
  | case3 c hdue =>
    rw [past, if_neg hdue]
    have hnext := (nextMultiple_le_iff stop c.step_pos hc.dvd).mpr (Nat.lt_of_not_le hdue)
    have hlt := hc.lt
    exact ⟨nofun, fun _ => by omega⟩

theorem past_ok (hc : c.InWord) (h : c.past stop = .ok d) : d.InWord ∧ d.step = c.step := by
  induction c using past.induct stop with
  | case1 c hdue hroom ih =>
    rw [past, if_pos hdue, if_pos hroom] at h
    exact ih ⟨hc.dvd.add (dvd_refl _), hroom⟩ h
  | case2 c hdue hroom =>
    rw [past, if_pos hdue, if_neg hroom] at h
    cases h
  | case3 c hdue =>
    rw [past, if_neg hdue] at h
    cases h
    exact ⟨hc, rfl⟩

theorem afterBatch_error_iff (hc : c.InWord) :
    (∃ overflow, c.afterBatch count r = .error overflow) ↔
      r.stop < count ∧ Word.size32 ≤ (r.stop / c.step + 1) * c.step := by
  unfold afterBatch
  split
  · next hreport => rw [past_error_iff hc, and_iff_right hreport.2]
  · next hsilent =>
    refine ⟨nofun, fun ⟨hlt, hroom⟩ => ?_⟩
    -- a batch that ends before the next report leaves room for it
    have hnext := (nextMultiple_le_iff r.stop c.step_pos hc.dvd).mpr (by omega)
    have := hc.lt
    omega

theorem afterBatch_ok (hc : c.InWord) (h : c.afterBatch count r = .ok d) :
    d.InWord ∧ d.step = c.step := by
  unfold afterBatch at h
  split at h
  · exact past_ok hc h
  · cases h
    exact ⟨hc, rfl⟩

theorem size32_le_nextReport_iff (hcount : count < Word.size32) (hstop : stop < count) :
    Word.size32 ≤ (stop / (start count).step + 1) * (start count).step ↔
      Word.size32 ≤ 9 * (count / 8) ∧ 8 * (count / 8) ≤ stop := by
  have hnext : (stop / (start count).step + 1) * (start count).step ≤
      stop + (start count).step := by
    have := Nat.div_mul_le_self stop (start count).step
    rw [Nat.add_one_mul]
    omega
  simp only [start, Word.size32] at hcount hnext ⊢
  constructor
  · intro hroom
    have hpos : 0 < count / 8 := by omega
    rw [Nat.max_eq_left hpos] at hroom hnext
    rcases Nat.lt_or_ge stop (8 * (count / 8)) with hbefore | hafter
    · have hle := (nextMultiple_le_iff stop hpos (Nat.dvd_mul_left (count / 8) 8)).mpr hbefore
      omega
    · have hle := (nextMultiple_le_iff stop hpos (Nat.dvd_mul_left (count / 8) 9)).mpr (by omega)
      exact ⟨by omega, hafter⟩
  · rintro ⟨hninth, hstop⟩
    have hpos : 0 < count / 8 := by omega
    rw [Nat.max_eq_left hpos]
    have hle := Nat.mul_le_mul_right (count / 8) ((Nat.le_div_iff_mul_le hpos).mpr hstop)
    rw [Nat.add_one_mul]
    omega

end ReportClock

/-- Whether the findings of a batch cannot be written without a report that has no room: they are
not the last, there is no room for the ninth report, and the end of the batch calls for it. -/
structure NodeRange.Overruns (count : Nat) (r : NodeRange) : Prop where
  more : r.stop < count
  ninth : Word.size32 ≤ 9 * (count / 8)
  called : 8 * (count / 8) ≤ r.stop

namespace ReportClock

variable {c d : ReportClock} {count : Nat} {r : NodeRange}

/-- What the clock of a run keeps. -/
structure IsClockOf (count : Nat) (c : ReportClock) : Prop where
  inWord : c.InWord
  step_eq : c.step = (start count).step

theorem isClockOf_start (hcount : count < Word.size32) : (start count).IsClockOf count :=
  ⟨inWord_start hcount, rfl⟩

theorem IsClockOf.afterBatch (h : c.IsClockOf count) (hd : c.afterBatch count r = .ok d) :
    d.IsClockOf count := by
  obtain ⟨hword, hstep⟩ := afterBatch_ok h.inWord hd
  exact ⟨hword, hstep.trans h.step_eq⟩

theorem IsClockOf.error_iff (h : c.IsClockOf count) (hcount : count < Word.size32) :
    (∃ overflow, c.afterBatch count r = .error overflow) ↔ r.Overruns count := by
  rw [afterBatch_error_iff h.inWord, h.step_eq]
  constructor
  · rintro ⟨hmore, hroom⟩
    obtain ⟨hninth, hcalled⟩ := (size32_le_nextReport_iff hcount hmore).mp hroom
    exact ⟨hmore, hninth, hcalled⟩
  · rintro ⟨hmore, hninth, hcalled⟩
    exact ⟨hmore, (size32_le_nextReport_iff hcount hmore).mpr ⟨hninth, hcalled⟩⟩

end ReportClock

theorem NodeRange.exists_overruns_iff {count : Nat} (batchSize : Nat) :
    (∃ r ∈ batches count batchSize, r.Overruns count) ↔ ReportsOverrun count batchSize := by
  constructor
  · rintro ⟨r, hr, hmore, hninth, hcalled⟩
    have hpos : 0 < 8 * (count / 8) := by
      simp only [Word.size32] at hninth
      omega
    have hends := (exists_stop_iff hpos).mp ⟨r, hr, hcalled, hmore⟩
    exact ⟨hninth, by omega⟩
  · rintro ⟨hninth, hends⟩
    have hpos : 0 < 8 * (count / 8) := by
      simp only [Word.size32] at hninth
      omega
    have hends' : 8 * (count / 8) + (count - 1) % max batchSize 1 < count := by omega
    obtain ⟨r, hr, hcalled, hmore⟩ := (exists_stop_iff hpos).mpr hends'
    exact ⟨r, hr, hmore, hninth, hcalled⟩

/-- Whether the batches before the one that begins at `start` overrun. -/
def ReportsOverrunBefore (count start : Nat) : Prop :=
  Word.size32 ≤ 9 * (count / 8) ∧ 8 * (count / 8) ≤ start

instance (count start : Nat) : Decidable (ReportsOverrunBefore count start) :=
  inferInstanceAs (Decidable (_ ∧ _))

theorem NodeRange.exists_overruns_before_iff {count batchSize : Nat} {before after : List NodeRange}
    {r : NodeRange} (h : batches count batchSize = before ++ r :: after) :
    (∃ b ∈ before, b.Overruns count) ↔ ReportsOverrunBefore count r.start := by
  obtain ⟨hbefore, hlast⟩ := before_of_batchesFrom h
  constructor
  · rintro ⟨b, hb, -, hninth, hcalled⟩
    exact ⟨hninth, hcalled.trans (hbefore b hb)⟩
  · rintro ⟨hninth, hcalled⟩
    have hpos : 0 < 8 * (count / 8) := by
      simp only [Word.size32] at hninth
      omega
    have hmem : r ∈ batches count batchSize := by
      rw [h]
      simp
    obtain ⟨-, hlt, hle⟩ := bounds_of_mem_batchesFrom hmem
    rcases hlast with ⟨-, hstart⟩ | ⟨b, hb, hstop⟩
    · omega
    · exact ⟨b, hb, by omega, hninth, by omega⟩

/-! ## Runs in order -/

namespace FindingSink

variable {σ α ε : Type} (sink : FindingSink σ α) (job : NodeRange → JobOutcome α ε) (count : Nat)

/-- Whether a run in order over some batches comes to one that overruns: its findings and those of
all batches before it are written. -/
inductive Overruns : σ → List NodeRange → Prop where
  | now {held next : σ} {r : NodeRange} {rest : List NodeRange} {fs : List (Finding α)}
      (hjob : job r = .findings fs) (hwrite : sink.write held fs = .ok next)
      (hover : r.Overruns count) : Overruns held (r :: rest)
  | later {held next : σ} {r : NodeRange} {rest : List NodeRange} {fs : List (Finding α)}
      (hjob : job r = .findings fs) (hwrite : sink.write held fs = .ok next)
      (h : Overruns next rest) : Overruns held (r :: rest)

variable {sink job count}

theorem overruns_cons_iff {held next : σ} {r : NodeRange} {rest : List NodeRange}
    {fs : List (Finding α)} (hjob : job r = .findings fs) (hwrite : sink.write held fs = .ok next) :
    Overruns sink job count held (r :: rest) ↔
      r.Overruns count ∨ Overruns sink job count next rest := by
  constructor
  · rintro (⟨-, -, hover⟩ | ⟨hjob', hwrite', hlater⟩)
    · exact .inl hover
    · rw [hjob] at hjob'
      cases hjob'
      rw [hwrite] at hwrite'
      cases hwrite'
      exact .inr hlater
  · rintro (hover | hlater)
    · exact .now hjob hwrite hover
    · exact .later hjob hwrite hlater

theorem Overruns.exists_findings {held : σ} {r : NodeRange} {rest : List NodeRange}
    (h : Overruns sink job count held (r :: rest)) :
    ∃ fs next, job r = .findings fs ∧ sink.write held fs = .ok next := by
  cases h with
  | now hjob hwrite _ => exact ⟨_, _, hjob, hwrite⟩
  | later hjob hwrite _ => exact ⟨_, _, hjob, hwrite⟩

theorem overruns_append_iff {before rest : List NodeRange} {found : List (List (Finding α))}
    {held last : σ} (hjobs : before.map job = found.map .findings)
    (hwritten : sink.writeAll held found = .ok last) :
    Overruns sink job count held (before ++ rest) ↔
      (∃ r ∈ before, r.Overruns count) ∨ Overruns sink job count last rest := by
  induction before generalizing found held with
  | nil =>
    obtain rfl : found = [] := by simpa using hjobs.symm
    cases hwritten
    simp
  | cons r more ih =>
    cases found with
    | nil => simp at hjobs
    | cons fs later =>
      rw [List.map_cons, List.map_cons, List.cons.injEq] at hjobs
      rw [writeAll] at hwritten
      split at hwritten
      · next next hnext =>
        rw [List.cons_append, overruns_cons_iff hjobs.1 hnext, ih hjobs.2 hwritten,
          List.exists_mem_cons_iff, or_assoc]
      · cases hwritten

/-- A run in order in words comes to a report without room exactly if a batch overruns before the
run is stopped. -/
theorem runInOrderInWords_error_iff (hcount : count < Word.size32) {clock : ReportClock}
    (hclock : clock.IsClockOf count) (ranges : List NodeRange) (w : Written σ) :
    (∃ overflow, sink.runInOrderInWords job count ranges w clock = .error overflow) ↔
      Overruns sink job count w.held ranges := by
  induction ranges generalizing w clock with
  | nil => exact ⟨nofun, nofun⟩
  | cons r rest ih =>
    cases htake : sink.take w r (job r) with
    | error e =>
      simp only [runInOrderInWords, htake]
      refine iff_of_false nofun fun hover => ?_
      obtain ⟨fs, next, hjob, hwrite⟩ := hover.exists_findings
      rw [hjob, sink.take_findings hwrite] at htake
      cases htake
    | ok w' =>
      obtain ⟨fs, hjob, hwrite⟩ := sink.take_ok job htake
      rw [overruns_cons_iff hjob hwrite, ← hclock.error_iff hcount]
      cases hreport : clock.afterBatch count r with
      | error overflow =>
        simp only [runInOrderInWords, htake, hreport]
        exact ⟨fun _ => .inl ⟨overflow, rfl⟩, fun _ => ⟨overflow, rfl⟩⟩
      | ok c =>
        simp only [runInOrderInWords, htake, hreport]
        rw [ih (hclock.afterBatch hreport)]
        exact ⟨.inr, fun h => h.resolve_left nofun⟩

theorem runInOrderInWords_ok {clock : ReportClock} {ranges : List NodeRange} {w : Written σ}
    {outcome : σ × Except (RunError ε) RunSummary}
    (h : sink.runInOrderInWords job count ranges w clock = .ok outcome) :
    sink.runInOrder job ranges w = outcome := by
  induction ranges generalizing w clock with
  | nil => exact Except.ok.inj h
  | cons r rest ih =>
    rw [runInOrderInWords] at h
    rw [runInOrder]
    cases htake : sink.take w r (job r) with
    | error e =>
      rw [htake] at h
      exact Except.ok.inj h
    | ok w' =>
      rw [htake] at h
      cases hreport : clock.afterBatch count r with
      | error overflow => simp [hreport] at h
      | ok c =>
        simp only [hreport] at h
        exact ih h

end FindingSink
end RoadAudit
