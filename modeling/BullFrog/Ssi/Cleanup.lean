/-
# `BullFrog.Ssi.Cleanup` — what `ClearOldPredicateLocks` takes to be uninteresting

The locks and conflicts of a committed transaction are kept as long as a transaction that overlaps
it may still run into them.  The code does not look for such a transaction.  It keeps a count of
the writable transactions, and whenever the count falls to zero it notes the last sequence number
in `CanPartialClearThrough`: who committed up to there overlaps no writable transaction that is
still open.  The invariant says that the count is right and that the note stays true while new
transactions come.
-/
import Mathlib.Data.Finset.Card
import BullFrog.Ssi.Numbers

namespace BullFrog.Ssi

/-- The transactions that count as writable. -/
def Server.openWriters (s : Server) : Finset Nat :=
  (Finset.range s.next).filter fun i =>
    (s.xact i).stage = .tracked ∧ (s.pred.sxact i).readOnly = false

theorem Server.mem_openWriters {s : Server} {i : Nat} :
    i ∈ s.openWriters ↔
      i < s.next ∧ (s.xact i).stage = .tracked ∧ (s.pred.sxact i).readOnly = false := by
  simp [Server.openWriters]

theorem Numbered.mem_openWriters {s : Server} (h : Numbered s) {i : Nat} :
    i ∈ s.openWriters ↔ (s.xact i).stage = .tracked ∧ (s.pred.sxact i).readOnly = false := by
  exact Server.mem_openWriters.trans ⟨And.right, fun hi => ⟨(h.tracked_bounds hi.1).2, hi⟩⟩

/-- The count of writable transactions is right, and each of them began after the note was
taken. -/
structure WritersCounted (s : Server) : Prop where
  writable : s.pred.writableSxactCount = s.openWriters.card
  through : s.pred.canPartialClearThrough ≤ s.pred.lastSxactCommitSeqNo
  began : ∀ i ∈ s.openWriters, s.pred.canPartialClearThrough ≤ (s.xact i).began

theorem writersCounted_initial : WritersCounted Server.initial where
  writable := by decide
  through := Nat.zero_le _
  began := fun _ _ => Nat.zero_le _

/-! ## One step -/

theorem Still.openWriters {s s' : Server} (st : Still s s') : s'.openWriters = s.openWriters := by
  ext i
  rw [Server.mem_openWriters, Server.mem_openWriters, st.next,
    (st.xact i).stage_tracked, (st.kept i).readOnly]

theorem WritersCounted.of_still {s s' : Server} (h : WritersCounted s) (st : Still s s') :
    WritersCounted s' where
  writable := by rw [st.writable, st.openWriters, h.writable]
  through := by rw [st.canClear, st.last]; exact h.through
  began := by
    intro i hi
    rw [st.openWriters] at hi
    rw [st.canClear, (st.xact i).began]
    exact h.began i hi

/-- Who was there before is a writer or not as before. -/
theorem Begun.mem_openWriters {s s' : Server} {snap : Snapshot} {ro : Bool}
    (b : Begun s s' snap ro) {i : Nat} (hi : i ≠ s.next) :
    i ∈ s'.openWriters ↔ i ∈ s.openWriters := by
  have hlt : i < s.next + 1 ↔ i < s.next := by omega
  rw [Server.mem_openWriters, Server.mem_openWriters, b.next, b.xact_ne i hi, b.sxact_ne i hi, hlt]

theorem Server.next_notMem_openWriters (s : Server) : s.next ∉ s.openWriters := fun h =>
  Nat.lt_irrefl _ (Server.mem_openWriters.mp h).1

/-- A new transaction is a writer if it has a `SERIALIZABLEXACT` and is not read-only. -/
theorem Begun.openWriters {s s' : Server} {snap : Snapshot} {ro : Bool} (b : Begun s s' snap ro) :
    s'.pred.canPartialClearThrough = s.pred.canPartialClearThrough ∧
      ((s'.openWriters = s.openWriters ∧
          s'.pred.writableSxactCount = s.pred.writableSxactCount) ∨
        (s'.openWriters = insert s.next s.openWriters ∧
          s'.pred.writableSxactCount = s.pred.writableSxactCount + 1)) := by
  have hsame : s.next ∉ s'.openWriters → s'.openWriters = s.openWriters := by
    intro hn
    ext i
    by_cases hi : i = s.next
    · subst hi
      exact ⟨fun h => absurd h hn, fun h => absurd h s.next_notMem_openWriters⟩
    · exact b.mem_openWriters hi
  rcases b.stage with ⟨ht, hp⟩ | ⟨hu, -, hp⟩
  · obtain ⟨-, -, -, hc, hw, -⟩ := PredXact.begin_rest hp
    have hro : (s'.pred.sxact s.next).readOnly = ro := by
      rw [PredXact.begin_sxact hp, Function.update_self]
    refine ⟨hc, ?_⟩
    cases ro
    · refine .inr ⟨?_, hw⟩
      ext i
      by_cases hi : i = s.next
      · subst hi
        simp [Server.mem_openWriters, b.next, ht, hro]
      · simp [b.mem_openWriters hi, hi]
    · refine .inl ⟨hsame ?_, hw⟩
      simp [Server.mem_openWriters, hro]
  · rw [hp]
    refine ⟨rfl, .inl ⟨hsame ?_, rfl⟩⟩
    simp [Server.mem_openWriters, hu]

theorem WritersCounted.of_begun {s s' : Server} {snap : Snapshot} {ro : Bool} (h : WritersCounted s)
    (b : Begun s s' snap ro) : WritersCounted s' := by
  obtain ⟨hc, hw⟩ := b.openWriters
  have hold : ∀ i ∈ s.openWriters, s'.pred.canPartialClearThrough ≤ (s'.xact i).began := by
    intro i hi
    rw [hc, b.xact_ne i (Nat.ne_of_lt (Server.mem_openWriters.mp hi).1)]
    exact h.began i hi
  have hthrough : s'.pred.canPartialClearThrough ≤ s'.pred.lastSxactCommitSeqNo := by
    rw [hc, b.last]
    exact h.through
  rcases hw with ⟨hset, hcount⟩ | ⟨hset, hcount⟩
  · exact ⟨by rw [hcount, hset, h.writable], hthrough, hset ▸ hold⟩
  · refine ⟨?_, hthrough, ?_⟩
    · rw [hcount, hset, Finset.card_insert_of_notMem s.next_notMem_openWriters, h.writable]
    · -- the new one began at the last sequence number
      intro i hi
      rcases Finset.mem_insert.mp (hset ▸ hi) with rfl | hi
      · rw [b.began, ← b.last]
        exact hthrough
      · exact hold i hi

theorem WritersCounted.of_prepare {s : Server} (h : WritersCounted s) {i : Nat} {p : PredXact}
    (hq : Quiet s.pred p) : WritersCounted (s.prepare i p) := by
  have hx : ∀ j, ((s.prepare i p).xact j).stage = (s.xact j).stage ∧
      ((s.prepare i p).xact j).began = (s.xact j).began := by
    intro j
    obtain ⟨_, hx⟩ := s.exists_prepare_xact i j p
    rw [hx]
    exact ⟨rfl, rfl⟩
  have hro : ∀ j, ((s.prepare i p).pred.sxact j).readOnly = (s.pred.sxact j).readOnly := by
    intro j
    obtain ⟨_, _, hx⟩ := s.exists_prepare_sxact i j p
    rw [hx, ← (hq.kept j).readOnly]
  have hset : (s.prepare i p).openWriters = s.openWriters := by
    ext j
    rw [Server.mem_openWriters, Server.mem_openWriters, (hx j).1, hro]
    rfl
  have hclear : (s.prepare i p).pred.canPartialClearThrough = s.pred.canPartialClearThrough :=
    hq.canClear
  refine ⟨?_, ?_, ?_⟩
  · rw [hset, ← h.writable]
    exact hq.writable
  · have hlast : (s.prepare i p).pred.lastSxactCommitSeqNo = s.pred.lastSxactCommitSeqNo + 1 :=
      congrArg (· + 1) hq.last
    rw [hclear, hlast]
    exact Nat.le_succ_of_le h.through
  · intro j hj
    rw [hclear, (hx j).2]
    exact h.began j (hset ▸ hj)

/-- The counters after `ReleasePredicateLocks`. -/
theorem PredXact.release_counters (p : PredXact) (me : Nat) (isCommit didWrite : Bool)
    (nextXid : Nat) :
    let q := p.releasePredicateLocks me isCommit didWrite nextXid
    if (p.sxact me).readOnly then
      q.writableSxactCount = p.writableSxactCount ∧
        q.canPartialClearThrough = p.canPartialClearThrough
    else
      q.writableSxactCount = p.writableSxactCount - 1 ∧
        q.canPartialClearThrough =
          if p.writableSxactCount - 1 = 0 then q.lastSxactCommitSeqNo
          else p.canPartialClearThrough := by
  intro q
  obtain ⟨-, -, -, hw, hc⟩ := PredXact.markEnded_rest (p := p) me isCommit didWrite nextXid
  have hlast : q.lastSxactCommitSeqNo =
      (p.markEnded me isCommit didWrite nextXid).lastSxactCommitSeqNo := by
    rw [PredXact.release_last, PredXact.markEnded_last]
  have hq := PredXact.quiet_settleConflicts
    (p := (p.markEnded me isCommit didWrite nextXid).countOut me (p.sxact me).readOnly)
    me isCommit didWrite (p.sxact me).readOnly
  have hqw : q.writableSxactCount =
      ((p.markEnded me isCommit didWrite nextXid).countOut me
        (p.sxact me).readOnly).writableSxactCount := by
    rw [← hq.writable]
    exact (congrArg _ (PredXact.releasePredicateLocks_eq _ _ _ _)).trans
      (PredXact.dropXmin_rest me).1
  have hqc : q.canPartialClearThrough =
      ((p.markEnded me isCommit didWrite nextXid).countOut me
        (p.sxact me).readOnly).canPartialClearThrough := by
    rw [← hq.canClear]
    exact (congrArg _ (PredXact.releasePredicateLocks_eq _ _ _ _)).trans
      (PredXact.dropXmin_rest me).2.1
  rw [hqw, hqc, hlast]
  cases (p.sxact me).readOnly
  · simp [PredXact.countOut, PredXact.dropWritable, hw, hc]
  · simp [PredXact.countOut, hw, hc]

/-- Who is released is no open writer any more. -/
theorem Released.openWriters {s s' : Server} {i : Nat} {isCommit : Bool}
    (e : Released s s' i isCommit) : s'.openWriters = s.openWriters.erase i := by
  ext j
  rw [Finset.mem_erase]
  by_cases hj : j = i
  · subst hj
    simp [Server.mem_openWriters, e.xact_self]
  · rw [Server.mem_openWriters, Server.mem_openWriters, e.next, e.xact_ne j hj,
      (e.kept_ne j hj).readOnly]
    exact ⟨fun h => ⟨hj, h⟩, And.right⟩

/-- A read-only transaction was not counted. -/
theorem WritersCounted.of_release_reader {s s' : Server} (h : WritersCounted s) {i : Nat}
    {isCommit : Bool} (e : Released s s' i isCommit) (hi : i ∉ s.openWriters)
    (hw : s'.pred.writableSxactCount = s.pred.writableSxactCount)
    (hc : s'.pred.canPartialClearThrough = s.pred.canPartialClearThrough) : WritersCounted s' := by
  have hset : s'.openWriters = s.openWriters := by
    rw [e.openWriters, Finset.erase_eq_of_notMem hi]
  refine ⟨?_, ?_, ?_⟩
  · rw [hset, hw, h.writable]
  · rw [hc]
    exact Nat.le_trans h.through e.le_last
  · intro j hj
    rw [hset] at hj
    rw [hc, e.xact_ne j fun hji => hi (hji ▸ hj)]
    exact h.began j hj

/-- With the last writer gone nobody is left whom the new note could miss. -/
theorem WritersCounted.of_release_writer {s s' : Server} (h : WritersCounted s) {i : Nat}
    {isCommit : Bool} (e : Released s s' i isCommit) (hi : i ∈ s.openWriters)
    (hw : s'.pred.writableSxactCount = s.pred.writableSxactCount - 1)
    (hc : s'.pred.canPartialClearThrough =
      if s.pred.writableSxactCount - 1 = 0 then s'.pred.lastSxactCommitSeqNo
      else s.pred.canPartialClearThrough) : WritersCounted s' := by
  have hcard : s'.openWriters.card = s.pred.writableSxactCount - 1 := by
    rw [e.openWriters, Finset.card_erase_of_mem hi, h.writable]
  refine ⟨hw.trans hcard.symm, ?_, ?_⟩
  · rw [hc]
    split
    · exact Nat.le_refl _
    · exact Nat.le_trans h.through e.le_last
  · intro j hj
    have hne : ¬ s.pred.writableSxactCount - 1 = 0 := by
      rw [← hcard]
      exact Finset.card_ne_zero_of_mem hj
    rw [e.openWriters] at hj
    rw [hc, if_neg hne, e.xact_ne j (Finset.ne_of_mem_erase hj)]
    exact h.began j (Finset.mem_of_mem_erase hj)

theorem WritersCounted.of_release {s : Server} (hn : Numbered s) (h : WritersCounted s) {i : Nat}
    {isCommit : Bool} (hm : s.mayRelease i isCommit = true) :
    WritersCounted (s.released i isCommit) := by
  have e := released s i isCommit
  have ht := Server.tracked_of_mayRelease hm
  have hcount := PredXact.release_counters s.pred i isCommit (s.xact i).myXactDidWrite s.nextXid
  by_cases hro : (s.pred.sxact i).readOnly = true
  · rw [if_pos hro] at hcount
    refine h.of_release_reader e (fun hi => ?_) hcount.1 hcount.2
    have hw := (hn.mem_openWriters.mp hi).2
    exact absurd (hro.symm.trans hw) (by decide)
  · rw [if_neg hro] at hcount
    have hi : i ∈ s.openWriters := hn.mem_openWriters.mpr ⟨ht, by simpa using hro⟩
    exact h.of_release_writer e hi hcount.1 hcount.2

theorem WritersCounted.of_event {s s' : Server} {l : Label} (hn : Numbered s) (h : WritersCounted s)
    (e : Event s s' l) : WritersCounted s' := by
  cases e with
  | still st => exact h.of_still st
  | begin snap ro _ hs => exact h.of_begun (hs ▸ begun s snap ro)
  | prepare i p _ hq _ hs => exact hs ▸ h.of_prepare hq
  | release i b hm hs => exact hs ▸ h.of_release hn hm

/-- `GetSerializableTransactionSnapshotInt` looks at the count. -/
theorem Server.register_optedOut (s : Server) (snap : Snapshot) (ro : Bool) :
    ((s.register snap ro).xact s.next).optedOut = true ↔
      ro = true ∧ s.pred.writableSxactCount = 0 := by
  unfold Server.register PredXact.getSerializableTransactionSnapshotInt
  by_cases h : ro = true ∧ s.pred.writableSxactCount = 0
  · simp [h]
  · cases ro <;> simp_all

/-! ## Every run -/

theorem writersCounted_run {tr : List Label} {s : Server}
    (r : server.Run Machine.Any Server.initial tr s) : Numbered s ∧ WritersCounted s :=
  r.invariant (I := fun s => Numbered s ∧ WritersCounted s)
    (fun _ _ _ _ hs h =>
      have e := Server.event_of_step hs
      ⟨h.1.of_event e, h.2.of_event h.1 e⟩)
    ⟨numbered_initial, writersCounted_initial⟩

/-- When `ClearOldPredicateLocks` releases the locks of a finished transaction early, every
writable transaction that is still open was registered, with a snapshot of its own or with one it
adopted, after that transaction's commit. -/
theorem partial_clear_past_writers {tr : List Label} {s : Server} {i w : Nat}
    (r : server.Run Machine.Any Server.initial tr s)
    (hc : s.pred.clearing i = .partialReadOnly ∨ s.pred.clearing i = .partialReadWrite)
    (ht : (s.xact w).stage = .tracked) (hro : (s.pred.sxact w).readOnly = false) :
    (s.pred.sxact i).commitSeqNo ≤ (s.xact w).began := by
  obtain ⟨hn, h⟩ := writersCounted_run r
  have hthrough : (s.pred.sxact i).commitSeqNo ≤ s.pred.canPartialClearThrough := by
    unfold PredXact.clearing at hc
    split at hc
    · simp at hc
    · split at hc
      · rename_i hle
        exact hle.2
      · simp at hc
  exact hthrough.trans (h.began w (hn.mem_openWriters.mpr ⟨ht, hro⟩))

/-- A reader commits while a writer is open, and can be cleared when the writer has gone and
another one has come. -/
theorem partial_clear_past_writers_reader :
    ∃ tr s, server.Run Machine.Any Server.initial tr s ∧
      s.pred.clearing 2 = .partialReadOnly ∧ (s.xact 4).stage = .tracked ∧
      (s.pred.sxact 2).commitSeqNo ≤ (s.xact 4).began := by
  let tr : List Label :=
    [.begin false, .begin true, .begin true, .otherXid,
      .preCommit 2, .endXact 2 true, .release 2 true,
      .preCommit 1, .endXact 1 true, .release 1 true, .begin false]
  obtain ⟨s, run, h⟩ := server.exists_run (s := Server.initial) tr
    (p := fun s => decide (s.pred.clearing 2 = .partialReadOnly ∧
      (s.xact 4).stage = .tracked ∧ (s.pred.sxact 4).readOnly = false))
    (by decide +kernel)
  obtain ⟨hc, ht, hro⟩ := of_decide_eq_true h
  exact ⟨tr, s, run, hc, ht, partial_clear_past_writers run (.inl hc) ht hro⟩

/-- A transaction goes without a `SERIALIZABLEXACT`, whatever its snapshot, exactly if it is
read-only and is registered while no writable transaction is open. -/
theorem begins_untracked_iff {tr : List Label} {s : Server} {ro : Bool}
    (r : server.Run Machine.Any Server.initial tr s) (snap : Snapshot) :
    ((s.register snap ro).xact s.next).optedOut = true ↔
      ro = true ∧ ∀ w, (s.xact w).stage = .tracked → (s.pred.sxact w).readOnly = true := by
  obtain ⟨hn, h⟩ := writersCounted_run r
  have hopen : s.pred.writableSxactCount = 0 ↔
      ∀ w, (s.xact w).stage = .tracked → (s.pred.sxact w).readOnly = true := by
    rw [h.writable, Finset.card_eq_zero, Finset.eq_empty_iff_forall_notMem]
    refine forall_congr' fun w => ?_
    rw [hn.mem_openWriters]
    simp
  rw [← hopen]
  exact s.register_optedOut snap ro

/-- One writer makes the difference. -/
theorem begins_untracked_iff_writer :
    ∃ s, server.Run Machine.Any Server.initial [.begin false] s ∧
      ((Server.initial.beginXact true).xact Server.initial.next).optedOut = true ∧
      ¬((s.beginXact true).xact s.next).optedOut = true := by
  obtain ⟨s, run, h⟩ := server.exists_run (s := Server.initial) [.begin false]
    (p := fun s => decide ((s.xact 1).stage = .tracked ∧ (s.pred.sxact 1).readOnly = false))
    (by decide +kernel)
  obtain ⟨ht, hro⟩ := of_decide_eq_true h
  refine ⟨s, run, (begins_untracked_iff .nil _).mpr ⟨rfl, fun w hw => by cases hw⟩, ?_⟩
  intro ho
  have hr := ((begins_untracked_iff run _).mp ho).2 1 ht
  exact absurd (hro.symm.trans hr) (by decide)

end BullFrog.Ssi
