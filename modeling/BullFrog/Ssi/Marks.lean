/-
# `BullFrog.Ssi.Marks` — what a step can do to the transactions of others

Most steps of a serializable transaction only set marks in the `SERIALIZABLEXACT`s of others: a
conflict is recorded, somebody is doomed, a snapshot is found to be safe.  `Quiet` says what such
a step leaves alone, once for each function of `predicate.c`.  With it every step of the server
is one of four `Event`s, and an invariant has to look at these four only.
-/
import BullFrog.Ssi.Server

namespace BullFrog.Ssi

/-! ## What marks leave alone -/

/-- What the marks of another transaction do not change in a `SERIALIZABLEXACT`.  It becomes
doomed only while it is not prepared. -/
structure Kept (x y : SerializableXact) : Prop where
  committed : y.committed = x.committed
  prepared : y.prepared = x.prepared
  rolledBack : y.rolledBack = x.rolledBack
  readOnly : y.readOnly = x.readOnly
  prepareSeqNo : y.prepareSeqNo = x.prepareSeqNo
  commitSeqNo : y.commitSeqNo = x.commitSeqNo
  finishedBefore : y.finishedBefore = x.finishedBefore
  xmin : y.xmin = x.xmin
  doomed_mono : x.doomed = true → y.doomed = true
  doomed_from : y.doomed = true → x.doomed = true ∨ x.prepared = false
  roSafe_mono : x.roSafe = true → y.roSafe = true

theorem Kept.refl (x : SerializableXact) : Kept x x :=
  ⟨rfl, rfl, rfl, rfl, rfl, rfl, rfl, rfl, id, .inl, id⟩

theorem Kept.trans {x y z : SerializableXact} (h : Kept x y) (h' : Kept y z) : Kept x z where
  committed := h'.committed.trans h.committed
  prepared := h'.prepared.trans h.prepared
  rolledBack := h'.rolledBack.trans h.rolledBack
  readOnly := h'.readOnly.trans h.readOnly
  prepareSeqNo := h'.prepareSeqNo.trans h.prepareSeqNo
  commitSeqNo := h'.commitSeqNo.trans h.commitSeqNo
  finishedBefore := h'.finishedBefore.trans h.finishedBefore
  xmin := h'.xmin.trans h.xmin
  doomed_mono := fun hd => h'.doomed_mono (h.doomed_mono hd)
  doomed_from := by
    intro hd
    rcases h'.doomed_from hd with hy | hy
    · exact h.doomed_from hy
    · exact .inr (h.prepared ▸ hy)
  roSafe_mono := fun hr => h'.roSafe_mono (h.roSafe_mono hr)

/-- A step that only sets marks: no transaction begins, prepares or ends.  A conflict that
appears has two ends. -/
structure Quiet (p q : PredXact) : Prop where
  kept : ∀ i, Kept (p.sxact i) (q.sxact i)
  last : q.lastSxactCommitSeqNo = p.lastSxactCommitSeqNo
  writable : q.writableSxactCount = p.writableSxactCount
  canClear : q.canPartialClearThrough = p.canPartialClearThrough
  globalXmin : q.sxactGlobalXmin = p.sxactGlobalXmin
  active : q.activeList = p.activeList
  conflicts : ∀ c ∈ q.conflicts, c ∈ p.conflicts ∨ c.1 ≠ c.2
  topXid : ∀ i, (q.sxact i).topXid = (p.sxact i).topXid
  finished : ∀ i ∈ q.finished, i ∈ p.finished

theorem Quiet.refl (p : PredXact) : Quiet p p :=
  ⟨fun _ => .refl _, rfl, rfl, rfl, rfl, rfl, fun _ => .inl, fun _ => rfl, fun _ => id⟩

theorem Quiet.trans {p q r : PredXact} (h : Quiet p q) (h' : Quiet q r) : Quiet p r where
  kept := fun i => (h.kept i).trans (h'.kept i)
  last := h'.last.trans h.last
  writable := h'.writable.trans h.writable
  canClear := h'.canClear.trans h.canClear
  globalXmin := h'.globalXmin.trans h.globalXmin
  active := h'.active.trans h.active
  conflicts := by
    intro c hc
    rcases h'.conflicts c hc with hq | hne
    · exact h.conflicts c hq
    · exact .inr hne
  topXid := fun i => (h'.topXid i).trans (h.topXid i)
  finished := fun i hi => h.finished i (h'.finished i hi)

namespace PredXact

variable {p q : PredXact}

theorem modify_self (i : Nat) (f : SerializableXact → SerializableXact) :
    (p.modify i f).sxact i = f (p.sxact i) := by
  simp [modify]

theorem modify_ne {i j : Nat} (f : SerializableXact → SerializableXact) (h : j ≠ i) :
    (p.modify i f).sxact j = p.sxact j := by
  simp [modify, h]

theorem quiet_modify (i : Nat) {f : SerializableXact → SerializableXact}
    (h : Kept (p.sxact i) (f (p.sxact i)))
    (ht : (f (p.sxact i)).topXid = (p.sxact i).topXid) : Quiet p (p.modify i f) where
  kept := by
    intro j
    by_cases hj : j = i
    · subst hj
      rw [modify_self]
      exact h
    · rw [modify_ne f hj]
      exact .refl _
  last := rfl
  writable := rfl
  canClear := rfl
  globalXmin := rfl
  active := rfl
  conflicts := fun _ => .inl
  topXid := by
    intro j
    by_cases hj : j = i
    · subst hj
      rw [modify_self]
      exact ht
    · rw [modify_ne f hj]
  finished := fun _ => id

theorem quiet_doom {i : Nat} (h : (p.sxact i).prepared = false) : Quiet p (p.doom i) :=
  quiet_modify i ⟨rfl, rfl, rfl, rfl, rfl, rfl, rfl, rfl, fun _ => rfl, fun _ => .inr h, id⟩ rfl

theorem quiet_onConflict {me reader writer : Nat}
    (h : p.onConflictCheckForSerializationFailure me reader writer = .ok q) : Quiet p q := by
  unfold onConflictCheckForSerializationFailure at h
  split at h
  · split at h
    · cases h
    · split at h
      · cases h
      · rename_i hprep
        cases h
        exact quiet_doom (by simpa using hprep)
  · cases h
    exact .refl _

theorem quiet_flagRWConflict {me reader writer : Nat} (hne : reader ≠ writer)
    (h : p.flagRWConflict me reader writer = .ok q) : Quiet p q := by
  unfold flagRWConflict at h
  cases hc : p.onConflictCheckForSerializationFailure me reader writer with
  | error e => rw [hc] at h; cases h
  | ok r =>
      rw [hc] at h
      cases h
      refine (quiet_onConflict hc).trans ?_
      split
      · exact quiet_modify _ ⟨rfl, rfl, rfl, rfl, rfl, rfl, rfl, rfl, id, .inl, id⟩ rfl
      · split
        · exact quiet_modify _ ⟨rfl, rfl, rfl, rfl, rfl, rfl, rfl, rfl, id, .inl, id⟩ rfl
        · refine ⟨fun _ => .refl _, rfl, rfl, rfl, rfl, rfl, ?_, fun _ => rfl, fun _ => id⟩
          intro c hc
          rcases List.mem_append.mp hc with hc | hc
          · exact .inl hc
          · rw [List.mem_singleton.mp hc]
            exact .inr hne

theorem quiet_checkLockForConflictIn {me holder : Nat} {snap : Snapshot} (hne : holder ≠ me)
    (h : p.checkLockForConflictIn me snap holder = .ok q) : Quiet p q := by
  unfold checkLockForConflictIn at h
  split at h
  · exact quiet_flagRWConflict hne h
  · cases h
    exact .refl _

theorem quiet_checkLockForTableConflictIn {me holder : Nat} (hne : holder ≠ me)
    (h : p.checkLockForTableConflictIn me holder = .ok q) : Quiet p q := by
  unfold checkLockForTableConflictIn at h
  split at h
  · exact quiet_flagRWConflict hne h
  · cases h
    exact .refl _

theorem quiet_checkOldConflictOut {me xid : Nat}
    (h : p.checkOldConflictOut me xid = .ok q) : Quiet p q := by
  have mark : Quiet p (p.modify me fun x => { x with summaryConflictOut := true }) :=
    quiet_modify _ ⟨rfl, rfl, rfl, rfl, rfl, rfl, rfl, rfl, id, .inl, id⟩ rfl
  simp only [checkOldConflictOut] at h
  split at h
  · cases h
    exact .refl _
  · split at h
    · cases h
    · cases h
      exact mark
  · split at h
    · cases h
    · split at h
      · cases h
      · cases h
        exact mark

theorem quiet_checkSxactConflictOut {me xid w : Nat} {snap : Snapshot}
    (h : p.checkSxactConflictOut me snap xid w = .ok q) : Quiet p q := by
  unfold checkSxactConflictOut at h
  split at h
  · cases h
    exact .refl _
  · rename_i hw
    have hne : me ≠ w := by
      rintro rfl
      simp at hw
    split at h
    · split at h
      · rename_i hprep
        cases h
        exact quiet_doom (by simpa using hprep)
      · cases h
    · split at h
      · cases h
        exact .refl _
      · split at h
        · cases h
          exact .refl _
        · split at h
          · cases h
            exact .refl _
          · exact quiet_flagRWConflict hne h

theorem quiet_checkForSerializableConflictOut {me : Nat} {snap : Snapshot} {visible : Bool}
    {t : HeapTuple} (h : p.checkForSerializableConflictOut me snap visible t = .ok q) :
    Quiet p q := by
  unfold checkForSerializableConflictOut at h
  split at h
  · cases h
  · split at h
    · cases h
      exact .refl _
    · split at h
      · cases h
        exact .refl _
      · split at h
        · cases h
          exact .refl _
        · split at h
          · exact quiet_checkOldConflictOut h
          · exact quiet_checkSxactConflictOut h

theorem quiet_checkNearConflicts (me : Nat) (l : List Nat) (p : PredXact) :
    Quiet p (checkNearConflicts me l p).1 := by
  induction l generalizing p with
  | nil => exact .refl _
  | cons near rest ih =>
      unfold checkNearConflicts
      split
      · split
        · exact .refl _
        · rename_i hprep
          exact (quiet_doom (by simpa using hprep)).trans (ih _)
      · exact ih _

theorem quiet_createPredicateLock (i : Nat) (t : TargetTag) :
    Quiet p (p.createPredicateLock i t) := by
  unfold createPredicateLock
  split
  · exact .refl _
  · exact quiet_modify _ ⟨rfl, rfl, rfl, rfl, rfl, rfl, rfl, rfl, id, .inl, id⟩ rfl

theorem quiet_removeOwnLock (i : Nat) (t : TargetTag) : Quiet p (p.removeOwnLock i t) :=
  quiet_modify _ ⟨rfl, rfl, rfl, rfl, rfl, rfl, rfl, rfl, id, .inl, id⟩ rfl

theorem quiet_releaseLocks (i : Nat) (summarize : Bool) : Quiet p (p.releaseLocks i summarize) := by
  have drop : ∀ q : PredXact, Quiet q (q.modify i fun x => { x with predicateLocks := [] }) :=
    fun q => quiet_modify _ ⟨rfl, rfl, rfl, rfl, rfl, rfl, rfl, rfl, id, .inl, id⟩ rfl
  simp only [releaseLocks]
  split
  · exact (quiet_modify _ ⟨rfl, rfl, rfl, rfl, rfl, rfl, rfl, rfl, id, .inl, id⟩ rfl).trans (drop _)
  · exact drop _

theorem quiet_clearOldLocks : Quiet p p.clearOldLocks :=
  quiet_modify _ ⟨rfl, rfl, rfl, rfl, rfl, rfl, rfl, rfl, id, .inl, id⟩ rfl

theorem quiet_summarizeSxact (i : Nat) : Quiet p (p.summarizeSxact i) := by
  simp only [summarizeSxact]
  have off : Quiet p { p with finished := p.finished.filter fun j => j != i } :=
    ⟨fun _ => .refl _, rfl, rfl, rfl, rfl, rfl, fun _ => .inl, fun _ => rfl,
      fun _ => List.mem_of_mem_filter⟩
  split
  · refine (off.trans ?_).trans (quiet_releaseLocks i true)
    exact ⟨fun _ => .refl _, rfl, rfl, rfl, rfl, rfl, fun _ => .inl, fun _ => rfl, fun _ => id⟩
  · exact off.trans (quiet_releaseLocks i true)

theorem kept_summarizeConflicts (i j : Nat) :
    Kept (p.sxact j) ((p.summarizeConflicts i).sxact j) :=
  ⟨rfl, rfl, rfl, rfl, rfl, rfl, rfl, rfl, id, .inl, id⟩

/-! ## The end of a transaction

`ReleasePredicateLocks` marks its own transaction, adjusts the counters, and then only sets
marks again until it comes to the global xmin. -/

/-- The part of `releasePredicateLocks` between the counters and the global xmin. -/
def settleConflicts (p : PredXact) (me : Nat) (isCommit didWrite readOnly : Bool) : PredXact :=
  let s := p.noteSummaryConflictOut me isCommit
  let s := noteOutConflicts me isCommit (s.outConflicts me) s
  let s := s.releaseOutConflicts me isCommit
  let s := s.releaseInConflicts me isCommit
  if !readOnly then
    ((s.possibleUnsafe.filter fun c => c.1 == me).map Prod.snd).foldl
      (fun s ro => s.settlePossibleUnsafe me isCommit didWrite ro) s
  else s

/-- Its part before. -/
def markEnded (p : PredXact) (me : Nat) (isCommit didWrite : Bool) (nextXid : Nat) : PredXact :=
  let s := p.modify me fun x => { x with finishedBefore := nextXid }
  if isCommit then s.markCommitted me didWrite else s.markRolledBack me

/-- The counters. -/
def countOut (p : PredXact) (me : Nat) (readOnly : Bool) : PredXact :=
  if !readOnly then p.dropWritable
  else { p with possibleUnsafe := p.possibleUnsafe.filter fun c => c.2 != me }

theorem releasePredicateLocks_eq (me : Nat) (isCommit didWrite : Bool) (nextXid : Nat) :
    p.releasePredicateLocks me isCommit didWrite nextXid =
      ((((p.markEnded me isCommit didWrite nextXid).countOut me (p.sxact me).readOnly)
        ).settleConflicts me isCommit didWrite (p.sxact me).readOnly).dropXmin me := rfl

theorem quiet_noteOutConflicts (me : Nat) (isCommit : Bool) (l : List Nat) (p : PredXact) :
    Quiet p (noteOutConflicts me isCommit l p) := by
  induction l generalizing p with
  | nil => exact .refl _
  | cons w rest ih =>
      unfold noteOutConflicts
      refine Quiet.trans ?_ (ih _)
      split
      · exact quiet_modify _ ⟨rfl, rfl, rfl, rfl, rfl, rfl, rfl, rfl, id, .inl, id⟩ rfl
      · exact .refl _

theorem quiet_judgeRoXact (me ro : Nat) (isCommit didWrite : Bool) :
    Quiet p (p.judgeRoXact me isCommit didWrite ro) := by
  unfold judgeRoXact
  split
  · exact (quiet_modify ro ⟨rfl, rfl, rfl, rfl, rfl, rfl, rfl, rfl, id, .inl, id⟩ rfl :
      Quiet p (p.modify ro fun x => { x with roUnsafe := true })).trans
        ⟨fun _ => .refl _, rfl, rfl, rfl, rfl, rfl, fun _ => .inl, fun _ => rfl, fun _ => id⟩
  · have drop : Quiet p
        { p with possibleUnsafe := p.possibleUnsafe.filter fun c => c != (me, ro) } :=
      ⟨fun _ => .refl _, rfl, rfl, rfl, rfl, rfl, fun _ => .inl, fun _ => rfl, fun _ => id⟩
    simp only
    split
    · exact drop.trans
        (quiet_modify ro ⟨rfl, rfl, rfl, rfl, rfl, rfl, rfl, rfl, id, .inl, fun _ => rfl⟩ rfl)
    · exact drop

theorem quiet_wakeRoXact (ro : Nat) : Quiet p (p.wakeRoXact ro) := by
  unfold wakeRoXact
  split
  · exact ⟨fun _ => .refl _, rfl, rfl, rfl, rfl, rfl, fun _ => .inl, fun _ => rfl, fun _ => id⟩
  · exact .refl _

theorem quiet_settlePossibleUnsafe (me : Nat) (isCommit didWrite : Bool) (l : List Nat)
    (p : PredXact) :
    Quiet p (l.foldl (fun s ro => s.settlePossibleUnsafe me isCommit didWrite ro) p) := by
  induction l generalizing p with
  | nil => exact .refl _
  | cons ro rest ih =>
      exact ((quiet_judgeRoXact me ro isCommit didWrite).trans (quiet_wakeRoXact ro)).trans (ih _)

theorem quiet_noteSummaryConflictOut (me : Nat) (isCommit : Bool) :
    Quiet p (p.noteSummaryConflictOut me isCommit) := by
  unfold noteSummaryConflictOut
  split
  · exact quiet_modify _ ⟨rfl, rfl, rfl, rfl, rfl, rfl, rfl, rfl, id, .inl, id⟩ rfl
  · exact .refl _

theorem quiet_releaseOutConflicts (me : Nat) (isCommit : Bool) :
    Quiet p (p.releaseOutConflicts me isCommit) :=
  ⟨fun _ => .refl _, rfl, rfl, rfl, rfl, rfl, fun _ hc => .inl (List.mem_of_mem_filter hc),
    fun _ => rfl, fun _ => id⟩

theorem quiet_releaseInConflicts (me : Nat) (isCommit : Bool) :
    Quiet p (p.releaseInConflicts me isCommit) :=
  ⟨fun _ => .refl _, rfl, rfl, rfl, rfl, rfl, fun _ hc => .inl (List.mem_of_mem_filter hc),
    fun _ => rfl, fun _ => id⟩

theorem quiet_settleConflicts (me : Nat) (isCommit didWrite readOnly : Bool) :
    Quiet p (p.settleConflicts me isCommit didWrite readOnly) := by
  have loops :=
    ((((quiet_noteSummaryConflictOut (p := p) me isCommit).trans
      (quiet_noteOutConflicts me isCommit
        ((p.noteSummaryConflictOut me isCommit).outConflicts me) _)).trans
        (quiet_releaseOutConflicts me isCommit)).trans (quiet_releaseInConflicts me isCommit))
  simp only [settleConflicts]
  split
  · exact loops.trans (quiet_settlePossibleUnsafe me isCommit didWrite _ _)
  · exact loops

/-- The global xmin is the business of `dropXmin` alone. -/
theorem dropXmin_sxact (me : Nat) : (p.dropXmin me).sxact = p.sxact := by
  simp only [dropXmin, setNewSxactGlobalXmin, oldSerXidSetActiveSerXmin]
  repeat' split
  all_goals rfl

theorem dropXmin_last (me : Nat) :
    (p.dropXmin me).lastSxactCommitSeqNo = p.lastSxactCommitSeqNo := by
  simp only [dropXmin, setNewSxactGlobalXmin, oldSerXidSetActiveSerXmin]
  repeat' split
  all_goals rfl

theorem dropXmin_rest (me : Nat) :
    (p.dropXmin me).writableSxactCount = p.writableSxactCount ∧
      (p.dropXmin me).canPartialClearThrough = p.canPartialClearThrough ∧
      (p.dropXmin me).activeList = p.activeList ∧ (p.dropXmin me).conflicts = p.conflicts := by
  simp only [dropXmin, setNewSxactGlobalXmin, oldSerXidSetActiveSerXmin]
  repeat' split
  all_goals exact ⟨rfl, rfl, rfl, rfl⟩

theorem countOut_sxact (me : Nat) (readOnly : Bool) : (p.countOut me readOnly).sxact = p.sxact := by
  unfold countOut
  split <;> rfl

theorem countOut_last (me : Nat) (readOnly : Bool) :
    (p.countOut me readOnly).lastSxactCommitSeqNo = p.lastSxactCommitSeqNo := by
  unfold countOut
  split <;> rfl

theorem countOut_rest (me : Nat) (readOnly : Bool) :
    (p.countOut me readOnly).activeList = p.activeList ∧
      (p.countOut me readOnly).conflicts = p.conflicts ∧
      (p.countOut me readOnly).sxactGlobalXmin = p.sxactGlobalXmin := by
  unfold countOut
  split <;> exact ⟨rfl, rfl, rfl⟩

theorem markEnded_ne {me j : Nat} (isCommit didWrite : Bool) (nextXid : Nat) (h : j ≠ me) :
    (p.markEnded me isCommit didWrite nextXid).sxact j = p.sxact j := by
  cases isCommit <;> simp [markEnded, markCommitted, markRolledBack, modify, h]

theorem markEnded_self (me : Nat) (isCommit didWrite : Bool) (nextXid : Nat) :
    (p.markEnded me isCommit didWrite nextXid).sxact me =
      if isCommit then
        { p.sxact me with
          finishedBefore := nextXid
          committed := true
          commitSeqNo := p.lastSxactCommitSeqNo + 1
          readOnly := (p.sxact me).readOnly || !didWrite }
      else
        { p.sxact me with
          finishedBefore := nextXid, doomed := true, rolledBack := true, prepared := false } := by
  cases isCommit <;> simp [markEnded, markCommitted, markRolledBack, modify]

theorem markEnded_last (me : Nat) (isCommit didWrite : Bool) (nextXid : Nat) :
    (p.markEnded me isCommit didWrite nextXid).lastSxactCommitSeqNo =
      if isCommit then p.lastSxactCommitSeqNo + 1 else p.lastSxactCommitSeqNo := by
  cases isCommit <;> rfl

theorem markEnded_rest (me : Nat) (isCommit didWrite : Bool) (nextXid : Nat) :
    (p.markEnded me isCommit didWrite nextXid).activeList = p.activeList ∧
      (p.markEnded me isCommit didWrite nextXid).conflicts = p.conflicts ∧
      (p.markEnded me isCommit didWrite nextXid).sxactGlobalXmin = p.sxactGlobalXmin ∧
      (p.markEnded me isCommit didWrite nextXid).writableSxactCount = p.writableSxactCount ∧
      (p.markEnded me isCommit didWrite nextXid).canPartialClearThrough =
        p.canPartialClearThrough := by
  cases isCommit <;> exact ⟨rfl, rfl, rfl, rfl, rfl⟩

/-- After its own marks, `ReleasePredicateLocks` keeps every `SERIALIZABLEXACT`. -/
theorem kept_release (me j : Nat) (isCommit didWrite : Bool) (nextXid : Nat) :
    Kept ((p.markEnded me isCommit didWrite nextXid).sxact j)
      ((p.releasePredicateLocks me isCommit didWrite nextXid).sxact j) := by
  rw [releasePredicateLocks_eq, dropXmin_sxact]
  have h := (quiet_settleConflicts
    (p := (p.markEnded me isCommit didWrite nextXid).countOut me (p.sxact me).readOnly)
    me isCommit didWrite (p.sxact me).readOnly).kept j
  rwa [countOut_sxact] at h

theorem release_last (me : Nat) (isCommit didWrite : Bool) (nextXid : Nat) :
    (p.releasePredicateLocks me isCommit didWrite nextXid).lastSxactCommitSeqNo =
      if isCommit then p.lastSxactCommitSeqNo + 1 else p.lastSxactCommitSeqNo := by
  rw [releasePredicateLocks_eq, dropXmin_last, (quiet_settleConflicts _ _ _ _).last, countOut_last,
    markEnded_last]

theorem release_conflicts {me : Nat} {isCommit didWrite : Bool} {nextXid : Nat}
    (h : ∀ c ∈ p.conflicts, c.1 ≠ c.2) :
    ∀ c ∈ (p.releasePredicateLocks me isCommit didWrite nextXid).conflicts, c.1 ≠ c.2 := by
  intro c hc
  rw [releasePredicateLocks_eq, (dropXmin_rest _).2.2.2] at hc
  rcases (quiet_settleConflicts _ _ _ _).conflicts c hc with hc | hne
  · rw [(countOut_rest _ _).2.1, (markEnded_rest _ _ _ _).2.1] at hc
    exact h c hc
  · exact hne

theorem mem_inConflicts {i j : Nat} : j ∈ p.inConflicts i ↔ (j, i) ∈ p.conflicts := by
  simp [inConflicts]

theorem checkNearConflicts_doomed {me : Nat} {l : List Nat} (hl : me ∉ l) (p : PredXact) :
    ((checkNearConflicts me l p).1.sxact me).doomed = (p.sxact me).doomed := by
  induction l generalizing p with
  | nil => rfl
  | cons near rest ih =>
      obtain ⟨hnear, hrest⟩ := not_or.mp (mt List.mem_cons.mpr hl)
      unfold checkNearConflicts
      split
      · split
        · rfl
        · rw [ih hrest, doom, modify_ne _ hnear]
      · exact ih hrest p

end PredXact

/-! ## What a step does -/

namespace PredXact

variable {p q : PredXact} {i topXid : Nat} {snap : Snapshot} {ro : Bool}

theorem noteXmin_rest (xmin : Nat) :
    (p.noteXmin xmin).sxact = p.sxact ∧
      (p.noteXmin xmin).lastSxactCommitSeqNo = p.lastSxactCommitSeqNo ∧
      (p.noteXmin xmin).writableSxactCount = p.writableSxactCount ∧
      (p.noteXmin xmin).canPartialClearThrough = p.canPartialClearThrough ∧
      (p.noteXmin xmin).activeList = p.activeList ∧ (p.noteXmin xmin).conflicts = p.conflicts := by
  unfold noteXmin oldSerXidSetActiveSerXmin
  repeat' split
  all_goals exact ⟨rfl, rfl, rfl, rfl, rfl, rfl⟩

/-- A new `SERIALIZABLEXACT` beside the others. -/
theorem begin_sxact (h : p.getSerializableTransactionSnapshotInt i snap ro topXid = some q) :
    q.sxact = Function.update p.sxact i
      { seqNo := p.lastSxactCommitSeqNo, topXid := topXid, xmin := snap.xmin, readOnly := ro } := by
  obtain ⟨hs, hl, -⟩ := noteXmin_rest (p := p) snap.xmin
  unfold getSerializableTransactionSnapshotInt at h
  split at h
  · cases h
  · simp only at h
    split at h
    all_goals
      cases h
      simp only [hs, hl]

theorem begin_rest (h : p.getSerializableTransactionSnapshotInt i snap ro topXid = some q) :
    q.lastSxactCommitSeqNo = p.lastSxactCommitSeqNo ∧ q.conflicts = p.conflicts ∧
      q.activeList = p.activeList ++ [i] ∧
      q.canPartialClearThrough = p.canPartialClearThrough ∧
      q.writableSxactCount = (if ro then p.writableSxactCount else p.writableSxactCount + 1) ∧
      q.sxactGlobalXmin = (p.noteXmin snap.xmin).sxactGlobalXmin := by
  obtain ⟨-, hl, hw, hc, ha, hf⟩ := noteXmin_rest (p := p) snap.xmin
  unfold getSerializableTransactionSnapshotInt at h
  split at h
  · cases h
  · simp only at h
    split at h
    all_goals
      rename_i hro
      cases h
      simp only [hl, hw, hc, ha, hf, hro]
      simp

end PredXact

/-- How a transaction's own data moves in a step that neither begins, prepares nor releases
it. -/
structure Moved (x y : Xact) : Prop where
  began : y.began = x.began
  xactReadOnly : y.xactReadOnly = x.xactReadOnly
  snapshot : y.snapshot = x.snapshot
  optedOut : y.optedOut = x.optedOut
  stage : y.stage = x.stage ∨ x.stage = .released ∧ y.stage = .untracked
  phase : y.phase = x.phase ∨ (x.phase = .running ∧ y.phase = .failed) ∨
    (x.phase = .running ∧ y.phase = .prepared ∧ x.stage = .untracked) ∨
      ∃ b, y.phase = .ended b ∧ (∀ b', x.phase ≠ .ended b') ∧ (b = true → x.phase = .prepared)

theorem Moved.refl (x : Xact) : Moved x x :=
  ⟨rfl, rfl, rfl, rfl, .inl rfl, .inl rfl⟩

/-- A transaction that is past `ReleasePredicateLocks` and not thrown away yet: it is on the list
of the finished ones or in the middle of `ReleaseOneSerializableXact`. -/
def Server.Handed (s : Server) (i : Nat) : Prop :=
  i ∈ s.pred.finished ∨ ∃ flags, s.releasing = some (i, flags)

/-- A step in which nobody begins, prepares or releases. -/
structure Still (s s' : Server) : Prop where
  kept : ∀ i, Kept (s.pred.sxact i) (s'.pred.sxact i)
  last : s'.pred.lastSxactCommitSeqNo = s.pred.lastSxactCommitSeqNo
  writable : s'.pred.writableSxactCount = s.pred.writableSxactCount
  canClear : s'.pred.canPartialClearThrough = s.pred.canPartialClearThrough
  globalXmin : s'.pred.sxactGlobalXmin = s.pred.sxactGlobalXmin
  conflicts : ∀ c ∈ s'.pred.conflicts, c ∈ s.pred.conflicts ∨ c.1 ≠ c.2
  active : ∀ i ∈ s.pred.activeList, i ∈ s'.pred.activeList ∨ ∃ f, s.releasing = some (i, f)
  active_from : ∀ i ∈ s'.pred.activeList, i ∈ s.pred.activeList
  next : s'.next = s.next
  xact : ∀ i, Moved (s.xact i) (s'.xact i)
  topXid : ∀ i, (s'.pred.sxact i).topXid = (s.pred.sxact i).topXid ∨
    (s'.pred.sxact i).topXid = s.nextXid ∧ s.nextXid < s'.nextXid
  handed : ∀ i, s'.Handed i → s.Handed i ∨
    (s.xact i).stage = .released ∧ (s'.xact i).stage = .untracked

theorem Still.of_quiet_handing {s s' : Server} (h : Quiet s.pred s'.pred) (hn : s'.next = s.next)
    (hx : ∀ i, Moved (s.xact i) (s'.xact i))
    (hr : ∀ i flags, s'.releasing = some (i, flags) → s.Handed i ∨
      (s.xact i).stage = .released ∧ (s'.xact i).stage = .untracked) : Still s s' where
  kept := h.kept
  last := h.last
  writable := h.writable
  canClear := h.canClear
  globalXmin := h.globalXmin
  conflicts := h.conflicts
  active := fun _ hi => .inl (h.active ▸ hi)
  active_from := fun _ hi => h.active ▸ hi
  next := hn
  xact := hx
  topXid := fun i => .inl (h.topXid i)
  handed := by
    rintro i (hi | ⟨flags, hi⟩)
    · exact .inl (.inl (h.finished i hi))
    · exact hr i flags hi

theorem Still.of_quiet {s s' : Server} (h : Quiet s.pred s'.pred) (hn : s'.next = s.next)
    (hr : s'.releasing = s.releasing) (hx : ∀ i, Moved (s.xact i) (s'.xact i)) : Still s s' :=
  .of_quiet_handing h hn hx fun _ flags hi => .inl (.inr ⟨flags, hr ▸ hi⟩)

theorem moved_modify {s : Server} {i : Nat} {f : Xact → Xact} (h : Moved (s.xact i) (f (s.xact i)))
    (j : Nat) : Moved (s.xact j) ((s.modifyXact i f).xact j) := by
  by_cases hj : j = i
  · subst hj
    simpa [Server.modifyXact] using h
  · simpa [Server.modifyXact, hj] using Moved.refl (s.xact j)

/-- The transaction passes its last check. -/
def Server.prepare (s : Server) (i : Nat) (p : PredXact) : Server :=
  { s with pred := p.setPrepared i }.modifyXact i fun x => { x with phase := .prepared }

/-- It enters `ReleasePredicateLocks`. -/
def Server.released (s : Server) (i : Nat) (isCommit : Bool) : Server :=
  { s with
    pred := s.pred.releasePredicateLocks i isCommit (s.xact i).myXactDidWrite s.nextXid
  }.modifyXact i fun x => { x with stage := .released }

/-- Where the snapshot of a new transaction comes from. -/
def Server.Gives (s : Server) (snap : Snapshot) (ro : Bool) (l : Label) : Prop :=
  snap = s.getSnapshotData ∨
    ∃ i, l = .importSnapshot i ro ∧ s.mayImport i ro = true ∧ snap = s.exportSnapshot i

/-- Every step is still, or is one of three others. -/
inductive Event (s s' : Server) (l : Label) : Prop
  | still (h : Still s s')
  | begin (snap : Snapshot) (ro : Bool) (hg : s.Gives snap ro l) (h : s' = s.register snap ro)
  | prepare (i : Nat) (p : PredXact) (hw : s.working i = true) (hq : Quiet s.pred p)
      (hd : (i, i) ∉ s.pred.conflicts → (p.sxact i).doomed = false) (h : s' = s.prepare i p)
  | release (i : Nat) (isCommit : Bool) (hm : s.mayRelease i isCommit = true)
      (h : s' = s.released i isCommit)

namespace Server

variable {s s' : Server} {l : Label}

theorem event_preCommit {i : Nat} (h : s.step (.preCommit i) = some s') : Event s s' l := by
  simp only [step] at h
  split at h
  · rename_i hw
    split at h
    · rename_i p hp
      cases h
      unfold PredXact.preCommitCheckForSerializationFailure at hp
      split at hp
      · cases hp
      · rename_i hd
        split at hp
        · cases hp
        · rename_i q hq
          cases hp
          have hq' : q = (PredXact.checkNearConflicts i (s.pred.inConflicts i) s.pred).1 := by
            rw [hq]
          refine .prepare i q hw (hq' ▸ PredXact.quiet_checkNearConflicts i _ _) ?_ rfl
          intro hself
          rw [hq', PredXact.checkNearConflicts_doomed (mt PredXact.mem_inConflicts.mp hself)]
          simpa using hd
    · rename_i p e hp
      cases h
      have hrun : (s.xact i).phase = .running := by
        simp only [working, Bool.and_eq_true, beq_iff_eq] at hw
        exact hw.1
      have hq : Quiet s.pred p := by
        unfold PredXact.preCommitCheckForSerializationFailure at hp
        split at hp
        · cases hp
          exact .refl _
        · split at hp
          · rename_i q e' hq
            cases hp
            have := PredXact.quiet_checkNearConflicts i (s.pred.inConflicts i) s.pred
            rw [hq] at this
            exact this
          · cases hp
      refine .still (.of_quiet hq rfl rfl ?_)
      exact moved_modify (s := { s with pred := p })
        ⟨rfl, rfl, rfl, rfl, .inl rfl, .inr (.inl ⟨hrun, rfl⟩)⟩
  · split at h
    · rename_i hrun
      cases h
      simp only [Bool.and_eq_true, beq_iff_eq] at hrun
      exact .still (.of_quiet (.refl _) rfl rfl
        (moved_modify ⟨rfl, rfl, rfl, rfl, .inl rfl, .inr (.inr (.inl ⟨hrun.1, rfl, hrun.2⟩))⟩))
    · cases h

theorem event_endXact {i : Nat} {b : Bool} (h : s.step (.endXact i b) = some s') :
    Event s s' l := by
  simp only [step] at h
  split at h
  · rename_i hm
    have hopen : (∀ b', (s.xact i).phase ≠ .ended b') ∧
        (b = true → (s.xact i).phase = .prepared) := by
      simp only [mayEnd, Bool.and_eq_true] at hm
      cases hp : (s.xact i).phase <;> simp_all
    have hmoved := moved_modify (s := s) (i := i) (f := fun x => { x with phase := .ended b })
      ⟨rfl, rfl, rfl, rfl, .inl rfl, .inr (.inr (.inr ⟨b, rfl, hopen⟩))⟩
    split at h
    · cases h
      exact .still (.of_quiet (.refl _) rfl rfl hmoved)
    · cases h
      exact .still (.of_quiet (.refl _) rfl rfl hmoved)
  · cases h

theorem quiet_offFinished (i : Nat) : Quiet s.pred (s.offFinished i) :=
  ⟨fun _ => .refl _, rfl, rfl, rfl, rfl, rfl, fun _ => .inl, fun _ => rfl,
    fun _ => List.mem_of_mem_filter⟩

theorem event_clear {i : Nat} (h : s.step (.clear i) = some s') : Event s s' l := by
  have note : ∀ (q : PredXact) (n : Nat), Quiet q { q with havePartialClearedThrough := n } :=
    fun q n =>
      ⟨fun _ => .refl _, rfl, rfl, rfl, rfl, rfl, fun _ => .inl, fun _ => rfl, fun _ => id⟩
  simp only [step] at h
  split at h
  · rename_i hf
    simp only [Bool.and_eq_true, List.contains_iff_mem] at hf
    have handed : ∀ (flags : Bool × Bool) (j : Nat) (flags' : Bool × Bool),
        some (i, flags) = some (j, flags') → s.Handed j ∨
          (s.xact j).stage = .released ∧ (s.xact j).stage = .untracked := by
      intro _ _ _ he
      cases he
      exact .inl (.inl hf.1)
    unfold clearTurn at h
    split at h
    · cases h
      exact .still (.of_quiet_handing ((quiet_offFinished i).trans
        (PredXact.quiet_releaseLocks i false)) rfl (fun _ => .refl _) (handed _))
    · cases h
      exact .still (.of_quiet_handing (((quiet_offFinished i).trans
        (PredXact.quiet_releaseLocks i false)).trans (note _ _)) rfl (fun _ => .refl _) (handed _))
    · cases h
      exact .still (.of_quiet_handing ((PredXact.quiet_releaseLocks i false).trans (note _ _)) rfl
        (fun _ => .refl _) (handed _))
    · cases h
  · cases h

theorem event_finish {i : Nat} (h : s.step (.finish i) = some s') : Event s s' l := by
  simp only [step] at h
  split at h
  · rename_i hst
    simp only [Bool.and_eq_true, beq_iff_eq] at hst
    have hmoved := moved_modify (s := s) (i := i) (f := fun x => { x with stage := .untracked })
      ⟨rfl, rfl, rfl, rfl, .inr ⟨hst.1, rfl⟩, .inl rfl⟩
    have hstage : (s.xact i).stage = .released ∧
        ((s.modifyXact i fun x => { x with stage := .untracked }).xact i).stage = .untracked :=
      ⟨hst.1, by simp [modifyXact]⟩
    cases h
    unfold finishRelease
    split
    · refine .still ⟨fun _ => .refl _, rfl, rfl, rfl, rfl, fun _ => .inl, fun _ => .inl,
        fun _ => id, rfl, hmoved, fun _ => .inl rfl, ?_⟩
      rintro j (hj | hj)
      · rcases List.mem_append.mp hj with hj | hj
        · exact .inl (.inl hj)
        · exact .inr (List.mem_singleton.mp hj ▸ hstage)
      · exact .inl (.inr hj)
    · refine .still (.of_quiet_handing (PredXact.quiet_releaseLocks i false) rfl hmoved ?_)
      intro j _ he
      cases he
      exact .inr hstage
  · cases h

theorem event_releaseConflicts (h : s.step .releaseConflicts = some s') : Event s s' l := by
  simp only [step] at h
  split at h
  · rename_i i isPartial summarize hr
    cases h
    refine .still ?_
    have kept : ∀ j, Kept (s.pred.sxact j)
        ((s.pred.releaseConflicts i isPartial summarize).sxact j) := by
      intro j
      simp only [PredXact.releaseConflicts]
      cases summarize <;> cases isPartial
      all_goals first
        | exact .refl _
        | exact PredXact.kept_summarizeConflicts i j
    have rest : (∀ j, ((s.pred.releaseConflicts i isPartial summarize).sxact j).topXid =
        (s.pred.sxact j).topXid) ∧
        (s.pred.releaseConflicts i isPartial summarize).finished = s.pred.finished := by
      simp only [PredXact.releaseConflicts]
      cases summarize <;> cases isPartial <;> exact ⟨fun _ => rfl, rfl⟩
    have backward : ∀ j ∈ (s.pred.releaseConflicts i isPartial summarize).activeList,
        j ∈ s.pred.activeList := by
      intro j hj
      simp only [PredXact.releaseConflicts] at hj
      cases summarize <;> cases isPartial
      all_goals first
        | exact hj
        | exact List.mem_of_mem_filter hj
    have handed : ∀ j, Server.Handed { s with
        pred := s.pred.releaseConflicts i isPartial summarize, releasing := none } j →
        s.Handed j := by
      rintro j (hj | ⟨_, hj⟩)
      · exact .inl (rest.2 ▸ hj)
      · cases hj
    refine ⟨kept, ?_, ?_, ?_, ?_, ?_, ?_, backward, rfl, fun _ => .refl _, fun j => .inl (rest.1 j),
      fun j hj => .inl (handed j hj)⟩
    all_goals simp only [PredXact.releaseConflicts]
    · cases summarize <;> cases isPartial <;> rfl
    · cases summarize <;> cases isPartial <;> rfl
    · cases summarize <;> cases isPartial <;> rfl
    · cases summarize <;> cases isPartial <;> rfl
    · intro c hc
      left
      cases summarize <;> cases isPartial <;> exact List.mem_of_mem_filter hc
    · intro j hj
      by_cases hji : j = i
      · exact .inr ⟨(isPartial, summarize), hji ▸ hr⟩
      · left
        cases summarize <;> cases isPartial
        all_goals first
          | exact hj
          | exact List.mem_filter.mpr ⟨hj, by simpa using hji⟩
  · cases h

/-- A transaction marks its own `SERIALIZABLEXACT` as waiting for a safe snapshot, or no longer
waiting. -/
theorem still_waiting (i : Nat) (b : Bool) :
    Still s { s with pred := s.pred.modify i fun x => { x with deferrableWaiting := b } } := by
  have mark : Quiet s.pred (s.pred.modify i fun x => { x with deferrableWaiting := b }) :=
    PredXact.quiet_modify i ⟨rfl, rfl, rfl, rfl, rfl, rfl, rfl, rfl, id, .inl, id⟩ rfl
  exact .of_quiet mark rfl rfl fun _ => .refl _

theorem event_of_step (h : s.step l = some s') : Event s s' l := by
  cases l with
  | begin ro => cases h; exact .begin _ ro (.inl rfl) rfl
  | importSnapshot i ro =>
      simp only [step] at h
      split at h
      · rename_i hm
        cases h
        exact .begin _ ro (.inr ⟨i, rfl, hm, rfl⟩) rfl
      · cases h; exact .still (.of_quiet (.refl _) rfl rfl fun _ => .refl _)
  | awaitSafe i =>
      simp only [step] at h
      split at h
      · split at h
        · cases h; exact .still (.of_quiet (.refl _) rfl rfl fun _ => .refl _)
        · cases h; exact .still (still_waiting i true)
      · cases h
  | safeKnown i =>
      simp only [step] at h
      split at h
      · cases h; exact .still (still_waiting i false)
      · cases h
  | assignXid i =>
      simp only [step] at h
      split at h
      · cases h
        have mark : ∀ j, Kept (s.pred.sxact j)
            ((s.pred.modify i fun x => { x with topXid := s.nextXid }).sxact j) ∧
            (((s.pred.modify i fun x => { x with topXid := s.nextXid }).sxact j).topXid =
              (s.pred.sxact j).topXid ∨
            ((s.pred.modify i fun x => { x with topXid := s.nextXid }).sxact j).topXid =
              s.nextXid) := by
          intro j
          by_cases hj : j = i
          · subst hj
            rw [PredXact.modify_self]
            exact ⟨⟨rfl, rfl, rfl, rfl, rfl, rfl, rfl, rfl, id, .inl, id⟩, .inr rfl⟩
          · rw [PredXact.modify_ne _ hj]
            exact ⟨.refl _, .inl rfl⟩
        exact .still ⟨fun j => (mark j).1, rfl, rfl, rfl, rfl, fun _ => .inl, fun _ => .inl,
          fun _ => id, rfl, fun _ => .refl _,
          fun j => (mark j).2.imp_right fun hj => ⟨hj, Nat.lt_succ_self _⟩, fun _ => .inl⟩
      · cases h
  | otherXid => cases h; exact .still (.of_quiet (.refl _) rfl rfl fun _ => .refl _)
  | otherEnd x =>
      simp only [step] at h
      split at h
      · cases h; exact .still (.of_quiet (.refl _) rfl rfl fun _ => .refl _)
      · cases h
  | read i t =>
      simp only [step] at h
      split at h
      · cases h
        exact .still (.of_quiet (PredXact.quiet_createPredicateLock i t) rfl rfl fun _ => .refl _)
      · cases h
  | conflictOut i visible t =>
      simp only [step] at h
      split at h
      · split at h
        · rename_i p hp
          cases h
          exact .still (.of_quiet (PredXact.quiet_checkForSerializableConflictOut hp) rfl rfl
            fun _ => .refl _)
        · cases h; exact .still (.of_quiet (.refl _) rfl rfl fun _ => .refl _)
      · cases h
  | write i =>
      simp only [step] at h
      split at h
      · split at h
        · cases h; exact .still (.of_quiet (.refl _) rfl rfl fun _ => .refl _)
        · cases h
          exact .still (.of_quiet (.refl _) rfl rfl
            (moved_modify ⟨rfl, rfl, rfl, rfl, .inl rfl, .inl rfl⟩))
      · cases h
  | tableWrite i =>
      simp only [step] at h
      split at h
      · cases h
        exact .still (.of_quiet (.refl _) rfl rfl
          (moved_modify ⟨rfl, rfl, rfl, rfl, .inl rfl, .inl rfl⟩))
      · cases h
  | conflictIn i r t =>
      simp only [step] at h
      split at h
      · rename_i hg
        have hne : r ≠ i := by
          simp only [Bool.and_eq_true, bne_iff_ne] at hg
          exact hg.1.2
        split at h
        · rename_i p hp
          cases h
          exact .still (.of_quiet (PredXact.quiet_checkLockForConflictIn hne hp) rfl rfl
            fun _ => .refl _)
        · cases h; exact .still (.of_quiet (.refl _) rfl rfl fun _ => .refl _)
      · cases h
  | ownLock i t =>
      simp only [step] at h
      split at h
      · cases h
        exact .still (.of_quiet (PredXact.quiet_removeOwnLock i t) rfl rfl fun _ => .refl _)
      · cases h
  | tableConflictIn i r =>
      simp only [step] at h
      split at h
      · rename_i hg
        have hne : r ≠ i := by
          simp only [Bool.and_eq_true, bne_iff_ne] at hg
          exact hg.1.1.2
        split at h
        · rename_i p hp
          cases h
          exact .still (.of_quiet (PredXact.quiet_checkLockForTableConflictIn hne hp) rfl rfl
            fun _ => .refl _)
        · cases h; exact .still (.of_quiet (.refl _) rfl rfl fun _ => .refl _)
      · cases h
  | preCommit i => exact event_preCommit h
  | postPrepare i =>
      simp only [step] at h
      split at h
      · cases h
        exact .still (.of_quiet (.refl _) rfl rfl
          (moved_modify ⟨rfl, rfl, rfl, rfl, .inl rfl, .inl rfl⟩))
      · cases h
  | endXact i b => exact event_endXact h
  | release i b =>
      simp only [step] at h
      split at h
      · rename_i hm
        cases h
        exact .release i b hm rfl
      · cases h
  | finish i => exact event_finish h
  | clear i => exact event_clear h
  | clearOldLocks =>
      simp only [step] at h
      split at h
      · cases h; exact .still (.of_quiet PredXact.quiet_clearOldLocks rfl rfl fun _ => .refl _)
      · cases h
  | summarize =>
      simp only [step] at h
      split at h
      · rename_i i rest hf _
        cases h
        refine .still
          (.of_quiet_handing (PredXact.quiet_summarizeSxact _) rfl (fun _ => .refl _) ?_)
        intro j _ he
        cases he
        exact .inl (.inl (hf ▸ List.mem_cons_self))
      · cases h
  | releaseConflicts => exact event_releaseConflicts h

end Server

end BullFrog.Ssi
