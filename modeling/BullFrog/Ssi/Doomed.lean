/-
# `BullFrog.Ssi.Doomed` — a doomed transaction does not commit

`SXACT_FLAG_DOOMED` is how one backend cancels the transaction of another.  The transaction looks
at the flag once more before it commits, and after that nobody sets it (`Ssi.Numbers`).

Two kinds of transactions come to their end without this check.  A read-only one whose snapshot
is safe gives its `SERIALIZABLEXACT` up, to `predicate.c` in the way of a rollback, and goes on.
And one that never had a `SERIALIZABLEXACT` is never doomed, since locks, conflicts and xids lead
only to transactions that have one (`Within`).
-/
import BullFrog.Ssi.Numbers

namespace BullFrog.Ssi

/-! ## Whom the lists lead to -/

/-- Everybody who is doomed, has a lock, is found by an xid or is the reader of a conflict is in
`K`. -/
structure Within (K : Nat → Prop) (p : PredXact) : Prop where
  doomed : ∀ i, (p.sxact i).doomed = true → K i
  locks : ∀ i, (p.sxact i).predicateLocks ≠ [] → K i
  hash : ∀ x i, p.sxidHash x = some i → K i
  readers : ∀ c ∈ p.conflicts, K c.1

namespace Within

variable {K : Nat → Prop} {p q : PredXact} {me : Nat}

theorem mono {K' : Nat → Prop} (h : Within K p) (hK : ∀ i, K i → K' i) : Within K' p :=
  ⟨fun i hi => hK i (h.doomed i hi), fun i hi => hK i (h.locks i hi),
    fun x i hi => hK i (h.hash x i hi), fun c hc => hK c.1 (h.readers c hc)⟩

/-- Nothing comes in. -/
theorem of_sxact (h : Within K p) (hs : q.sxact = p.sxact) (hh : q.sxidHash = p.sxidHash)
    (hc : ∀ c ∈ q.conflicts, c ∈ p.conflicts) : Within K q where
  doomed := hs ▸ h.doomed
  locks := hs ▸ h.locks
  hash := hh ▸ h.hash
  readers c hcq := h.readers c (hc c hcq)

/-- One `SERIALIZABLEXACT` changes. -/
theorem update {i : Nat} {x : SerializableXact} (h : Within K p)
    (hs : q.sxact = Function.update p.sxact i x) (hd : x.doomed = true → K i)
    (hl : x.predicateLocks ≠ [] → K i) (hh : q.sxidHash = p.sxidHash)
    (hc : ∀ c ∈ q.conflicts, c ∈ p.conflicts) : Within K q := by
  refine ⟨fun j hj => ?_, fun j hj => ?_, hh ▸ h.hash, fun c hcq => h.readers c (hc c hcq)⟩
  · rw [hs] at hj
    by_cases hji : j = i
    · subst hji
      rw [Function.update_self] at hj
      exact hd hj
    · rw [Function.update_of_ne hji] at hj
      exact h.doomed j hj
  · rw [hs] at hj
    by_cases hji : j = i
    · subst hji
      rw [Function.update_self] at hj
      exact hl hj
    · rw [Function.update_of_ne hji] at hj
      exact h.locks j hj

theorem modify {i : Nat} {f : SerializableXact → SerializableXact} (h : Within K p)
    (hd : (f (p.sxact i)).doomed = true → K i) (hl : (f (p.sxact i)).predicateLocks ≠ [] → K i) :
    Within K (p.modify i f) :=
  h.update rfl hd hl rfl fun _ => id

/-- A change of the other fields. -/
theorem mark {i : Nat} {f : SerializableXact → SerializableXact} (h : Within K p)
    (hd : (f (p.sxact i)).doomed = (p.sxact i).doomed)
    (hl : (f (p.sxact i)).predicateLocks = (p.sxact i).predicateLocks) :
    Within K (p.modify i f) :=
  h.modify (hd ▸ h.doomed i) (hl ▸ h.locks i)

theorem doom {i : Nat} (h : Within K p) (hi : K i) : Within K (p.doom i) :=
  h.modify (fun _ => hi) (fun _ => hi)

/-! ## The beginning of a transaction -/

theorem begins {i topXid : Nat} {snap : Snapshot} {ro : Bool} (h : Within K p)
    (hp : p.getSerializableTransactionSnapshotInt i snap ro topXid = some q) : Within K q := by
  have hhash : q.sxidHash = p.sxidHash := by
    unfold PredXact.getSerializableTransactionSnapshotInt at hp
    simp only [PredXact.noteXmin, PredXact.oldSerXidSetActiveSerXmin] at hp
    split at hp
    · cases hp
    · split at hp <;> cases hp <;> repeat' split
      all_goals rfl
  refine h.update (PredXact.begin_sxact hp) (fun hd => ?_) (fun hl => absurd rfl hl) hhash ?_
  · cases hd
  · rw [(PredXact.begin_rest hp).2.1]
    exact fun _ => id

theorem register {s : Server} {snap : Snapshot} {ro : Bool} (h : Within K s.pred) :
    Within K (s.register snap ro).pred := by
  unfold Server.register
  simp only
  split
  · exact h
  · rename_i hp
    exact h.begins hp

theorem flagRWConflict {reader writer : Nat} (h : Within K p) (hr : K reader) (hw : K writer)
    (hf : p.flagRWConflict me reader writer = .ok q) : Within K q := by
  unfold PredXact.flagRWConflict at hf
  cases hc : p.onConflictCheckForSerializationFailure me reader writer with
  | error e => rw [hc] at hf; cases hf
  | ok r =>
      have hr' : Within K r := by
        unfold PredXact.onConflictCheckForSerializationFailure at hc
        split at hc
        · split at hc
          · cases hc
          · split at hc
            · cases hc
            · cases hc
              exact h.doom hw
        · cases hc
          exact h
      rw [hc] at hf
      cases hf
      split
      · exact hr'.mark rfl rfl
      · split
        · exact hr'.mark rfl rfl
        · refine ⟨hr'.doomed, hr'.locks, hr'.hash, fun c hc => ?_⟩
          rcases List.mem_append.mp hc with hc | hc
          · exact hr'.readers c hc
          · rw [List.mem_singleton.mp hc]
            exact hr

theorem checkLockForConflictIn {snap : Snapshot} {holder : Nat} (h : Within K p) (hme : K me)
    (hh : K holder) (hf : p.checkLockForConflictIn me snap holder = .ok q) : Within K q := by
  unfold PredXact.checkLockForConflictIn at hf
  split at hf
  · exact h.flagRWConflict hh hme hf
  · cases hf
    exact h

theorem checkLockForTableConflictIn {holder : Nat} (h : Within K p) (hme : K me) (hh : K holder)
    (hf : p.checkLockForTableConflictIn me holder = .ok q) : Within K q := by
  unfold PredXact.checkLockForTableConflictIn at hf
  split at hf
  · exact h.flagRWConflict hh hme hf
  · cases hf
    exact h

theorem checkOldConflictOut {xid : Nat} (h : Within K p)
    (hf : p.checkOldConflictOut me xid = .ok q) : Within K q := by
  have hmark : Within K (p.modify me fun x => { x with summaryConflictOut := true }) :=
    h.mark rfl rfl
  simp only [PredXact.checkOldConflictOut] at hf
  split at hf
  · cases hf
    exact h
  · split at hf <;> cases hf
    exact hmark
  · split at hf
    · cases hf
    · split at hf <;> cases hf
      exact hmark

theorem checkSxactConflictOut {snap : Snapshot} {xid w : Nat} (h : Within K p) (hme : K me)
    (hw : K w) (hf : p.checkSxactConflictOut me snap xid w = .ok q) : Within K q := by
  unfold PredXact.checkSxactConflictOut at hf
  split at hf
  · cases hf
    exact h
  · split at hf
    · split at hf <;> cases hf
      exact h.doom hw
    · iterate 3
        split at hf
        · cases hf
          exact h
      exact h.flagRWConflict hme hw hf

theorem checkForSerializableConflictOut {snap : Snapshot} {visible : Bool} {t : HeapTuple}
    (h : Within K p) (hme : K me)
    (hf : p.checkForSerializableConflictOut me snap visible t = .ok q) : Within K q := by
  unfold PredXact.checkForSerializableConflictOut at hf
  split at hf
  · cases hf
  · split at hf
    · cases hf
      exact h
    · iterate 2
        split at hf
        · cases hf
          exact h
      split at hf
      · exact h.checkOldConflictOut hf
      · rename_i w hw
        exact h.checkSxactConflictOut hme (h.hash _ w hw) hf

theorem createPredicateLock (h : Within K p) (hme : K me) (t : TargetTag) :
    Within K (p.createPredicateLock me t) := by
  unfold PredXact.createPredicateLock
  split
  · exact h
  · exact h.modify (fun _ => hme) (fun _ => hme)

theorem removeOwnLock (h : Within K p) (hme : K me) (t : TargetTag) :
    Within K (p.removeOwnLock me t) :=
  h.modify (fun _ => hme) (fun _ => hme)

/-! ## The end of a transaction -/

theorem checkNearConflicts {near : List Nat} (h : Within K p) (hn : ∀ i ∈ near, K i) :
    Within K (PredXact.checkNearConflicts me near p).1 := by
  induction near generalizing p with
  | nil => exact h
  | cons n near ih =>
      have hrest : ∀ i ∈ near, K i := fun i hi => hn i (List.mem_cons_of_mem _ hi)
      unfold PredXact.checkNearConflicts
      split
      · split
        · exact h
        · exact ih (h.doom (hn n List.mem_cons_self)) hrest
      · exact ih h hrest

theorem setPrepared (h : Within K p) : Within K (p.setPrepared me) := by
  have hmark : Within K (p.modify me fun x =>
      { x with prepareSeqNo := p.lastSxactCommitSeqNo + 1, prepared := true }) := h.mark rfl rfl
  exact hmark.of_sxact rfl rfl fun _ => id

theorem preCommit (h : Within K p) :
    Within K (p.preCommitCheckForSerializationFailure me).1 := by
  have hnear : Within K (PredXact.checkNearConflicts me (p.inConflicts me) p).1 :=
    h.checkNearConflicts fun i hi => h.readers _ (PredXact.mem_inConflicts.mp hi)
  unfold PredXact.preCommitCheckForSerializationFailure
  split
  · exact h
  · split
    · rename_i hc
      rwa [hc] at hnear
    · rename_i hc
      rw [hc] at hnear
      exact hnear.setPrepared

theorem noteOutConflicts {isCommit : Bool} {l : List Nat} (h : Within K p) :
    Within K (PredXact.noteOutConflicts me isCommit l p) := by
  induction l generalizing p with
  | nil => exact h
  | cons w l ih =>
      unfold PredXact.noteOutConflicts
      refine ih ?_
      split
      · exact h.mark rfl rfl
      · exact h

theorem judgeRoXact {isCommit didWrite : Bool} {ro : Nat} (h : Within K p) :
    Within K (p.judgeRoXact me isCommit didWrite ro) := by
  unfold PredXact.judgeRoXact
  split
  · have hmark := h.mark (i := ro) (f := fun x => { x with roUnsafe := true }) rfl rfl
    exact hmark.of_sxact rfl rfl fun _ => id
  · have hdrop : Within K
        { p with possibleUnsafe := p.possibleUnsafe.filter fun c => c != (me, ro) } :=
      h.of_sxact rfl rfl fun _ => id
    simp only
    split
    · exact hdrop.mark rfl rfl
    · exact hdrop

theorem wakeRoXact {ro : Nat} (h : Within K p) : Within K (p.wakeRoXact ro) := by
  unfold PredXact.wakeRoXact
  split
  · exact h.of_sxact rfl rfl fun _ => id
  · exact h

theorem settlePossibleUnsafe {isCommit didWrite : Bool} {l : List Nat} (h : Within K p) :
    Within K (l.foldl (fun s ro => s.settlePossibleUnsafe me isCommit didWrite ro) p) := by
  induction l generalizing p with
  | nil => exact h
  | cons ro l ih => exact ih h.judgeRoXact.wakeRoXact

theorem settleConflicts {isCommit didWrite readOnly : Bool} (h : Within K p) :
    Within K (p.settleConflicts me isCommit didWrite readOnly) := by
  have hsummary : Within K (p.noteSummaryConflictOut me isCommit) := by
    unfold PredXact.noteSummaryConflictOut
    split
    · exact h.mark rfl rfl
    · exact h
  have hrelease : ∀ {s : PredXact}, Within K s →
      Within K ((s.releaseOutConflicts me isCommit).releaseInConflicts me isCommit) :=
    fun h => h.of_sxact rfl rfl fun _ hc => List.mem_of_mem_filter (List.mem_of_mem_filter hc)
  simp only [PredXact.settleConflicts]
  split
  · exact (hrelease hsummary.noteOutConflicts).settlePossibleUnsafe
  · exact hrelease hsummary.noteOutConflicts

theorem dropXmin (h : Within K p) : Within K (p.dropXmin me) := by
  refine h.of_sxact (p.dropXmin_sxact me) ?_ fun c hc => ?_
  · simp only [PredXact.dropXmin, PredXact.setNewSxactGlobalXmin,
      PredXact.oldSerXidSetActiveSerXmin]
    repeat' split
    all_goals rfl
  · rwa [(PredXact.dropXmin_rest me).2.2.2] at hc

theorem releasePredicateLocks {isCommit didWrite : Bool} {nextXid : Nat} (h : Within K p)
    (hme : K me) : Within K (p.releasePredicateLocks me isCommit didWrite nextXid) := by
  have hended : Within K (p.markEnded me isCommit didWrite nextXid) := by
    have hfinished := h.mark (i := me) (f := fun x => { x with finishedBefore := nextXid }) rfl rfl
    cases isCommit with
    | true =>
        have hmark := hfinished.mark (i := me) (f := fun x =>
          { x with
            committed := true
            commitSeqNo := p.lastSxactCommitSeqNo + 1
            readOnly := x.readOnly || !didWrite }) rfl rfl
        exact hmark.of_sxact rfl rfl fun _ => id
    | false =>
        have hmark := hfinished.modify (i := me) (f := fun x =>
          { x with doomed := true, rolledBack := true, prepared := false })
          (fun _ => hme) (fun _ => hme)
        exact hmark
  have hcount : ∀ ro, Within K ((p.markEnded me isCommit didWrite nextXid).countOut me ro) := by
    intro ro
    cases ro with
    | true => exact hended.of_sxact rfl rfl fun _ => id
    | false => exact hended.of_sxact rfl rfl fun _ => id
  rw [PredXact.releasePredicateLocks_eq]
  exact (hcount _).settleConflicts.dropXmin

/-! ## Cleaning up -/

theorem releaseLocks {i : Nat} {summarize : Bool} (h : Within K p) (h0 : K oldCommittedSxact) :
    Within K (p.releaseLocks i summarize) := by
  simp only [PredXact.releaseLocks]
  split
  · have hdummy := h.modify (i := oldCommittedSxact) (f := fun x => { x with
      predicateLocks := ((p.sxact i).predicateLocks.map Prod.fst).foldl
        (PredXact.foldLock (p.sxact i).commitSeqNo) x.predicateLocks }) (fun _ => h0) (fun _ => h0)
    exact hdummy.modify (hdummy.doomed i) fun hne => absurd rfl hne
  · exact h.modify (h.doomed i) fun hne => absurd rfl hne

theorem clearOldLocks (h : Within K p) (h0 : K oldCommittedSxact) : Within K p.clearOldLocks :=
  h.modify (fun _ => h0) (fun _ => h0)

theorem summarizeSxact {i : Nat} (h : Within K p) (h0 : K oldCommittedSxact) :
    Within K (p.summarizeSxact i) := by
  simp only [PredXact.summarizeSxact]
  refine releaseLocks ?_ h0
  split
  · exact h.of_sxact rfl rfl fun _ => id
  · exact h.of_sxact rfl rfl fun _ => id

theorem releaseConflicts {i : Nat} {isPartial summarize : Bool} (h : Within K p) :
    Within K (p.releaseConflicts i isPartial summarize) := by
  have hsummary : Within K (if summarize then p.summarizeConflicts i else p) := by
    split
    · exact ⟨h.doomed, h.locks, h.hash, h.readers⟩
    · exact h
  simp only [PredXact.releaseConflicts]
  generalize (if summarize then p.summarizeConflicts i else p) = s at hsummary
  split
  · exact hsummary.of_sxact rfl rfl fun _ => List.mem_of_mem_filter
  · refine ⟨hsummary.doomed, hsummary.locks, fun x j hj => ?_,
      fun c hc => hsummary.readers c (List.mem_of_mem_filter hc)⟩
    dsimp only at hj
    split at hj
    · exact hsummary.hash x j hj
    · by_cases hx : x = (s.sxact i).topXid
      · rw [hx, Function.update_self] at hj
        cases hj
      · rw [Function.update_of_ne hx] at hj
        exact hsummary.hash x j hj

end Within

/-! ## Every run -/

/-- `i` has a `SERIALIZABLEXACT` or has had one, as the dummy has. -/
def Server.Known (s : Server) (i : Nat) : Prop :=
  i = oldCommittedSxact ∨ i < s.next ∧ (s.xact i).optedOut = false

/-- The lists lead to transactions with a `SERIALIZABLEXACT`. -/
structure Listed (s : Server) : Prop where
  within : Within s.Known s.pred
  tracked : ∀ i, (s.xact i).stage ≠ .untracked → s.Known i

/-- A transaction that is doomed stays so. -/
theorem Event.doomed_mono {s s' : Server} {l : Label} (e : Event s s' l) {i : Nat} (hi : i < s.next)
    (hd : (s.pred.sxact i).doomed = true) :
    i < s'.next ∧ (s'.pred.sxact i).doomed = true := by
  cases e with
  | still st => exact ⟨st.next ▸ hi, (st.kept i).doomed_mono hd⟩
  | begin snap ro _ hs =>
      subst hs
      have b := begun s snap ro
      rw [b.next, b.sxact_ne i (Nat.ne_of_lt hi)]
      exact ⟨Nat.lt_succ_of_lt hi, hd⟩
  | prepare j p hw hq _ hs =>
      subst hs
      refine ⟨hi, ?_⟩
      obtain ⟨_, _, hx⟩ := s.exists_prepare_sxact j i p
      rw [hx]
      exact (hq.kept i).doomed_mono hd
  | release j b _ hs =>
      have e := released s j b
      rw [← hs] at e
      refine ⟨e.next ▸ hi, ?_⟩
      by_cases hij : i = j
      · subst hij
        cases b with
        | true => exact (e.commits rfl).choose_spec.doomed_mono hd
        | false => exact (e.rollsBack rfl).doomed_mono rfl
      · exact (e.kept_ne i hij).doomed_mono hd

/-- A transaction that has committed can no longer be cancelled. -/
theorem InOrder.not_doomed {last : Nat} {t : Xact} {x : SerializableXact} (h : InOrder last t x)
    (hc : t.phase = .ended true ∨ x.committed = true) :
    x.doomed = false ∨ t.optedOut = true ∨ x.roSafe = true := by
  by_cases hcom : x.committed = true
  · exact .inl (h.prepared (h.committed hcom).1).1
  have hph : t.phase = .ended true := hc.resolve_right hcom
  by_cases ht : t.stage = .tracked
  · exact .inl (h.prepared ((h.tracked ht).2.2 (.inr hph))).1
  · rcases h.left ht with hf | hc' | ho | hr
    · rw [hph] at hf
      cases hf
    · exact absurd hc' hcom
    · exact .inr (.inl ho)
    · exact .inr (.inr hr)

end BullFrog.Ssi
