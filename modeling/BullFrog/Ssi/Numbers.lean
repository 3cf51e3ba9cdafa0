/-
# `BullFrog.Ssi.Numbers` — who can still be cancelled, and in which order commits happen

A serializable transaction gets two numbers from one counter: `prepareSeqNo` when it has passed
its last check and `commitSeqNo` when it has committed.  Between its own calls anybody may mark
it as doomed.  Whatever the interleaving,

    began < prepareSeqNo < commitSeqNo        for one transaction, and no number twice
    prepared ⟹ not doomed                     nobody dooms a transaction that cannot fail any more

so a commit is never taken back, and a transaction that was doomed never commits (`Ssi.Doomed`).
-/
import BullFrog.Ssi.Marks

namespace BullFrog.Ssi

/-! ## One transaction -/

/-- A transaction and its `SERIALIZABLEXACT`, when `last` is the last number given out.  `left`
says how a transaction can be without `MySerializableXact` and yet not be rolled back. -/
structure InOrder (last : Nat) (t : Xact) (x : SerializableXact) : Prop where
  began : t.began ≤ last
  tracked : t.stage = .tracked → x.committed = false ∧ x.rolledBack = false ∧
    (t.phase = .prepared ∨ t.phase = .ended true → x.prepared = true)
  left : t.stage ≠ .tracked → t.phase = .ended false ∨ x.committed = true ∨
    t.optedOut = true ∨ x.roSafe = true
  prepared : x.prepared = true →
    x.doomed = false ∧ t.began < x.prepareSeqNo ∧ x.prepareSeqNo ≤ last
  committed : x.committed = true →
    x.prepared = true ∧ x.prepareSeqNo < x.commitSeqNo ∧ x.commitSeqNo ≤ last

theorem Kept.not_doomed {x y : SerializableXact} (k : Kept x y) (hp : x.prepared = true)
    (hd : x.doomed = false) : y.doomed = false := by
  by_contra hy
  rcases k.doomed_from (by simpa using hy) with hx | hx
  · rw [hd] at hx
    cases hx
  · rw [hp] at hx
    cases hx

theorem Moved.stage_tracked {t u : Xact} (m : Moved t u) :
    u.stage = .tracked ↔ t.stage = .tracked := by
  rcases m.stage with he | ⟨hr, hu⟩
  · rw [he]
  · simp [hr, hu]

theorem Moved.stage_untracked {t u : Xact} (m : Moved t u) (h : t.stage = .untracked) :
    u.stage = .untracked := by
  rcases m.stage with he | ⟨-, hu⟩
  · rw [he, h]
  · exact hu

theorem Moved.phase_rolledBack {t u : Xact} (m : Moved t u) (h : t.phase = .ended false) :
    u.phase = .ended false := by
  rcases m.phase with he | ⟨hr, -⟩ | ⟨hr, -⟩ | ⟨b, -, ho, -⟩
  · rw [he, h]
  · rw [h] at hr
    cases hr
  · rw [h] at hr
    cases hr
  · exact absurd h (ho false)

theorem Moved.phase_open {t u : Xact} (m : Moved t u) (h : ∀ b, u.phase ≠ .ended b) :
    ∀ b, t.phase ≠ .ended b := by
  intro b hb
  rcases m.phase with he | ⟨hr, -⟩ | ⟨hr, -⟩ | ⟨b', hb', -⟩
  · exact h b (he.trans hb)
  · rw [hr] at hb
    cases hb
  · rw [hr] at hb
    cases hb
  · exact h b' hb'

/-- A tracked transaction comes past its last check in a step of its own only. -/
theorem Moved.phase_passed {t u : Xact} (m : Moved t u) (ht : t.stage = .tracked)
    (h : u.phase = .prepared ∨ u.phase = .ended true) :
    t.phase = .prepared ∨ t.phase = .ended true := by
  rcases m.phase with he | ⟨-, hf⟩ | ⟨-, -, hu⟩ | ⟨b, hb, -, hprep⟩
  · rwa [he] at h
  · rw [hf] at h
    rcases h with h | h <;> cases h
  · rw [ht] at hu
    cases hu
  · rw [hb] at h
    rcases h with h | h
    · cases h
    · cases h
      exact .inl (hprep rfl)

namespace InOrder

variable {last last' : Nat} {t u : Xact} {x y : SerializableXact}

/-- Marks of others change nothing. -/
theorem moved (h : InOrder last t x) (m : Moved t u) (k : Kept x y) (hl : last ≤ last') :
    InOrder last' u y where
  began := by
    rw [m.began]
    exact Nat.le_trans h.began hl
  tracked := by
    intro hu
    have ht := m.stage_tracked.mp hu
    obtain ⟨hc, hr, hp⟩ := h.tracked ht
    rw [k.committed, k.rolledBack, k.prepared]
    exact ⟨hc, hr, fun hph => hp (m.phase_passed ht hph)⟩
  left := by
    intro hu
    rw [k.committed, m.optedOut]
    rcases h.left (mt m.stage_tracked.mpr hu) with hph | hc | ho | hr
    · exact .inl (m.phase_rolledBack hph)
    · exact .inr (.inl hc)
    · exact .inr (.inr (.inl ho))
    · exact .inr (.inr (.inr (k.roSafe_mono hr)))
  prepared := by
    intro hy
    rw [k.prepared] at hy
    obtain ⟨hd, hb, hle⟩ := h.prepared hy
    rw [k.prepareSeqNo, m.began]
    exact ⟨k.not_doomed hy hd, hb, Nat.le_trans hle hl⟩
  committed := by
    intro hy
    rw [k.committed] at hy
    obtain ⟨hp, hlt, hle⟩ := h.committed hy
    rw [k.prepared, k.prepareSeqNo, k.commitSeqNo]
    exact ⟨hp, hlt, Nat.le_trans hle hl⟩

/-- It passes its last check. -/
theorem setPrepared (h : InOrder last t x) (ht : t.stage = .tracked) (hd : x.doomed = false) :
    InOrder (last + 1) { t with phase := .prepared }
      { x with prepareSeqNo := last + 1, prepared := true } where
  began := Nat.le_succ_of_le h.began
  tracked := fun _ => ⟨(h.tracked ht).1, (h.tracked ht).2.1, fun _ => rfl⟩
  left := fun hn => absurd ht hn
  prepared := fun _ => ⟨hd, Nat.lt_succ_of_le h.began, Nat.le_refl _⟩
  committed := by
    intro hc
    rw [(h.tracked ht).1] at hc
    cases hc

/-- It commits. -/
theorem setCommitted (h : InOrder last t x) (ht : t.stage = .tracked) (hph : t.phase = .ended true)
    (nextXid : Nat) (readOnly : Bool) :
    InOrder (last + 1) { t with stage := .released }
      { x with
        finishedBefore := nextXid, committed := true, commitSeqNo := last + 1,
        readOnly := readOnly } := by
  have hp : x.prepared = true := (h.tracked ht).2.2 (.inr hph)
  obtain ⟨hd, hb, hle⟩ := h.prepared hp
  refine ⟨Nat.le_succ_of_le h.began, ?_, fun _ => .inr (.inl rfl),
    fun _ => ⟨hd, hb, Nat.le_succ_of_le hle⟩, fun _ => ⟨hp, Nat.lt_succ_of_le hle, Nat.le_refl _⟩⟩
  intro hs
  cases hs

/-- It is rolled back, or gives its `SERIALIZABLEXACT` up. -/
theorem setRolledBack (h : InOrder last t x) (ht : t.stage = .tracked)
    (hph : t.phase = .ended false ∨ x.roSafe = true) (nextXid : Nat) :
    InOrder last { t with stage := .released }
      { x with
        finishedBefore := nextXid, doomed := true, rolledBack := true, prepared := false } := by
  refine ⟨h.began, ?_, ?_, ?_, ?_⟩
  · intro hs
    cases hs
  · intro _
    exact hph.imp_right fun hr => .inr (.inr hr)
  · intro hp
    cases hp
  · intro hc
    have hnc := (h.tracked ht).1
    exact absurd (hnc.symm.trans hc) (by decide)

end InOrder

/-! ## The numbers -/

/-- The invariant.  `fresh` is about the numbers that no transaction has yet. -/
structure Numbered (s : Server) : Prop where
  dummy : 0 < s.next ∧ (s.xact oldCommittedSxact).stage = .untracked
  fresh : ∀ i, s.next ≤ i → (s.pred.sxact i).committed = false ∧ (s.pred.sxact i).prepared = false ∧
    (s.xact i).stage = .untracked ∧ (s.xact i).phase = .ended false
  irrefl : ∀ c ∈ s.pred.conflicts, c.1 ≠ c.2
  inOrder : ∀ i, i ≠ oldCommittedSxact →
    InOrder s.pred.lastSxactCommitSeqNo (s.xact i) (s.pred.sxact i)
  distinct : ∀ i j, i ≠ oldCommittedSxact → j ≠ oldCommittedSxact → i ≠ j →
    (s.pred.sxact i).committed = true → (s.pred.sxact j).committed = true →
      (s.pred.sxact i).commitSeqNo ≠ (s.pred.sxact j).commitSeqNo

theorem numbered_initial : Numbered Server.initial where
  dummy := ⟨Nat.zero_lt_one, rfl⟩
  fresh := by
    intro i hi
    have hne : i ≠ oldCommittedSxact := Nat.ne_of_gt hi
    simp [Server.initial, initPredicateLocks, hne]
  irrefl := fun _ hc => absurd hc List.not_mem_nil
  inOrder := by
    intro i hi
    refine ⟨Nat.zero_le _, ?_, fun _ => .inl rfl, ?_, ?_⟩
    all_goals intro h
    · cases h
    all_goals
      simp [Server.initial, initPredicateLocks, hi] at h
  distinct := by
    intro i j hne _ _ h
    simp [Server.initial, initPredicateLocks, hne] at h

theorem Numbered.tracked_bounds {s : Server} (h : Numbered s) {i : Nat}
    (hi : (s.xact i).stage = .tracked) : i ≠ oldCommittedSxact ∧ i < s.next := by
  constructor
  · rintro rfl
    rw [h.dummy.2] at hi
    cases hi
  · by_contra hlt
    rw [(h.fresh i (Nat.le_of_not_lt hlt)).2.2.1] at hi
    cases hi

theorem Numbered.of_still {s s' : Server} (h : Numbered s) (st : Still s s') : Numbered s' where
  dummy := ⟨st.next ▸ h.dummy.1, (st.xact _).stage_untracked h.dummy.2⟩
  fresh := by
    intro i hi
    obtain ⟨hc, hp, hs, hph⟩ := h.fresh i (st.next ▸ hi)
    exact ⟨(st.kept i).committed.trans hc, (st.kept i).prepared.trans hp,
      (st.xact i).stage_untracked hs, (st.xact i).phase_rolledBack hph⟩
  irrefl := by
    intro c hc
    rcases st.conflicts c hc with hc | hne
    · exact h.irrefl c hc
    · exact hne
  inOrder := fun i hi =>
    (h.inOrder i hi).moved (st.xact i) (st.kept i) (Nat.le_of_eq st.last.symm)
  distinct := by
    intro i j hi hj hij hci hcj
    rw [(st.kept i).committed] at hci
    rw [(st.kept j).committed] at hcj
    rw [(st.kept i).commitSeqNo, (st.kept j).commitSeqNo]
    exact h.distinct i j hi hj hij hci hcj

/-- What the beginning of a transaction changes. -/
structure Begun (s s' : Server) (snap : Snapshot) (ro : Bool) : Prop where
  next : s'.next = s.next + 1
  xact_ne : ∀ i, i ≠ s.next → s'.xact i = s.xact i
  sxact_ne : ∀ i, i ≠ s.next → s'.pred.sxact i = s.pred.sxact i
  last : s'.pred.lastSxactCommitSeqNo = s.pred.lastSxactCommitSeqNo
  conflicts : s'.pred.conflicts = s.pred.conflicts
  began : (s'.xact s.next).began = s.pred.lastSxactCommitSeqNo
  snapshot : (s'.xact s.next).snapshot = snap
  phase : (s'.xact s.next).phase = .running
  xactReadOnly : (s'.xact s.next).xactReadOnly = ro
  stage : (s'.xact s.next).stage = .tracked ∧
      s.pred.getSerializableTransactionSnapshotInt s.next snap ro invalidTransactionId =
        some s'.pred ∨
    (s'.xact s.next).stage = .untracked ∧ (s'.xact s.next).optedOut = true ∧ s'.pred = s.pred

theorem begun (s : Server) (snap : Snapshot) (ro : Bool) :
    Begun s (s.register snap ro) snap ro := by
  unfold Server.register
  simp only
  split
  · refine ⟨rfl, ?_, fun _ _ => rfl, rfl, rfl, ?_, ?_, ?_, ?_, .inr ⟨?_, ?_, rfl⟩⟩
    · exact fun i hi => Function.update_of_ne hi _ _
    all_goals simp
  · rename_i p hp
    obtain ⟨hl, hc, -⟩ := PredXact.begin_rest hp
    refine ⟨rfl, ?_, ?_, hl, hc, ?_, ?_, ?_, ?_, .inl ⟨?_, hp⟩⟩
    · exact fun i hi => Function.update_of_ne hi _ _
    · intro i hi
      exact (congrFun (PredXact.begin_sxact hp) i).trans (Function.update_of_ne hi _ _)
    all_goals simp

/-- A new transaction is in no way ended. -/
theorem Begun.new {s s' : Server} {snap : Snapshot} {ro : Bool} (h : Begun s s' snap ro)
    (hn : Numbered s) :
    (s'.pred.sxact s.next).committed = false ∧ (s'.pred.sxact s.next).prepared = false ∧
      ((s'.xact s.next).stage = .tracked → (s'.pred.sxact s.next).rolledBack = false) := by
  rcases h.stage with ⟨-, hp⟩ | ⟨hu, -, hp⟩
  · rw [PredXact.begin_sxact hp, Function.update_self]
    exact ⟨rfl, rfl, fun _ => rfl⟩
  · obtain ⟨hc, hpr, -⟩ := hn.fresh s.next (Nat.le_refl _)
    rw [hp, hu]
    refine ⟨hc, hpr, ?_⟩
    intro h
    cases h

theorem Numbered.of_begun {s s' : Server} {snap : Snapshot} {ro : Bool} (h : Numbered s)
    (b : Begun s s' snap ro) : Numbered s' := by
  obtain ⟨hnc, hnp, hnr⟩ := b.new h
  have hcommitted : ∀ i, (s'.pred.sxact i).committed = true → i ≠ s.next := by
    rintro i hi rfl
    rw [hnc] at hi
    cases hi
  refine ⟨⟨?_, ?_⟩, ?_, b.conflicts ▸ h.irrefl, ?_, ?_⟩
  · rw [b.next]
    exact Nat.succ_pos _
  · rw [b.xact_ne oldCommittedSxact (Nat.ne_of_lt h.dummy.1)]
    exact h.dummy.2
  · intro i hi
    rw [b.next] at hi
    have hne : i ≠ s.next := Nat.ne_of_gt hi
    rw [b.xact_ne i hne, b.sxact_ne i hne]
    exact h.fresh i (Nat.le_of_succ_le hi)
  · intro i hi0
    rw [b.last]
    by_cases hi : i = s.next
    · -- the new transaction has neither number
      subst hi
      refine ⟨Nat.le_of_eq b.began, ?_, ?_, ?_, ?_⟩
      · intro ht
        refine ⟨hnc, hnr ht, ?_⟩
        rw [b.phase]
        rintro (hp | hp) <;> cases hp
      · intro ht
        rcases b.stage with ⟨hs, -⟩ | ⟨-, ho, -⟩
        · exact absurd hs ht
        · exact .inr (.inr (.inl ho))
      · intro hp
        rw [hnp] at hp
        cases hp
      · intro hc
        rw [hnc] at hc
        cases hc
    · rw [b.xact_ne i hi, b.sxact_ne i hi]
      exact h.inOrder i hi0
  · intro i j hi0 hj0 hij hci hcj
    have hi := hcommitted i hci
    have hj := hcommitted j hcj
    rw [b.sxact_ne i hi] at hci ⊢
    rw [b.sxact_ne j hj] at hcj ⊢
    exact h.distinct i j hi0 hj0 hij hci hcj

/-- The `SERIALIZABLEXACT` of a transaction that passes its last check, and the others. -/
theorem Server.prepare_sxact (s : Server) (i j : Nat) (p : PredXact) :
    (s.prepare i p).pred.sxact j =
      if j = i then
        { p.sxact i with prepareSeqNo := p.lastSxactCommitSeqNo + 1, prepared := true }
      else p.sxact j := by
  split
  · subst j
    simp [Server.prepare, Server.modifyXact, PredXact.setPrepared, PredXact.modify]
  · rename_i hj
    simp [Server.prepare, Server.modifyXact, PredXact.setPrepared, PredXact.modify, hj]

theorem Server.prepare_xact (s : Server) (i j : Nat) (p : PredXact) :
    (s.prepare i p).xact j =
      if j = i then { s.xact i with phase := .prepared } else s.xact j := by
  split
  · subst j
    simp [Server.prepare, Server.modifyXact]
  · rename_i hj
    simp [Server.prepare, Server.modifyXact, hj]

/-- Only the phase, and in the `SERIALIZABLEXACT` the mark and its number, change. -/
theorem Server.exists_prepare_sxact (s : Server) (i j : Nat) (p : PredXact) :
    ∃ n b, (s.prepare i p).pred.sxact j =
      { p.sxact j with prepareSeqNo := n, prepared := b } := by
  rw [s.prepare_sxact]
  split
  · subst j
    exact ⟨_, _, rfl⟩
  · exact ⟨_, _, rfl⟩

theorem Server.exists_prepare_xact (s : Server) (i j : Nat) (p : PredXact) :
    ∃ phase, (s.prepare i p).xact j = { s.xact j with phase := phase } := by
  rw [s.prepare_xact]
  split
  · subst j
    exact ⟨_, rfl⟩
  · exact ⟨_, rfl⟩

theorem Numbered.of_prepare {s : Server} (h : Numbered s) {i : Nat} {p : PredXact}
    (hw : s.working i = true) (hq : Quiet s.pred p)
    (hd : (i, i) ∉ s.pred.conflicts → (p.sxact i).doomed = false) :
    Numbered (s.prepare i p) := by
  simp only [Server.working, Bool.and_eq_true, beq_iff_eq] at hw
  obtain ⟨-, ht⟩ := hw
  obtain ⟨hi0, hlt⟩ := h.tracked_bounds ht
  have hdoom : (p.sxact i).doomed = false := hd fun hself => h.irrefl _ hself rfl
  -- the step without the transaction's own marks is a still one
  have hstill : Numbered { s with pred := p } :=
    h.of_still (.of_quiet hq rfl rfl fun _ => .refl _)
  have hcommitted : ∀ j, ((s.prepare i p).pred.sxact j).committed = (p.sxact j).committed ∧
      ((s.prepare i p).pred.sxact j).commitSeqNo = (p.sxact j).commitSeqNo := by
    intro j
    obtain ⟨_, _, hx⟩ := s.exists_prepare_sxact i j p
    rw [hx]
    exact ⟨rfl, rfl⟩
  refine ⟨⟨h.dummy.1, ?_⟩, ?_, hstill.irrefl, ?_, ?_⟩
  · rw [s.prepare_xact, if_neg hi0.symm]
    exact h.dummy.2
  · intro j hj
    have hji : j ≠ i := Nat.ne_of_gt (Nat.lt_of_lt_of_le hlt hj)
    rw [s.prepare_sxact, s.prepare_xact, if_neg hji, if_neg hji]
    exact hstill.fresh j hj
  · intro j hj0
    rw [s.prepare_sxact, s.prepare_xact]
    by_cases hji : j = i
    · rw [if_pos hji, if_pos hji]
      exact (hstill.inOrder i hi0).setPrepared ht hdoom
    · rw [if_neg hji, if_neg hji]
      exact (hstill.inOrder j hj0).moved (.refl _) (.refl _) (Nat.le_succ _)
  · intro j k hj0 hk0 hjk hcj hck
    rw [(hcommitted j).1] at hcj
    rw [(hcommitted k).1] at hck
    rw [(hcommitted j).2, (hcommitted k).2]
    exact hstill.distinct j k hj0 hk0 hjk hcj hck

/-- What `ReleasePredicateLocks` changes in the transaction that calls it. -/
structure Released (s s' : Server) (i : Nat) (isCommit : Bool) : Prop where
  next : s'.next = s.next
  last : s'.pred.lastSxactCommitSeqNo =
    if isCommit then s.pred.lastSxactCommitSeqNo + 1 else s.pred.lastSxactCommitSeqNo
  xact_self : s'.xact i = { s.xact i with stage := .released }
  xact_ne : ∀ j, j ≠ i → s'.xact j = s.xact j
  kept_ne : ∀ j, j ≠ i → Kept (s.pred.sxact j) (s'.pred.sxact j)
  commits : isCommit = true → ∃ readOnly, Kept
    { s.pred.sxact i with
      finishedBefore := s.nextXid, committed := true,
      commitSeqNo := s.pred.lastSxactCommitSeqNo + 1, readOnly := readOnly } (s'.pred.sxact i)
  rollsBack : isCommit = false → Kept
    { s.pred.sxact i with
      finishedBefore := s.nextXid, doomed := true, rolledBack := true, prepared := false }
    (s'.pred.sxact i)

theorem released (s : Server) (i : Nat) (isCommit : Bool) :
    Released s (s.released i isCommit) i isCommit := by
  have kept := fun j => PredXact.kept_release (p := s.pred) i j isCommit
    (s.xact i).myXactDidWrite s.nextXid
  have hself := kept i
  rw [PredXact.markEnded_self] at hself
  refine ⟨rfl, PredXact.release_last _ _ _ _, ?_, ?_, ?_, ?_, ?_⟩
  · simp [Server.released, Server.modifyXact]
  · intro j hj
    simp [Server.released, Server.modifyXact, hj]
  · intro j hj
    have hk := kept j
    rwa [PredXact.markEnded_ne _ _ _ hj] at hk
  · intro hb
    rw [if_pos hb] at hself
    exact ⟨_, hself⟩
  · intro hb
    rw [if_neg (by simp [hb])] at hself
    exact hself

theorem Released.le_last {s s' : Server} {i : Nat} {isCommit : Bool}
    (e : Released s s' i isCommit) :
    s.pred.lastSxactCommitSeqNo ≤ s'.pred.lastSxactCommitSeqNo := by
  rw [e.last]
  split <;> omega

theorem Server.tracked_of_mayRelease {s : Server} {i : Nat} {isCommit : Bool}
    (hm : s.mayRelease i isCommit = true) : (s.xact i).stage = .tracked := by
  simp only [Server.mayRelease, Bool.and_eq_true, beq_iff_eq] at hm
  exact hm.1

theorem Numbered.inOrder_released {s s' : Server} (h : Numbered s) {i : Nat} {isCommit : Bool}
    (hm : s.mayRelease i isCommit = true) (e : Released s s' i isCommit) :
    InOrder s'.pred.lastSxactCommitSeqNo (s'.xact i) (s'.pred.sxact i) := by
  simp only [Server.mayRelease, Bool.and_eq_true, Bool.or_eq_true, Bool.not_eq_true',
    beq_iff_eq] at hm
  obtain ⟨ht, hph⟩ := hm
  have hi := h.inOrder i (h.tracked_bounds ht).1
  rw [e.xact_self, e.last]
  cases isCommit with
  | true =>
      obtain ⟨readOnly, hk⟩ := e.commits rfl
      rcases hph with hph | ⟨⟨hf, -⟩, -⟩
      · exact (hi.setCommitted ht hph s.nextXid readOnly).moved (.refl _) hk (Nat.le_refl _)
      · cases hf
  | false =>
      have hback := hi.setRolledBack ht (hph.imp_right And.right) s.nextXid
      exact hback.moved (.refl _) (e.rollsBack rfl) (Nat.le_refl _)

/-- The number of the one that commits now is larger than all others. -/
theorem Numbered.newest {s s' : Server} (h : Numbered s) {i j : Nat} {isCommit : Bool}
    (ht : (s.xact i).stage = .tracked) (e : Released s s' i isCommit)
    (hj0 : j ≠ oldCommittedSxact) (hji : j ≠ i)
    (hci : (s'.pred.sxact i).committed = true) (hcj : (s'.pred.sxact j).committed = true) :
    (s'.pred.sxact j).commitSeqNo < (s'.pred.sxact i).commitSeqNo := by
  cases isCommit with
  | true =>
      obtain ⟨_, hk⟩ := e.commits rfl
      rw [(e.kept_ne j hji).committed] at hcj
      rw [hk.commitSeqNo, (e.kept_ne j hji).commitSeqNo]
      exact Nat.lt_succ_of_le ((h.inOrder j hj0).committed hcj).2.2
  | false =>
      rw [(e.rollsBack rfl).committed] at hci
      have hnc := ((h.inOrder i (h.tracked_bounds ht).1).tracked ht).1
      exact absurd (hnc.symm.trans hci) (by decide)

theorem Numbered.of_release {s s' : Server} (h : Numbered s) {i : Nat} {isCommit : Bool}
    (hm : s.mayRelease i isCommit = true) (e : Released s s' i isCommit)
    (hirrefl : ∀ c ∈ s'.pred.conflicts, c.1 ≠ c.2) : Numbered s' := by
  have ht := Server.tracked_of_mayRelease hm
  obtain ⟨hi0, hlt⟩ := h.tracked_bounds ht
  refine ⟨⟨e.next ▸ h.dummy.1, ?_⟩, ?_, hirrefl, ?_, ?_⟩
  · rw [e.xact_ne _ hi0.symm]
    exact h.dummy.2
  · intro j hj
    rw [e.next] at hj
    have hji : j ≠ i := Nat.ne_of_gt (Nat.lt_of_lt_of_le hlt hj)
    rw [e.xact_ne j hji, (e.kept_ne j hji).committed, (e.kept_ne j hji).prepared]
    exact h.fresh j hj
  · intro j hj0
    by_cases hji : j = i
    · subst hji
      exact h.inOrder_released hm e
    · rw [e.xact_ne j hji]
      exact (h.inOrder j hj0).moved (.refl _) (e.kept_ne j hji) e.le_last
  · intro j k hj0 hk0 hjk hcj hck
    by_cases hji : j = i
    · subst hji
      exact (Nat.ne_of_lt (h.newest ht e hk0 hjk.symm hcj hck)).symm
    · by_cases hki : k = i
      · subst hki
        exact Nat.ne_of_lt (h.newest ht e hj0 hji hck hcj)
      · rw [(e.kept_ne j hji).committed] at hcj
        rw [(e.kept_ne k hki).committed] at hck
        rw [(e.kept_ne j hji).commitSeqNo, (e.kept_ne k hki).commitSeqNo]
        exact h.distinct j k hj0 hk0 hjk hcj hck

theorem Numbered.of_event {s s' : Server} {l : Label} (h : Numbered s) (e : Event s s' l) :
    Numbered s' := by
  cases e with
  | still st => exact h.of_still st
  | begin snap ro _ hs => exact hs ▸ h.of_begun (begun s snap ro)
  | prepare i p hw hq hd hs => exact hs ▸ h.of_prepare hw hq hd
  | release i b hm hs =>
      exact hs ▸ h.of_release hm (released s i b) (PredXact.release_conflicts h.irrefl)

theorem numbered_run {tr : List Label} {s : Server}
    (r : server.Run Machine.Any Server.initial tr s) : Numbered s :=
  r.invariant (I := Numbered) (fun _ _ _ _ hs h => h.of_event (Server.event_of_step hs))
    numbered_initial

/-! ## The order of the commits -/

/-- The numbers say in which order transactions were registered, prepared and committed. -/
theorem commit_numbers_ordered {tr : List Label} {s : Server} {i j : Nat}
    (r : server.Run Machine.Any Server.initial tr s)
    (hi : i ≠ oldCommittedSxact) (hj : j ≠ oldCommittedSxact)
    (hci : (s.pred.sxact i).committed = true) (hcj : (s.pred.sxact j).committed = true) :
    (s.xact i).began < (s.pred.sxact i).prepareSeqNo ∧
      (s.pred.sxact i).prepareSeqNo < (s.pred.sxact i).commitSeqNo ∧
      ((s.pred.sxact i).commitSeqNo = (s.pred.sxact j).commitSeqNo → i = j) := by
  have hn := numbered_run r
  obtain ⟨hp, hlt, -⟩ := (hn.inOrder i hi).committed hci
  refine ⟨((hn.inOrder i hi).prepared hp).2.1, hlt, ?_⟩
  intro he
  by_contra hij
  exact hn.distinct i j hi hj hij hci hcj he

/-- One after the other. -/
theorem commit_numbers_ordered_serial :
    ∃ s, server.Run Machine.Any Server.initial
        [.begin false, .preCommit 1, .endXact 1 true, .release 1 true,
          .begin false, .preCommit 2, .endXact 2 true, .release 2 true] s ∧
      (s.xact 2).began < (s.pred.sxact 2).prepareSeqNo ∧
      (s.pred.sxact 2).prepareSeqNo < (s.pred.sxact 2).commitSeqNo ∧
      ((s.pred.sxact 2).commitSeqNo = (s.pred.sxact 1).commitSeqNo → 2 = 1) := by
  obtain ⟨s, run, h⟩ := server.exists_run (s := Server.initial)
    [.begin false, .preCommit 1, .endXact 1 true, .release 1 true,
      .begin false, .preCommit 2, .endXact 2 true, .release 2 true]
    (p := fun s => decide ((s.pred.sxact 2).committed = true ∧ (s.pred.sxact 1).committed = true))
    (by decide +kernel)
  obtain ⟨h2, h1⟩ := of_decide_eq_true h
  exact ⟨s, run, commit_numbers_ordered run (by decide) (by decide) h2 h1⟩

end BullFrog.Ssi
