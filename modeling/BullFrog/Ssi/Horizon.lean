/-
# `BullFrog.Ssi.Horizon` — who finished before every open transaction

A finished transaction is forgotten for good once it overlaps no open one.  The code compares two
xids: `finishedBefore`, the next xid when the transaction was released, and `SxactGlobalXmin`,
which is meant to be the oldest xmin among the open transactions.  It is computed anew only when
the last transaction with the old value goes, from the list of the active `SERIALIZABLEXACT`s.

That the comparison is right rests on the clock: the xmin of a snapshot taken now is never below
that of a snapshot taken before, so a transaction with a snapshot of its own does not fall behind
`SxactGlobalXmin`.  A transaction that adopts a snapshot may.  The code asserts that it does not
(`AssertsHold`), and this is so where the source of the snapshot has a `SERIALIZABLEXACT` itself
(`assertsHold_of_tracked`).  But a read-only transaction can export its snapshot when it never had
one or has given it up, and then a forgotten transaction can overlap one that is open
(`old_clear_behind_adopted`).
-/
import BullFrog.Ssi.Cleanup

namespace BullFrog.Ssi

/-! ## The clock -/

theorem le_foldl_min {a b : Nat} {l : List Nat} :
    b ≤ l.foldl min a ↔ b ≤ a ∧ ∀ x ∈ l, b ≤ x := by
  induction l generalizing a with
  | nil => simp
  | cons y l ih => simp [ih, and_assoc]

/-- What lies below the xmin of a snapshot taken now. -/
theorem Server.le_snapshot_xmin {s : Server} {b : Nat} :
    b ≤ s.getSnapshotData.xmin ↔ b ≤ s.latestCompletedXid + 1 ∧ ∀ x ∈ s.running, b ≤ x := by
  simp only [Server.getSnapshotData, le_foldl_min, List.mem_filter, decide_eq_true_eq]
  refine and_congr_right fun hb => ⟨fun h x hx => ?_, fun h x hx => h x hx.1⟩
  by_cases hlt : x < s.latestCompletedXid + 1
  · exact h x ⟨hx, hlt⟩
  · exact Nat.le_trans hb (Nat.le_of_not_lt hlt)

/-- The xids that are running or completed have been given out. -/
structure Clock (s : Server) : Prop where
  completed : s.latestCompletedXid < s.nextXid
  running : ∀ x ∈ s.running, 0 < x ∧ x < s.nextXid
  topXid : ∀ i, (s.pred.sxact i).topXid < s.nextXid

/-- How the xids move in a step. -/
structure Ticks (s s' : Server) : Prop where
  nextXid : s.nextXid ≤ s'.nextXid
  running : ∀ x ∈ s'.running, x ∈ s.running ∨ x = s.nextXid ∧ s.nextXid < s'.nextXid
  completed : s.latestCompletedXid ≤ s'.latestCompletedXid
  ended : s'.latestCompletedXid = s.latestCompletedXid ∨ s'.latestCompletedXid ∈ s.running ∨
    ∃ i, s'.latestCompletedXid = (s.pred.sxact i).topXid

theorem Ticks.of_eq {s s' : Server} (hn : s'.nextXid = s.nextXid) (hr : s'.running = s.running)
    (hc : s'.latestCompletedXid = s.latestCompletedXid) : Ticks s s' where
  nextXid := Nat.le_of_eq hn.symm
  running := fun _ hx => .inl (hr ▸ hx)
  completed := Nat.le_of_eq hc.symm
  ended := .inl hc

theorem ticks_newXid {s s' : Server} (hn : s'.nextXid = s.nextXid + 1)
    (hr : s'.running = s.running ++ [s.nextXid])
    (hc : s'.latestCompletedXid = s.latestCompletedXid) : Ticks s s' where
  nextXid := by omega
  running := by
    intro x hx
    rw [hr, List.mem_append, List.mem_singleton] at hx
    exact hx.imp_right fun hx => ⟨hx, by omega⟩
  completed := Nat.le_of_eq hc.symm
  ended := .inl hc

theorem ticks_endXid {s s' : Server} {x : Nat}
    (hx : x ∈ s.running ∨ ∃ i, x = (s.pred.sxact i).topXid) (hn : s'.nextXid = s.nextXid)
    (hr : s'.running = s.running.filter fun y => y != x)
    (hc : s'.latestCompletedXid = max s.latestCompletedXid x) : Ticks s s' where
  nextXid := Nat.le_of_eq hn.symm
  running := fun y hy => .inl (List.mem_of_mem_filter (hr ▸ hy))
  completed := hc ▸ Nat.le_max_left _ _
  ended := by
    rcases Nat.le_total x s.latestCompletedXid with hle | hle
    · exact .inl (hc.trans (Nat.max_eq_left hle))
    · rw [hc, Nat.max_eq_right hle]
      exact .inr hx

/-- Only four labels move the clock. -/
theorem ticks_of_step {s s' : Server} {l : Label} (h : s.step l = some s') : Ticks s s' := by
  cases l with
  | assignXid i =>
      simp only [Server.step] at h
      split at h
      · cases h
        exact ticks_newXid rfl rfl rfl
      · cases h
  | otherXid =>
      cases h
      exact ticks_newXid rfl rfl rfl
  | otherEnd x =>
      simp only [Server.step] at h
      split at h
      · rename_i hx
        cases h
        simp only [Bool.and_eq_true, List.contains_iff_mem] at hx
        exact ticks_endXid (.inl hx.1) rfl rfl rfl
      · cases h
  | endXact i b =>
      simp only [Server.step] at h
      split at h
      · split at h
        · cases h
          exact .of_eq rfl rfl rfl
        · cases h
          exact ticks_endXid (.inr ⟨i, rfl⟩) rfl rfl rfl
      · cases h
  | _ =>
      simp only [Server.step, Server.beginXact, Server.register, Server.finishRelease,
        Server.clearTurn] at h
      repeat' split at h
      all_goals cases h
      all_goals exact .of_eq rfl rfl rfl

theorem Clock.of_ticks {s s' : Server} (h : Clock s) (t : Ticks s s')
    (ht : ∀ i, (s'.pred.sxact i).topXid < s'.nextXid) : Clock s' where
  completed := by
    refine Nat.lt_of_lt_of_le ?_ t.nextXid
    rcases t.ended with he | hr | ⟨i, hi⟩
    · rw [he]
      exact h.completed
    · exact (h.running _ hr).2
    · rw [hi]
      exact h.topXid i
  running := by
    intro x hx
    rcases t.running x hx with hx | ⟨rfl, hlt⟩
    · exact ⟨(h.running x hx).1, Nat.lt_of_lt_of_le (h.running x hx).2 t.nextXid⟩
    · exact ⟨Nat.lt_of_le_of_lt (Nat.zero_le _) h.completed, hlt⟩
  topXid := ht

/-- The xmin of a snapshot taken now only grows. -/
theorem Clock.xmin_mono {s s' : Server} (h : Clock s) (t : Ticks s s') :
    s.getSnapshotData.xmin ≤ s'.getSnapshotData.xmin := by
  obtain ⟨hc, hr⟩ := Server.le_snapshot_xmin.mp (Nat.le_refl s.getSnapshotData.xmin)
  refine Server.le_snapshot_xmin.mpr ⟨Nat.le_trans hc (Nat.succ_le_succ t.completed), ?_⟩
  intro x hx
  rcases t.running x hx with hx | ⟨rfl, -⟩
  · exact hr x hx
  · exact Nat.le_trans hc h.completed

theorem Clock.xmin_pos {s : Server} (h : Clock s) : 0 < s.getSnapshotData.xmin :=
  Server.le_snapshot_xmin.mpr ⟨Nat.succ_le_succ (Nat.zero_le _), fun x hx => (h.running x hx).1⟩

/-! ## The global xmin -/

/-- `tracked` is what the comparison in `ClearOldPredicateLocks` needs; the rest says why
`SetNewSxactGlobalXmin` and a new transaction keep it. -/
structure Horizon (s : Server) : Prop where
  clock : Clock s
  active : ∀ i, (s.xact i).stage = .tracked → i ∈ s.pred.activeList
  handed : ∀ i, s.Handed i → (s.xact i).stage = .untracked ∧ i < s.next
  positive : ∀ i ∈ s.pred.activeList, i ≠ oldCommittedSxact → 0 < (s.pred.sxact i).xmin
  past : ∀ i, (s.pred.sxact i).xmin ≤ s.getSnapshotData.xmin
  globalPast : s.pred.sxactGlobalXmin ≤ s.getSnapshotData.xmin
  taken : ∀ i, (s.xact i).snapshot.xmin ≤ s.getSnapshotData.xmin ∧
    ((∀ b, (s.xact i).phase ≠ .ended b) → 0 < (s.xact i).snapshot.xmin)
  tracked : ∀ i, (s.xact i).stage = .tracked → 0 < s.pred.sxactGlobalXmin ∧
    s.pred.sxactGlobalXmin ≤ (s.pred.sxact i).xmin ∧
      (s.pred.sxact i).xmin = (s.xact i).snapshot.xmin

theorem horizon_initial : Horizon Server.initial where
  clock := by
    refine ⟨by decide, fun x hx => absurd hx List.not_mem_nil, fun i => ?_⟩
    by_cases hi : i = oldCommittedSxact <;>
      simp [Server.initial, initPredicateLocks, hi, invalidTransactionId, firstNormalTransactionId]
  active := fun _ h => by cases h
  handed := by
    rintro i (hi | ⟨_, hi⟩)
    · cases hi
    · cases hi
  positive := by
    intro i hi hne
    simp [Server.initial, initPredicateLocks, hne] at hi
  past := by
    intro i
    by_cases hi : i = oldCommittedSxact <;>
      simp [Server.initial, initPredicateLocks, hi, invalidTransactionId]
  globalPast := Nat.zero_le _
  taken := fun _ => ⟨Nat.zero_le _, fun h => absurd rfl (h false)⟩
  tracked := fun _ h => by cases h

theorem Horizon.of_still {s s' : Server} (hn : Numbered s) (h : Horizon s) (st : Still s s')
    (t : Ticks s s') : Horizon s' where
  clock := by
    refine h.clock.of_ticks t fun i => ?_
    rcases st.topXid i with he | ⟨he, hlt⟩
    · rw [he]
      exact Nat.lt_of_lt_of_le (h.clock.topXid i) t.nextXid
    · rw [he]
      exact hlt
  active := by
    intro i hi
    have hi' := (st.xact i).stage_tracked.mp hi
    rcases st.active i (h.active i hi') with ha | hr
    · exact ha
    · -- who is being thrown away is not tracked
      have hu := (h.handed i (.inr hr)).1
      rw [hi'] at hu
      cases hu
  handed := by
    intro i hi
    rw [st.next]
    rcases st.handed i hi with hi | ⟨hr, hu⟩
    · obtain ⟨hu, hlt⟩ := h.handed i hi
      exact ⟨(st.xact i).stage_untracked hu, hlt⟩
    · refine ⟨hu, ?_⟩
      by_contra hle
      rw [(hn.fresh i (Nat.le_of_not_lt hle)).2.2.1] at hr
      cases hr
  positive := by
    intro i hi hne
    rw [(st.kept i).xmin]
    exact h.positive i (st.active_from i hi) hne
  past := by
    intro i
    rw [(st.kept i).xmin]
    exact Nat.le_trans (h.past i) (h.clock.xmin_mono t)
  globalPast := by
    rw [st.globalXmin]
    exact Nat.le_trans h.globalPast (h.clock.xmin_mono t)
  taken := by
    intro i
    rw [(st.xact i).snapshot]
    exact ⟨Nat.le_trans (h.taken i).1 (h.clock.xmin_mono t),
      fun ho => (h.taken i).2 ((st.xact i).phase_open ho)⟩
  tracked := by
    intro i hi
    rw [st.globalXmin, (st.kept i).xmin, (st.xact i).snapshot]
    exact h.tracked i ((st.xact i).stage_tracked.mp hi)

/-! ## A new transaction -/

theorem PredXact.noteXmin_global (p : PredXact) (xmin : Nat) :
    (p.noteXmin xmin).sxactGlobalXmin =
      if p.sxactGlobalXmin = invalidTransactionId then xmin else p.sxactGlobalXmin := by
  unfold PredXact.noteXmin PredXact.oldSerXidSetActiveSerXmin
  by_cases h : p.sxactGlobalXmin = invalidTransactionId
  · rw [if_pos h, if_pos h]
    split <;> rfl
  · rw [if_neg h, if_neg h]
    split <;> rfl

theorem PredXact.begin_finished {p q : PredXact} {i topXid : Nat} {snap : Snapshot} {ro : Bool}
    (h : p.getSerializableTransactionSnapshotInt i snap ro topXid = some q) :
    q.finished = p.finished := by
  have hnote : (p.noteXmin snap.xmin).finished = p.finished := by
    unfold PredXact.noteXmin PredXact.oldSerXidSetActiveSerXmin
    repeat' split
    all_goals rfl
  unfold PredXact.getSerializableTransactionSnapshotInt at h
  split at h
  · cases h
  · simp only at h
    split at h
    all_goals
      cases h
      exact hnote

theorem Server.register_handed {s : Server} {snap : Snapshot} {ro : Bool} {i : Nat}
    (h : (s.register snap ro).Handed i) : s.Handed i := by
  unfold Server.register at h
  simp only at h
  split at h
  · exact h
  · rename_i p hp
    have hf := PredXact.begin_finished hp
    rcases h with h | h
    · exact .inl (hf ▸ h)
    · exact .inr h

section Begun

variable {s s' : Server} {snap : Snapshot} {ro : Bool}

theorem Horizon.taken_begun (h : Horizon s) (b : Begun s s' snap ro) (t : Ticks s s')
    (hpast : snap.xmin ≤ s.getSnapshotData.xmin) (hpos : 0 < snap.xmin) (i : Nat) :
    (s'.xact i).snapshot.xmin ≤ s'.getSnapshotData.xmin ∧
      ((∀ b, (s'.xact i).phase ≠ .ended b) → 0 < (s'.xact i).snapshot.xmin) := by
  have hmono := h.clock.xmin_mono t
  by_cases hi : i = s.next
  · subst hi
    rw [b.snapshot]
    exact ⟨Nat.le_trans hpast hmono, fun _ => hpos⟩
  · rw [b.xact_ne i hi]
    exact ⟨Nat.le_trans (h.taken i).1 hmono, (h.taken i).2⟩

/-- A new transaction with a `SERIALIZABLEXACT`, whose snapshot is not behind. -/
theorem Horizon.of_begun (h : Horizon s) (b : Begun s s' snap ro) (t : Ticks s s')
    (hh : ∀ i, s'.Handed i → s.Handed i)
    (hpast : snap.xmin ≤ s.getSnapshotData.xmin) (hpos : 0 < snap.xmin)
    (hlow : s.pred.sxactGlobalXmin ≤ snap.xmin)
    (hp : s.pred.getSerializableTransactionSnapshotInt s.next snap ro invalidTransactionId =
      some s'.pred) : Horizon s' := by
  have hmono := h.clock.xmin_mono t
  have hx := PredXact.begin_sxact hp
  obtain ⟨-, -, hact, -, -, hglobal⟩ := PredXact.begin_rest hp
  rw [PredXact.noteXmin_global] at hglobal
  have hself : (s'.pred.sxact s.next).xmin = snap.xmin := by
    rw [hx, Function.update_self]
  have hle : s'.pred.sxactGlobalXmin ≤ snap.xmin := by
    rw [hglobal]
    split
    · exact Nat.le_refl _
    · exact hlow
  have hgpos : 0 < s'.pred.sxactGlobalXmin := by
    rw [hglobal]
    split
    · exact hpos
    · rename_i hne
      exact Nat.pos_of_ne_zero hne
  refine ⟨h.clock.of_ticks t ?_, ?_, ?_, ?_, ?_, Nat.le_trans hle (Nat.le_trans hpast hmono),
    h.taken_begun b t hpast hpos, ?_⟩
  · intro i
    by_cases hi : i = s.next
    · subst hi
      rw [hx, Function.update_self]
      exact Nat.lt_of_lt_of_le (Nat.lt_of_le_of_lt (Nat.zero_le _) h.clock.completed) t.nextXid
    · rw [b.sxact_ne i hi]
      exact Nat.lt_of_lt_of_le (h.clock.topXid i) t.nextXid
  · intro i ht
    rw [hact]
    by_cases hi : i = s.next
    · exact List.mem_append_right _ (List.mem_singleton.mpr hi)
    · rw [b.xact_ne i hi] at ht
      exact List.mem_append_left _ (h.active i ht)
  · intro i hi
    obtain ⟨hu, hlt⟩ := h.handed i (hh i hi)
    rw [b.xact_ne i (Nat.ne_of_lt hlt), b.next]
    exact ⟨hu, Nat.lt_succ_of_lt hlt⟩
  · intro i ha hne
    by_cases hi : i = s.next
    · subst hi
      rw [hself]
      exact hpos
    · rw [hact, List.mem_append, List.mem_singleton] at ha
      rw [b.sxact_ne i hi]
      exact h.positive i (ha.resolve_right hi) hne
  · intro i
    by_cases hi : i = s.next
    · subst hi
      rw [hself]
      exact Nat.le_trans hpast hmono
    · rw [b.sxact_ne i hi]
      exact Nat.le_trans (h.past i) hmono
  · intro i ht
    refine ⟨hgpos, ?_⟩
    by_cases hi : i = s.next
    · subst hi
      rw [hself, b.snapshot]
      exact ⟨hle, rfl⟩
    · rw [b.xact_ne i hi] at ht ⊢
      obtain ⟨hg, hlow⟩ := h.tracked i ht
      have hne : s.pred.sxactGlobalXmin ≠ invalidTransactionId := Nat.ne_of_gt hg
      rw [b.sxact_ne i hi, hglobal, if_neg hne]
      exact hlow

/-- A new transaction without. -/
theorem Horizon.of_begun_untracked (h : Horizon s) (b : Begun s s' snap ro) (t : Ticks s s')
    (hh : ∀ i, s'.Handed i → s.Handed i)
    (hpast : snap.xmin ≤ s.getSnapshotData.xmin) (hpos : 0 < snap.xmin)
    (hu : (s'.xact s.next).stage = .untracked) (hp : s'.pred = s.pred) : Horizon s' := by
  have hmono := h.clock.xmin_mono t
  have hold : ∀ i, (s'.xact i).stage = .tracked → s'.xact i = s.xact i := by
    intro i ht
    refine b.xact_ne i ?_
    rintro rfl
    rw [hu] at ht
    cases ht
  refine ⟨h.clock.of_ticks t ?_, ?_, ?_, ?_, ?_, ?_, h.taken_begun b t hpast hpos, ?_⟩
  · intro i
    rw [hp]
    exact Nat.lt_of_lt_of_le (h.clock.topXid i) t.nextXid
  · intro i ht
    rw [hp]
    exact h.active i (hold i ht ▸ ht)
  · intro i hi
    obtain ⟨hu, hlt⟩ := h.handed i (hh i hi)
    rw [b.xact_ne i (Nat.ne_of_lt hlt), b.next]
    exact ⟨hu, Nat.lt_succ_of_lt hlt⟩
  · rw [hp]
    exact h.positive
  · intro i
    rw [hp]
    exact Nat.le_trans (h.past i) hmono
  · rw [hp]
    exact Nat.le_trans h.globalPast hmono
  · intro i ht
    rw [hp, hold i ht]
    exact h.tracked i (hold i ht ▸ ht)

end Begun

theorem Server.exportSnapshot_xmin (s : Server) (i : Nat) :
    (s.exportSnapshot i).xmin = (s.xact i).snapshot.xmin := by
  simp only [Server.exportSnapshot]
  split <;> rfl

/-- The assertions of `GetSerializableTransactionSnapshotInt` about the xmin of the snapshot, where
it is an adopted one: either the transaction needs no `SERIALIZABLEXACT`, or the snapshot is not
behind `SxactGlobalXmin`. -/
def AssertsHold (s : Server) : Label → Prop
  | .importSnapshot i ro => s.mayImport i ro = true →
      ro = true ∧ s.pred.writableSxactCount = 0 ∨
        s.pred.sxactGlobalXmin ≤ (s.exportSnapshot i).xmin
  | _ => True

instance (s : Server) : (l : Label) → Decidable (AssertsHold s l)
  | .importSnapshot i ro => inferInstanceAs (Decidable (s.mayImport i ro = true →
      ro = true ∧ s.pred.writableSxactCount = 0 ∨
        s.pred.sxactGlobalXmin ≤ (s.exportSnapshot i).xmin))
  | .begin _ | .awaitSafe _ | .safeKnown _ | .assignXid _ | .otherXid | .otherEnd _ | .read _ _
  | .conflictOut _ _ _ | .write _ | .tableWrite _ | .conflictIn _ _ _ | .ownLock _ _
  | .tableConflictIn _ _ | .preCommit _ | .postPrepare _ | .endXact _ _ | .release _ _ | .finish _
  | .clear _ | .clearOldLocks | .summarize | .releaseConflicts => .isTrue trivial

/-- Whose snapshot may be adopted has not ended. -/
theorem Server.open_of_mayImport {s : Server} {i : Nat} {ro : Bool} (h : s.mayImport i ro = true) :
    ∀ b, (s.xact i).phase ≠ .ended b := by
  intro b hb
  simp [Server.mayImport, hb] at h

/-- A new transaction with the snapshot that a step gives it. -/
theorem Horizon.of_register {s : Server} {snap : Snapshot} {ro : Bool} {l : Label} (h : Horizon s)
    (hok : AssertsHold s l) (hg : s.Gives snap ro l) (t : Ticks s (s.register snap ro)) :
    Horizon (s.register snap ro) := by
  have b := begun s snap ro
  have hh : ∀ i, (s.register snap ro).Handed i → s.Handed i := fun _ => Server.register_handed
  have hsnap : snap.xmin ≤ s.getSnapshotData.xmin ∧ 0 < snap.xmin ∧
      (ro = true ∧ s.pred.writableSxactCount = 0 ∨ s.pred.sxactGlobalXmin ≤ snap.xmin) := by
    rcases hg with rfl | ⟨i, rfl, hm, rfl⟩
    · -- the clock does not let it fall behind
      exact ⟨Nat.le_refl _, h.clock.xmin_pos, .inr h.globalPast⟩
    · refine ⟨?_, ?_, hok hm⟩
      · rw [s.exportSnapshot_xmin]
        exact (h.taken i).1
      · rw [s.exportSnapshot_xmin]
        exact (h.taken i).2 (Server.open_of_mayImport hm)
  obtain ⟨hpast, hpos, hlow⟩ := hsnap
  rcases b.stage with ⟨-, hp⟩ | ⟨hu, -, hp⟩
  · refine h.of_begun b t hh hpast hpos ?_ hp
    rcases hlow with hout | hlow
    · simp [PredXact.getSerializableTransactionSnapshotInt, hout] at hp
    · exact hlow
  · exact h.of_begun_untracked b t hh hpast hpos hu hp

theorem Horizon.of_prepare {s : Server} (hn : Numbered s) (h : Horizon s) {i : Nat} {p : PredXact}
    (hw : s.working i = true) (hq : Quiet s.pred p) : Horizon (s.prepare i p) := by
  have hstill : Horizon { s with pred := p } :=
    h.of_still hn (.of_quiet hq rfl rfl fun _ => .refl _) (.of_eq rfl rfl rfl)
  have hx : ∀ j, ((s.prepare i p).pred.sxact j).xmin = (p.sxact j).xmin ∧
      ((s.prepare i p).pred.sxact j).topXid = (p.sxact j).topXid := by
    intro j
    obtain ⟨_, _, hx⟩ := s.exists_prepare_sxact i j p
    rw [hx]
    exact ⟨rfl, rfl⟩
  have ht : ∀ j, ((s.prepare i p).xact j).stage = (s.xact j).stage ∧
      ((s.prepare i p).xact j).snapshot = (s.xact j).snapshot := by
    intro j
    obtain ⟨_, hx⟩ := s.exists_prepare_xact i j p
    rw [hx]
    exact ⟨rfl, rfl⟩
  have hopen : ∀ j, (∀ b, ((s.prepare i p).xact j).phase ≠ .ended b) →
      ∀ b, (s.xact j).phase ≠ .ended b := by
    intro j ho
    rw [s.prepare_xact] at ho
    split at ho
    · rename_i hj
      have hrun : (s.xact j).phase = .running := by
        simp only [Server.working, Bool.and_eq_true, beq_iff_eq] at hw
        exact hj ▸ hw.1
      intro b hb
      rw [hrun] at hb
      cases hb
    · exact ho
  refine ⟨⟨hstill.clock.completed, hstill.clock.running, ?_⟩, ?_, ?_, ?_, ?_, hstill.globalPast,
    ?_, ?_⟩
  · intro j
    rw [(hx j).2]
    exact hstill.clock.topXid j
  · intro j hj
    exact hstill.active j ((ht j).1 ▸ hj)
  · intro j hj
    rw [(ht j).1]
    exact hstill.handed j hj
  · intro j hj hne
    rw [(hx j).1]
    exact hstill.positive j hj hne
  · intro j
    rw [(hx j).1]
    exact hstill.past j
  · intro j
    rw [(ht j).2]
    exact ⟨(hstill.taken j).1, fun ho => (hstill.taken j).2 (hopen j ho)⟩
  · intro j hj
    rw [(hx j).1, (ht j).2]
    exact hstill.tracked j ((ht j).1 ▸ hj)

/-! ## The end of a transaction -/

/-- `g` is the least xmin of the open transactions on the list, or zero if there is none. -/
def PredXact.LeastXmin (p : PredXact) (g : Nat) : Prop :=
  (∃ j ∈ p.activeList, j ≠ oldCommittedSxact ∧ g = (p.sxact j).xmin ∧
    ∀ i ∈ p.activeList, (p.sxact i).rolledBack = false → (p.sxact i).committed = false →
      i ≠ oldCommittedSxact → g ≤ (p.sxact i).xmin) ∨
  g = 0 ∧ ∀ i ∈ p.activeList, (p.sxact i).rolledBack = false → (p.sxact i).committed = false →
    i = oldCommittedSxact

theorem PredXact.leastXmin_setNew (p : PredXact) :
    p.LeastXmin p.setNewSxactGlobalXmin.sxactGlobalXmin := by
  have hset : p.setNewSxactGlobalXmin.sxactGlobalXmin =
      (((p.activeList.filter fun i =>
        !(p.sxact i).rolledBack && !(p.sxact i).committed && i != oldCommittedSxact).map
          fun i => (p.sxact i).xmin).min?).getD invalidTransactionId := by
    unfold PredXact.setNewSxactGlobalXmin PredXact.oldSerXidSetActiveSerXmin
    simp only
    split <;> rfl
  rw [hset]
  cases hm : ((p.activeList.filter fun i =>
      !(p.sxact i).rolledBack && !(p.sxact i).committed && i != oldCommittedSxact).map
        fun i => (p.sxact i).xmin).min? with
  | none =>
      right
      refine ⟨rfl, ?_⟩
      intro i hi hr hc
      by_contra hne
      rw [List.min?_eq_none_iff, List.map_eq_nil_iff, List.filter_eq_nil_iff] at hm
      exact hm i hi (by simp [hr, hc, hne])
  | some g =>
      left
      obtain ⟨hmem, hle⟩ := List.min?_eq_some_iff.mp hm
      obtain ⟨j, hj, rfl⟩ := List.mem_map.mp hmem
      obtain ⟨hja, hj⟩ := List.mem_filter.mp hj
      simp only [Bool.and_eq_true, bne_iff_ne] at hj
      refine ⟨j, hja, hj.2, rfl, ?_⟩
      intro i hi hr hc hne
      exact hle _ (List.mem_map.mpr ⟨i, List.mem_filter.mpr ⟨hi, by simp [hr, hc, hne]⟩, rfl⟩)

theorem PredXact.dropXmin_global (p : PredXact) (me : Nat) :
    (p.dropXmin me).sxactGlobalXmin = p.sxactGlobalXmin ∨
      p.LeastXmin (p.dropXmin me).sxactGlobalXmin := by
  unfold PredXact.dropXmin
  split
  · simp only
    split
    · exact .inr (PredXact.leastXmin_setNew _)
    · exact .inl rfl
  · exact .inl rfl

/-- What `ReleasePredicateLocks` leaves alone, and what it may do to the global xmin. -/
theorem PredXact.release_rest (p : PredXact) (me : Nat) (isCommit didWrite : Bool)
    (nextXid : Nat) :
    let q := p.releasePredicateLocks me isCommit didWrite nextXid
    q.activeList = p.activeList ∧ (∀ i ∈ q.finished, i ∈ p.finished) ∧
      (∀ i, (q.sxact i).topXid = (p.sxact i).topXid ∧ (q.sxact i).xmin = (p.sxact i).xmin) ∧
      (q.sxactGlobalXmin = p.sxactGlobalXmin ∨ q.LeastXmin q.sxactGlobalXmin) := by
  intro q
  let marked := p.markEnded me isCommit didWrite nextXid
  let counted := marked.countOut me (p.sxact me).readOnly
  let settled := counted.settleConflicts me isCommit didWrite (p.sxact me).readOnly
  have hq : q = settled.dropXmin me := PredXact.releasePredicateLocks_eq _ _ _ _
  have hquiet : Quiet counted settled := PredXact.quiet_settleConflicts _ _ _ _
  have hsx : q.sxact = settled.sxact := by rw [hq, PredXact.dropXmin_sxact]
  have hact : q.activeList = settled.activeList := by rw [hq, (PredXact.dropXmin_rest me).2.2.1]
  have hcounted : counted.activeList = p.activeList ∧ counted.finished = p.finished ∧
      counted.sxactGlobalXmin = p.sxactGlobalXmin ∧ counted.sxact = marked.sxact := by
    refine ⟨?_, ?_, ?_, PredXact.countOut_sxact _ _⟩
    · exact (PredXact.countOut_rest _ _).1.trans (PredXact.markEnded_rest _ _ _ _).1
    · simp only [counted, marked, PredXact.countOut]
      cases (p.sxact me).readOnly <;> cases isCommit <;> rfl
    · exact (PredXact.countOut_rest _ _).2.2.trans (PredXact.markEnded_rest _ _ _ _).2.2.1
  have hmarked : ∀ i, (marked.sxact i).topXid = (p.sxact i).topXid ∧
      (marked.sxact i).xmin = (p.sxact i).xmin := by
    intro i
    by_cases hi : i = me
    · subst hi
      simp only [marked, PredXact.markEnded_self]
      cases isCommit <;> exact ⟨rfl, rfl⟩
    · simp only [marked, PredXact.markEnded_ne _ _ _ hi, and_self]
  refine ⟨?_, ?_, ?_, ?_⟩
  · rw [hact, hquiet.active, hcounted.1]
  · intro i hi
    have hfin : q.finished = settled.finished := by
      rw [hq]
      simp only [PredXact.dropXmin, PredXact.setNewSxactGlobalXmin,
        PredXact.oldSerXidSetActiveSerXmin]
      repeat' split
      all_goals rfl
    exact hcounted.2.1 ▸ hquiet.finished i (hfin ▸ hi)
  · intro i
    rw [hsx, hquiet.topXid, (hquiet.kept i).xmin, hcounted.2.2.2]
    exact hmarked i
  · rcases PredXact.dropXmin_global settled me with hg | hg
    · left
      rw [hq, hg, hquiet.globalXmin, hcounted.2.2.1]
    · right
      rw [← hq] at hg
      unfold PredXact.LeastXmin at hg ⊢
      rw [hact, hsx]
      exact hg

/-- Who is still tracked was so before, and is open. -/
theorem Numbered.open_of_tracked {s s' : Server} (hn : Numbered s) {i j : Nat} {isCommit : Bool}
    (e : Released s s' i isCommit) (hj : (s'.xact j).stage = .tracked) :
    j ≠ i ∧ (s.xact j).stage = .tracked ∧ j ≠ oldCommittedSxact ∧
      (s'.pred.sxact j).rolledBack = false ∧ (s'.pred.sxact j).committed = false := by
  have hji : j ≠ i := by
    rintro rfl
    rw [e.xact_self] at hj
    cases hj
  rw [e.xact_ne j hji] at hj
  have hj0 := (hn.tracked_bounds hj).1
  obtain ⟨hc, hr, -⟩ := (hn.inOrder j hj0).tracked hj
  exact ⟨hji, hj, hj0, (e.kept_ne j hji).rolledBack.trans hr, (e.kept_ne j hji).committed.trans hc⟩

/-- The global xmin after a release is still behind the clock and below every open
transaction. -/
theorem Horizon.released_global {s s' : Server} (hn : Numbered s) (h : Horizon s) {i : Nat}
    {isCommit : Bool} (e : Released s s' i isCommit)
    (hact : s'.pred.activeList = s.pred.activeList)
    (hxmin : ∀ j, (s'.pred.sxact j).xmin = (s.pred.sxact j).xmin)
    (hglobal : s'.pred.sxactGlobalXmin = s.pred.sxactGlobalXmin ∨
      s'.pred.LeastXmin s'.pred.sxactGlobalXmin) :
    s'.pred.sxactGlobalXmin ≤ s.getSnapshotData.xmin ∧
      ∀ j, (s'.xact j).stage = .tracked → 0 < s'.pred.sxactGlobalXmin ∧
        s'.pred.sxactGlobalXmin ≤ (s'.pred.sxact j).xmin := by
  have hmem : ∀ j, (s'.xact j).stage = .tracked → j ∈ s'.pred.activeList :=
    fun j hj => hact ▸ h.active j (hn.open_of_tracked e hj).2.1
  rcases hglobal with hg | ⟨k, hk, hk0, hg, hleast⟩ | ⟨hg, hnone⟩
  · rw [hg]
    refine ⟨h.globalPast, fun j hj => ?_⟩
    rw [hxmin j]
    obtain ⟨hpos, hle, -⟩ := h.tracked j (hn.open_of_tracked e hj).2.1
    exact ⟨hpos, hle⟩
  · refine ⟨?_, fun j hj => ⟨?_, ?_⟩⟩
    · rw [hg, hxmin k]
      exact h.past k
    · rw [hg, hxmin k]
      exact h.positive k (hact ▸ hk) hk0
    · obtain ⟨-, -, hj0, hr, hc⟩ := hn.open_of_tracked e hj
      exact hleast j (hmem j hj) hr hc hj0
  · refine ⟨hg ▸ Nat.zero_le _, fun j hj => ?_⟩
    obtain ⟨-, -, hj0, hr, hc⟩ := hn.open_of_tracked e hj
    exact absurd (hnone j (hmem j hj) hr hc) hj0

theorem Horizon.of_release {s : Server} (hn : Numbered s) (h : Horizon s) {i : Nat}
    {isCommit : Bool} (hm : s.mayRelease i isCommit = true) :
    Horizon (s.released i isCommit) := by
  have ht := Server.tracked_of_mayRelease hm
  have e := released s i isCommit
  obtain ⟨hact, hfin, hsx, hglobal⟩ :=
    PredXact.release_rest s.pred i isCommit (s.xact i).myXactDidWrite s.nextXid
  have hxmin : ∀ j, ((s.released i isCommit).pred.sxact j).xmin = (s.pred.sxact j).xmin :=
    fun j => (hsx j).2
  obtain ⟨hpast, hlow⟩ := h.released_global hn e hact hxmin hglobal
  refine ⟨⟨h.clock.completed, h.clock.running, ?_⟩, ?_, ?_, ?_, ?_, hpast, ?_, ?_⟩
  · intro j
    exact Nat.lt_of_le_of_lt (Nat.le_of_eq (hsx j).1) (h.clock.topXid j)
  · intro j hj
    exact hact ▸ h.active j (hn.open_of_tracked e hj).2.1
  · intro j hj
    obtain ⟨hu, hlt⟩ := h.handed j (hj.imp_left (hfin j))
    have hji : j ≠ i := by
      rintro rfl
      rw [ht] at hu
      cases hu
    rw [e.xact_ne j hji]
    exact ⟨hu, hlt⟩
  · intro j hj hne
    rw [hxmin j]
    exact h.positive j (hact ▸ hj) hne
  · intro j
    rw [hxmin j]
    exact h.past j
  · intro j
    by_cases hj : j = i
    · subst hj
      rw [e.xact_self]
      exact h.taken j
    · rw [e.xact_ne j hj]
      exact h.taken j
  · intro j hj
    obtain ⟨hji, hj', -⟩ := hn.open_of_tracked e hj
    refine ⟨(hlow j hj).1, (hlow j hj).2, ?_⟩
    rw [hxmin j, e.xact_ne j hji]
    exact (h.tracked j hj').2.2

/-! ## Every run -/

theorem Horizon.of_step {s s' : Server} {l : Label} (hn : Numbered s) (h : Horizon s)
    (hok : AssertsHold s l) (hs : s.step l = some s') : Horizon s' := by
  have t := ticks_of_step hs
  cases Server.event_of_step hs with
  | still st => exact h.of_still hn st t
  | begin snap ro hg hb =>
      subst hb
      exact h.of_register hok hg t
  | prepare i p hw hq _ hb => exact hb ▸ h.of_prepare hn hw hq
  | release i b hm hb => exact hb ▸ h.of_release hn hm

theorem horizon_run {tr : List Label} {s : Server}
    (r : server.Run AssertsHold Server.initial tr s) : Numbered s ∧ Horizon s :=
  r.invariant (I := fun s => Numbered s ∧ Horizon s)
    (fun _ _ _ hok hs h => ⟨h.1.of_event (Server.event_of_step hs), h.2.of_step h.1 hok hs⟩)
    ⟨numbered_initial, horizon_initial⟩

/-- The snapshot of a transaction that has a `SERIALIZABLEXACT` does not fail them. -/
theorem assertsHold_of_tracked {tr : List Label} {s : Server} {i : Nat}
    (r : server.Run AssertsHold Server.initial tr s) (ht : (s.xact i).stage = .tracked)
    (ro : Bool) : AssertsHold s (.importSnapshot i ro) := by
  obtain ⟨-, h⟩ := horizon_run r
  obtain ⟨-, hle, hsnap⟩ := h.tracked i ht
  intro _
  rw [s.exportSnapshot_xmin, ← hsnap]
  exact .inr hle

/-- As long as no adopted snapshot fails the assertions, `SxactGlobalXmin` is the xmin of a
snapshot and not above that of any open transaction that has a `SERIALIZABLEXACT`; and when
`ClearOldPredicateLocks` throws a transaction away, all xids there were when it finished had ended
before the snapshot of any of these was taken. -/
theorem old_clear_past_all {tr : List Label} {s : Server} {w : Nat}
    (r : server.Run AssertsHold Server.initial tr s) (ht : (s.xact w).stage = .tracked) :
    (0 < s.pred.sxactGlobalXmin ∧ s.pred.sxactGlobalXmin ≤ (s.xact w).snapshot.xmin) ∧
      ∀ i, s.pred.clearing i = .old →
        (s.pred.sxact i).finishedBefore ≤ (s.xact w).snapshot.xmin := by
  obtain ⟨-, h⟩ := horizon_run r
  obtain ⟨hpos, hle, hsnap⟩ := h.tracked w ht
  rw [← hsnap]
  refine ⟨⟨hpos, hle⟩, fun i hc => ?_⟩
  unfold PredXact.clearing at hc
  split at hc
  · rename_i hor
    exact Nat.le_trans (hor.resolve_left (Nat.ne_of_gt hpos)) hle
  · split at hc
    · split at hc <;> cases hc
    · cases hc

/-- A transaction that begins after the end of the first one, and of the xid that was running
then, and one that adopts its snapshot, let the first one be cleared. -/
theorem old_clear_past_all_later :
    ∃ tr s, server.Run AssertsHold Server.initial tr s ∧ s.pred.clearing 1 = .old ∧
      (s.xact 3).stage = .tracked ∧
      (s.pred.sxact 1).finishedBefore ≤ (s.xact 3).snapshot.xmin := by
  let tr : List Label :=
    [.begin false, .assignXid 1, .otherXid, .preCommit 1, .endXact 1 true, .release 1 true,
      .otherEnd 4, .begin false, .otherXid, .importSnapshot 2 true]
  obtain ⟨s, run, h⟩ := server.exists_runIn AssertsHold (s := Server.initial) tr
    (p := fun s => decide (s.pred.clearing 1 = .old ∧ (s.xact 3).stage = .tracked))
    (by decide +kernel)
  obtain ⟨hc, ht⟩ := of_decide_eq_true h
  exact ⟨tr, s, run, hc, ht, (old_clear_past_all run ht).2 1 hc⟩

/-- The first transaction is read-only and goes without a `SERIALIZABLEXACT`; the second commits
after that, a third begins, and the fourth, read-only, adopts the snapshot of the first.  Then the
second is found to be old, although the fourth does not see its commit. -/
theorem old_clear_behind_adopted :
    ∃ tr s, server.Run Machine.Any Server.initial tr s ∧ s.pred.clearing 2 = .old ∧
      (s.xact 4).stage = .tracked ∧ (s.pred.sxact 2).committed = true ∧
      (s.xact 4).snapshot.xmin ≤ (s.pred.sxact 2).topXid ∧
      (s.xact 4).snapshot.xmin < s.pred.sxactGlobalXmin := by
  let tr : List Label :=
    [.begin true, .begin false, .assignXid 2, .preCommit 2, .endXact 2 true, .release 2 true,
      .finish 2, .begin false, .importSnapshot 1 true]
  obtain ⟨s, run, h⟩ := server.exists_run (s := Server.initial) tr
    (p := fun s => decide (s.pred.clearing 2 = .old ∧ (s.xact 4).stage = .tracked ∧
      (s.pred.sxact 2).committed = true ∧ (s.xact 4).snapshot.xmin ≤ (s.pred.sxact 2).topXid ∧
      (s.xact 4).snapshot.xmin < s.pred.sxactGlobalXmin))
    (by decide +kernel)
  exact ⟨tr, s, run, of_decide_eq_true h⟩

end BullFrog.Ssi
