/-
# `BullFrog.Protocol.ExactlyOnce` — migrate bits and committed rows

A migrate bit is raised when a statement ends; the row it stands for becomes
permanent, or vanishes, when the transaction ends.  The two agree in every state
with no transaction open provided that

    a statement ends owing only rows it has inserted itself
        (no claims left over from a statement that failed), and
    a transaction with a migrated row is not undone.

These are the two halves of `KeepsMarks`, a condition on the state before a step.
The code checks neither, and each can be broken from a client: `BEGIN`, a
migration statement and `ROLLBACK` break the second.

Under `KeepsMarks` a migrated tuple is accounted for by one transaction, committed
or still open (`Accounts`).  Still open is not enough for another backend that
skips the tuple: its statement returns, and the row it counted on is one it
cannot see.  It can rely on the row if the transaction that raised the bit has ended
wherever the bit is found set, in `MigrateTuple` or in the wait loop (`ReadsSettled`):
what is settled when it is read is settled when the statement returns (`Settles`).
-/
import BullFrog.Protocol.Schedule

namespace BullFrog

namespace TBlock

theorem isOpen_startTransactionCommand {x : TBlock} (h : x.isAborted = false)
    (h' : x ≠ .abortEnd) : x.startTransactionCommand.isOpen = true := by
  cases x <;> first | rfl | exact absurd rfl h' | cases h

theorem isOpen_start_of_isOpen {x : TBlock} (h : x.isOpen = true) :
    x.startTransactionCommand.isOpen = true := by
  cases x <;> first | rfl | exact h

theorem isOpen_runXactStmt {x : TBlock} (h : x.isOpen = true) (st : Option XactStmt) :
    (x.runXactStmt st).isOpen = true := by
  cases st with
  | none => exact h
  | some c => cases c <;> cases x <;> first | rfl | exact h

theorem isOpen_of_pending {x y : TBlock} (h : x.isOpen = true)
    (hx : x.commitTransactionCommand = (y, .pending)) : y.isOpen = true := by
  cases x <;> simp_all [commitTransactionCommand, isOpen] <;> subst hx <;> rfl

theorem start_ne_abortEnd {x : TBlock} (h : x ≠ .abortEnd) :
    x.startTransactionCommand ≠ .abortEnd := by
  cases x <;> simp_all [startTransactionCommand]

theorem stmt_of_abortEnd {x : TBlock} {st : Option XactStmt} (h : x ≠ .abortEnd)
    (h' : x.runXactStmt st = .abortEnd) : st ≠ none := by
  rintro rfl
  exact h h'

theorem commit_ne_abortEnd {x y : TBlock} {f : Fate}
    (h : x.commitTransactionCommand = (y, f)) : y ≠ .abortEnd := by
  cases x <;> cases h <;> simp

theorem abortCurrent_ne_abortEnd (x : TBlock) : x.abortCurrentTransaction ≠ .abortEnd := by
  cases x <;> simp [abortCurrentTransaction]

end TBlock

namespace Session

/-- The rows the transaction can still commit; none once its claims are being
given up. -/
def live (s : Session) : List Key :=
  match s.pc with
  | .resetLock _ => []
  | _ => s.rows

/-- The action undoes the transaction: an error, or the end of a `ROLLBACK`. -/
def discards (s : Session) : Action → Bool
  | .error _ => true
  | .next | .sync => s.pc.over && s.xact.commitTransactionCommand.2 == .discarded
  | _ => false

variable {bits : Key → Status} {s s' : Session} {a : Action} {eff : Effect} {e : Eid}

theorem live_of_over (h : s.pc.over = true) : s.live = s.rows := by
  cases hpc : s.pc <;> simp_all [Pc.over, live]

/-- What a step does to the rows: nothing, one more, all committed, all discarded. -/
theorem Move.live_cases (h : Move bits s a s' eff) :
    (s'.live = s.live ∧ ∀ t, eff ≠ .commit t) ∨
    (∃ e, s.pc = .insertRow e ∧ s'.live = s.live ++ [(s.bitmapNum, e)] ∧ eff = .skip) ∨
    (s'.live = [] ∧ eff = .commit s.live ∧ s.pc.over = true) ∨
    (s'.live = [] ∧ eff = .skip ∧ s.discards a = true) := by
  cases h with
  | insertRow e hpc => exact .inr (.inl ⟨e, hpc, by simp [live, hpc], rfl⟩)
  | failUndo _ _ _ | fail _ _ _ => exact .inr (.inr (.inr ⟨rfl, rfl, rfl⟩))
  | finishCommit a x hpc hx =>
      have hover : s.pc.over = true := by rcases hpc with ⟨-, h⟩ | ⟨-, h⟩ <;> rw [h] <;> rfl
      exact .inr (.inr (.inl ⟨rfl, by rw [live_of_over hover], hover⟩))
  | finishDiscard a x hpc hx =>
      refine .inr (.inr (.inr ⟨rfl, rfl, ?_⟩))
      rcases hpc with ⟨rfl, h⟩ | ⟨rfl, h⟩ <;> simp [discards, h, hx, Pc.over]
  | finishPending a x hpc hx =>
      refine .inl ⟨?_, by simp⟩
      rcases hpc with ⟨-, h⟩ | ⟨-, h⟩ <;> simp [live, h]
  | leaveLoop hpc _ | startSweep hpc _ =>
      refine .inl ⟨?_, by simp⟩
      rcases hpc with hpc | ⟨_, hpc⟩ <;> simp [live, hpc]
  | bind _ hpc | execute _ hpc _ | pass _ hpc _ _ | noInsert _ hpc | endMigration hpc _
  | endOther hpc _ | seenMigrated _ hpc _ | readMigrate _ hpc _ | seenLocked _ hpc _
  | readLock _ hpc _ | acquire _ hpc | foundMigrated _ hpc _ | recheckMigrate _ hpc _
  | foundLocked _ hpc _ | recheckLock _ hpc _ | setLock _ hpc | releaseClaimed _ hpc
  | appendClaimed _ hpc | releaseBusy _ hpc | appendBusy _ hpc | releaseDone _ hpc
  | setMigrate _ _ hpc | deleteCell _ _ _ hpc _ | keepCell _ _ _ hpc _ | freeLists hpc
  | endStatement hpc _ | resetLock _ _ hpc | undone hpc =>
      exact .inl ⟨by simp [live, hpc, clear, abort], by simp⟩

/-- A transaction commits between statements. -/
theorem Move.of_commit {t : List Key} (h : Move bits s a s' (.commit t)) :
    t = s.live ∧ s'.live = [] ∧ s.pc.over = true := by
  rcases h.live_cases with ⟨-, h⟩ | ⟨_, _, _, h⟩ | ⟨hlive, h, hover⟩ | ⟨-, h, -⟩
  · exact absurd rfl (h t)
  · cases h
  · cases h; exact ⟨rfl, hlive, hover⟩
  · cases h

/-- The row about to be inserted is on `InProgLocalList0`. -/
theorem Move.to_insertRow (h : Move bits s a s' eff) (hpc : s'.pc = .insertRow e) :
    e ∈ s'.inProgLocalList0 := by
  cases h with
  | appendClaimed e' _ => cases hpc; simp
  | bind _ h => simp [h] at hpc
  | _ => simp [abort] at hpc

/-- Bits are raised for the list as it stands when `PortalRun` returns. -/
theorem Move.to_setMigrate {todo : List Eid} (h : Move bits s a s' eff)
    (hpc : s'.pc = .setMigrate todo) :
    s'.bitmapNum = s.bitmapNum ∧ s'.rows = s.rows ∧
      ((a = .portalEnd ∧ s.migrateflag = true ∧ todo = s.inProgLocalList0) ∨
        ∃ e, s.pc = .setMigrate (e :: todo)) := by
  cases h with
  | endMigration _ hf => cases hpc; exact ⟨rfl, rfl, .inl ⟨rfl, hf, rfl⟩⟩
  | setMigrate e _ h => cases hpc; exact ⟨rfl, rfl, .inr ⟨e, h⟩⟩
  | bind _ h => simp [h] at hpc
  | _ => simp [abort] at hpc

/-- A statement is over with nothing owed, after another one, or with its rows gone. -/
theorem Move.to_over (h : Move bits s a s' eff) (hs : Mode s) (hover : s'.pc.over = true) :
    s.pc.over = true ∨ s.owed = [] ∨ s'.live = [] := by
  cases h with
  | bind _ hpc => exact .inl hover
  | freeLists hpc => exact .inr (.inl (by simp [owed, hpc]))
  | endOther hpc hf => exact .inr (.inl (by simp [owed, hpc, hs.list0 hf]))
  | endStatement hpc _ => exact .inl (by rw [hpc]; rfl)
  | finishPending _ _ hpc _ | finishCommit _ _ hpc _ | finishDiscard _ _ hpc _ =>
      rcases hpc with ⟨-, hpc⟩ | ⟨-, hpc⟩ <;> exact .inl (by rw [hpc]; rfl)
  | undone _ | fail _ _ _ => exact .inr (.inr rfl)
  | _ => cases hover

/-- Rows belong to an open transaction. -/
structure Opens (s : Session) : Prop where
  rows : s.rows ≠ [] → s.xact.isOpen = true
  scanning : s.pc.scanning = true → s.xact.isOpen = true ∨ (s.pc = .scan ∧ s.stmt ≠ none)
  ended : s.xact = .abortEnd → s.stmt ≠ none ∧ s.pc ≠ .idle ∧ s.pc.scanning = false

theorem Move.opens (h : Move bits s a s' eff) (hs : Opens s) : Opens s' := by
  obtain ⟨hrows, hscan, hend⟩ := hs
  cases h with
  | bind k hpc =>
      have hne : s.xact ≠ .abortEnd := fun h => (hend h).2.1 hpc
      exact ⟨fun h => TBlock.isOpen_start_of_isOpen (hrows h), by simp [hpc, Pc.scanning],
        fun h => absurd h (TBlock.start_ne_abortEnd hne)⟩
  | execute x hpc hx =>
      have hne : s.xact ≠ .abortEnd := fun h => (hend h).2.1 hpc
      refine ⟨fun h => TBlock.isOpen_start_of_isOpen (hrows h), ?_,
        fun h => absurd h (TBlock.start_ne_abortEnd hne)⟩
      intro _
      -- in a failed block the statement is a transaction command, and scans nothing
      cases hab : s.xact.isAborted with
      | false => exact .inl (TBlock.isOpen_startTransactionCommand hab hne)
      | true => exact .inr ⟨rfl, by rcases hx hab with h | h <;> simp [h]⟩
  | endMigration hpc _ | endOther hpc _ =>
      have hne : s.xact ≠ .abortEnd := fun h => by simp [hpc, Pc.scanning] at hend; exact hend h
      exact ⟨fun h => TBlock.isOpen_runXactStmt (hrows h) _, by simp [Pc.scanning],
        fun h => ⟨TBlock.stmt_of_abortEnd hne h, by simp [Pc.scanning]⟩⟩
  | failUndo x hc _ =>
      exact ⟨hrows, by simp [Pc.scanning], fun h => ⟨(hend h).1, by simp [Pc.scanning]⟩⟩
  | undone _ | fail _ _ _ =>
      exact ⟨by simp [abort], by simp [abort, Pc.scanning],
        fun h => absurd h (TBlock.abortCurrent_ne_abortEnd _)⟩
  | finishPending a x hpc hx =>
      exact ⟨fun h => TBlock.isOpen_of_pending (hrows h) hx, by simp [Pc.scanning],
        fun h => absurd h (TBlock.commit_ne_abortEnd hx)⟩
  | finishCommit a x hpc hx | finishDiscard a x hpc hx =>
      exact ⟨by simp, by simp [Pc.scanning], fun h => absurd h (TBlock.commit_ne_abortEnd hx)⟩
  | endStatement hpc hst =>
      exact ⟨hrows, by simp [Pc.scanning], fun h => absurd hst (hend h).1⟩
  | leaveLoop hpc _ | startSweep hpc _ =>
      exact ⟨hrows, by simp [Pc.scanning], fun h => ⟨(hend h).1, by simp [Pc.scanning]⟩⟩
  | _ => constructor <;> simp_all [Pc.scanning, clear]

end Session

/-! ## Every migrated tuple is accounted for -/

section

variable {B : Type}

/-- The number of committed transactions that inserted the row of `r`. -/
def System.inserters (g : System B) (r : Key) : Nat := g.committed.countP fun t => decide (r ∈ t)

/-- A statement ends owing only rows of its own transaction, and no transaction
with a migrated row is undone. -/
def KeepsMarks (g : System B) (l : B × Action) : Prop :=
  (l.2 = .portalEnd → (g.sess l.1).migrateflag = true →
    ∀ e ∈ (g.sess l.1).inProgLocalList0, ((g.sess l.1).bitmapNum, e) ∈ (g.sess l.1).rows) ∧
  ((g.sess l.1).discards l.2 = true → ∀ r ∈ (g.sess l.1).rows, (g.bits r).migrate = false)

instance (g : System B) (l : B × Action) : Decidable (KeepsMarks g l) :=
  inferInstanceAs (Decidable (_ ∧ _))

/-- The rows of a backend belong to claims of its own, and are migrated once the
statement is over. -/
structure Backed (bits : Key → Status) (s : Session) : Prop where
  mode : s.Mode
  opens : s.Opens
  insertRow : ∀ e, s.pc = .insertRow e → e ∈ s.inProgLocalList0
  raising : ∀ todo, s.pc = .setMigrate todo → ∀ e ∈ todo, (s.bitmapNum, e) ∈ s.rows
  held : ∀ r ∈ s.live, r ∈ s.held
  owes : ∀ r ∈ s.live, s.Owes bits r
  ended : s.pc.over = true → ∀ r ∈ s.live, (bits r).migrate = true

variable {bits₀ : Key → Status} {g : System B} {b b' : B} {a : Action} {s' : Session}
  {eff : Effect} {r : Key}

theorem Session.live_subset_rows {s : Session} (h : r ∈ s.live) : r ∈ s.rows := by
  unfold live at h
  split at h
  · cases h
  · exact h

theorem Session.live_of_undoing {s : Session} (h : s.undoing) : s.live = [] := by
  obtain ⟨_, hpc⟩ := h
  simp [live, hpc]

/-- Rows the mover keeps live were live, or are those of the claim it is inserting. -/
theorem Backed.live_from (hO : Ownership bits₀ g) (hB : Backed g.bits (g.sess b))
    (hm : Session.Move g.bits (g.sess b) a s' eff) (hr : r ∈ s'.live) :
    (r ∈ (g.sess b).live ∨ ((∃ e, (g.sess b).pc = .insertRow e ∧ r = ((g.sess b).bitmapNum, e)) ∧
      eff = .skip)) ∧
      r ∈ (g.sess b).held ∧ (g.sess b).Owes g.bits r ∧ eff ≠ .resetLock r.1 r.2 := by
  have hreset : eff ≠ .resetLock r.1 r.2 := by
    rintro rfl
    rw [Session.live_of_undoing hm.of_resetLock.2.2] at hr
    cases hr
  rcases hm.live_cases with ⟨h, -⟩ | ⟨e, hpc, h, rfl⟩ | ⟨h, -⟩ | ⟨h, -⟩
  · rw [h] at hr
    exact ⟨.inl hr, hB.held r hr, hB.owes r hr, hreset⟩
  · rw [h] at hr
    rcases List.mem_append.mp hr with hr | hr
    · exact ⟨.inl hr, hB.held r hr, hB.owes r hr, hreset⟩
    · obtain rfl := List.mem_singleton.mp hr
      have howed : e ∈ (g.sess b).owed := by
        simp only [Session.owed, hpc]
        exact hB.insertRow e hpc
      exact ⟨.inr ⟨⟨e, hpc, rfl⟩, rfl⟩, hO.owed_held b e howed, .inr ⟨rfl, howed⟩, hreset⟩
  · rw [h] at hr; cases hr
  · rw [h] at hr; cases hr

theorem Backed.self (hO : Ownership bits₀ g) (hB : Backed g.bits (g.sess b))
    (hm : Session.Move g.bits (g.sess b) a s' eff) (hok : KeepsMarks g (b, a)) :
    Backed (eff.onBits g.bits) s' where
  mode := hm.mode hB.mode
  opens := hm.opens hB.opens
  insertRow _ := hm.to_insertRow
  raising todo hpc e he := by
    obtain ⟨hk, hrows, ⟨ha, hf, rfl⟩ | ⟨e', hpc'⟩⟩ := hm.to_setMigrate hpc
    · rw [hk, hrows]
      exact hok.1 ha hf e he
    · rw [hk, hrows]
      exact hB.raising _ hpc' e (List.mem_cons_of_mem _ he)
  held r hr := by
    obtain ⟨-, hheld, -, hreset⟩ := hB.live_from hO hm hr
    rw [hm.held_eq]
    cases eff with
    | setLock k e => exact List.mem_append_left _ hheld
    | resetLock k e =>
        refine (hO.held_nodup b).mem_erase_iff.mpr ⟨fun h => hreset (by rw [h]), hheld⟩
    | _ => exact hheld
  owes r hr := by
    obtain ⟨hfrom, -, howes, hreset⟩ := hB.live_from hO hm hr
    refine hm.owes howes hreset ?_
    intro hpc
    rcases hfrom with hfrom | ⟨⟨e, hpc', -⟩, -⟩
    · exact hB.ended (by rw [hpc]; rfl) r hfrom
    · rw [hpc] at hpc'; cases hpc'
  ended hover r hr := by
    obtain ⟨hfrom, -, howes, -⟩ := hB.live_from hO hm hr
    refine Effect.onBits_migrate.mpr (.inl ?_)
    rcases hm.to_over hB.mode hover with h | h | h
    · rcases hfrom with hfrom | ⟨⟨e, hpc, -⟩, -⟩
      · exact hB.ended h r hfrom
      · rw [hpc] at h; cases h
    · refine howes.resolve_right ?_
      intro hcon
      rw [h] at hcon
      cases hcon.2
    · rw [h] at hr; cases hr

/-- A bit is raised for a live row. -/
theorem Backed.live_of_setMigrate {bits : Key → Status} {s : Session} {k : BitmapNum} {e : Eid}
    (hB : Backed bits s) (hm : Session.Move bits s a s' (.setMigrate k e)) : (k, e) ∈ s'.live := by
  cases hm with
  | setMigrate _ todo hpc => exact hB.raising _ hpc e List.mem_cons_self

/-- More migrate bits do no harm. -/
theorem Backed.mono {bits bits' : Key → Status} {s : Session}
    (h : ∀ r, (bits r).migrate = true → (bits' r).migrate = true) (hB : Backed bits s) :
    Backed bits' s :=
  { hB with
    owes := fun r hr => (hB.owes r hr).imp_left (h r)
    ended := fun hover r hr => h r (hB.ended hover r hr) }

/-- A tuple that is not migrated has no committed row; one that is migrated has
one committed row, or else a live one. -/
structure Accounts (g : System B) : Prop where
  backed : ∀ b, Backed g.bits (g.sess b)
  unmarked : ∀ r, (g.bits r).migrate = false → g.inserters r = 0
  accounted : ∀ r, (g.bits r).migrate = true →
    (g.inserters r = 1 ∧ ∀ b, r ∉ (g.sess b).live) ∨
    (g.inserters r = 0 ∧ ∃ b, r ∈ (g.sess b).live)

variable [DecidableEq B]

theorem inserters_of_not_mem (h : ∀ t, eff = .commit t → r ∉ t) :
    (g.after b s' eff).inserters r = g.inserters r := by
  cases eff with
  | commit t => simp [System.inserters, Effect.onCommitted, h t rfl]
  | _ => rfl

theorem inserters_of_mem {t : List Key} (h : r ∈ t) :
    (g.after b s' (.commit t)).inserters r = g.inserters r + 1 := by
  simp [System.inserters, Effect.onCommitted, h]

/-- The row of a migrated tuple does not become live. -/
theorem Accounts.live_before (hO : Ownership bits₀ g) (hA : Accounts g)
    (hm : Session.Move g.bits (g.sess b) a s' eff) (hmig : (g.bits r).migrate = true) (b' : B)
    (hr : r ∈ ((g.after b s' eff).sess b').live) : r ∈ (g.sess b').live := by
  by_cases hb : b' = b
  · subst hb
    rw [after_sess_self] at hr
    obtain ⟨hold | ⟨⟨e, hpc, rfl⟩, -⟩, -⟩ := (hA.backed b').live_from hO hm hr
    · exact hold
    · -- the row being inserted is not migrated yet
      have howed : e ∈ (g.sess b').owed := by
        simp only [Session.owed, hpc]
        exact (hA.backed b').insertRow e hpc
      rw [hO.owed_unmigrated b' e howed] at hmig
      cases hmig
  · rwa [after_sess_ne hb] at hr

/-- A migrated row stays live until its transaction commits. -/
theorem Accounts.live_iff (hO : Ownership bits₀ g) (hA : Accounts g)
    (hm : Session.Move g.bits (g.sess b) a s' eff) (hok : KeepsMarks g (b, a))
    (hmig : (g.bits r).migrate = true) (hnot : ∀ t, eff = .commit t → r ∉ t) (b' : B) :
    r ∈ ((g.after b s' eff).sess b').live ↔ r ∈ (g.sess b').live := by
  refine ⟨hA.live_before hO hm hmig b', fun hr => ?_⟩
  by_cases hb : b' = b
  · subst hb
    rw [after_sess_self]
    rcases hm.live_cases with ⟨h, -⟩ | ⟨e, -, h, -⟩ | ⟨-, rfl, -⟩ | ⟨-, -, hd⟩
    · rwa [h]
    · rw [h]
      exact List.mem_append_left _ hr
    · exact absurd hr (hnot _ rfl)
    · rw [hok.2 hd r (Session.live_subset_rows hr)] at hmig
      cases hmig
  · rwa [after_sess_ne hb]

theorem Accounts.after (hO : Ownership bits₀ g) (hA : Accounts g)
    (hm : Session.Move g.bits (g.sess b) a s' eff) (hok : KeepsMarks g (b, a)) :
    Accounts (g.after b s' eff) where
  backed := forall_after (P := fun _ s => Backed (eff.onBits g.bits) s)
    ((hA.backed b).self hO hm hok)
    fun b' _ => (hA.backed b').mono fun _ h => Effect.onBits_migrate.mpr (.inl h)
  unmarked r h := by
    have hmig : (g.bits r).migrate = false := by
      refine Bool.eq_false_iff.mpr ?_
      intro hmig
      rw [after_bits, Effect.onBits_migrate.mpr (.inl hmig)] at h
      cases h
    rw [inserters_of_not_mem, hA.unmarked r hmig]
    rintro t rfl hr
    obtain ⟨rfl, -, hover⟩ := hm.of_commit
    rw [(hA.backed b).ended hover r hr] at hmig
    cases hmig
  accounted r h := by
    by_cases hcommit : ∃ t, eff = .commit t ∧ r ∈ t
    · obtain ⟨t, rfl, hr⟩ := hcommit
      obtain ⟨rfl, hlive, hover⟩ := hm.of_commit
      rcases hA.accounted r ((hA.backed b).ended hover r hr) with ⟨-, hno⟩ | ⟨hzero, -⟩
      · exact absurd hr (hno b)
      · refine .inl ⟨by rw [inserters_of_mem hr, hzero], ?_⟩
        intro b' hb'
        by_cases hb : b' = b
        · subst hb
          rw [after_sess_self, hlive] at hb'
          cases hb'
        · -- the row would be backed by two claims
          rw [after_sess_ne hb] at hb'
          exact hb (hO.held_unique b' b r ((hA.backed b').held r hb') ((hA.backed b).held r hr))
    · have hnot : ∀ t, eff = .commit t → r ∉ t := fun t ht hr => hcommit ⟨t, ht, hr⟩
      rw [inserters_of_not_mem hnot]
      rcases Effect.onBits_migrate.mp h with hmig | rfl
      · simp only [hA.live_iff hO hm hok hmig hnot]
        exact hA.accounted r hmig
      · have hclear : g.bits r = ⟨true, false⟩ := (hO.finds hm).1
        refine .inr ⟨hA.unmarked r (by rw [hclear]), b, ?_⟩
        rw [after_sess_self]
        exact (hA.backed b).live_of_setMigrate hm

/-- Where the step finds a migrate bit set, the transaction that raised it has ended, or is the
backend's own: no other one still has the row. -/
def ReadsSettled (g : System B) (l : B × Action) : Prop :=
  ∀ e, (g.sess l.1).FindsSet g.bits l.2 e → ∀ b', b' ≠ l.1 →
    ((g.sess l.1).bitmapNum, e) ∉ (g.sess b').live

/-- The tuple is migrated, and no backend other than `b` has its row in an open transaction. -/
def Settled (g : System B) (b : B) (r : Key) : Prop :=
  (g.bits r).migrate = true ∧ ∀ b', b' ≠ b → r ∉ (g.sess b').live

/-- Every backend's passed tuples are settled, or still to be seen to. -/
def Settles (g : System B) : Prop :=
  ∀ b, ∀ e ∈ (g.sess b).passed, ¬ (g.sess b).undoing → (g.sess b).Covers (Settled g b) e

/-- What is settled stays settled. -/
theorem Settled.after (hO : Ownership bits₀ g) (hA : Accounts g)
    (hm : Session.Move g.bits (g.sess b) a s' eff) {c : B} (h : Settled g c r) :
    Settled (g.after b s' eff) c r :=
  ⟨Effect.onBits_migrate.mpr (.inl h.1),
    fun b' hb' hr => h.2 b' hb' (hA.live_before hO hm h.1 b' hr)⟩

/-- The tuple a backend raises the bit of is its own. -/
theorem Settled.of_raise (hO : Ownership bits₀ g) (hA : Accounts g) {e : Eid}
    (howed : e ∈ (g.sess b).owed) (heff : eff = .setMigrate (g.sess b).bitmapNum e) :
    Settled (g.after b s' eff) b ((g.sess b).bitmapNum, e) := by
  refine ⟨Effect.onBits_migrate.mpr (.inr heff), ?_⟩
  intro b' hb' hr
  rw [after_sess_ne hb'] at hr
  exact hb' (hO.held_unique b' b _ ((hA.backed b').held _ hr) (hO.owed_held b e howed))

theorem Settles.after (hO : Ownership bits₀ g) (hA : Accounts g) (hC : Covered g)
    (h : Settles g) (hm : Session.Move g.bits (g.sess b) a s' eff)
    (hok : ReadsSettled g (b, a)) : Settles (g.after b s' eff) := by
  intro c
  by_cases hc : c = b
  · subst hc
    rw [after_sess_self]
    refine hm.covers (hC.sweeps c) (fun e => .after hO hA hm) ?_ ?_ (h c)
    · intro e hfinds
      exact .after hO hA hm ⟨hfinds.2.2, hok e hfinds⟩
    · intro e
      exact .of_raise hO hA
  · rw [after_sess_ne hc]
    intro e he hu
    exact (h c e he hu).imp_left (.after hO hA hm)

omit [DecidableEq B] in
/-- `ReadsSettled`, as it is computed: a step reads one bit at most. -/
theorem readsSettled_iff (g : System B) (l : B × Action) :
    ReadsSettled g l ↔ ∀ e ∈ (g.sess l.1).reads, l.2 = .next →
      (g.bits ((g.sess l.1).bitmapNum, e)).migrate = true → ∀ b', b' ≠ l.1 →
        ((g.sess l.1).bitmapNum, e) ∉ (g.sess b').live :=
  ⟨fun h e hr hn hm => h e ⟨hn, hr, hm⟩, fun h e hs => h e hs.2.1 hs.1 hs.2.2⟩

instance {C : Type} [Fintype C] [DecidableEq C] (g : System C) (l : C × Action) :
    Decidable (ReadsSettled g l) :=
  decidable_of_iff _ (readsSettled_iff g l).symm

end

end BullFrog
