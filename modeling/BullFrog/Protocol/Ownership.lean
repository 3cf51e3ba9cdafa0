/-
# `BullFrog.Protocol.Ownership` — who has claimed a tuple, and what may happen to its bits

`MigrateTuple` claims a tuple by double-checked locking; the two other writers
of a bitmap, `post_query_tasks` and `txn_error_handling`, take no lock at all.
The invariant that makes this safe ties four things together:

    the lock bit is set      ⟺  it was set at the start, or some backend holds the claim
    a claim has one holder, and the holder has it once
    what a backend still owes is held by it, and is not migrated
    between the second check and the store, both bits are clear

The last line is where the partition lock is used: it keeps a second backend
from standing between the check and the store for the same tuple.  The third
line is why neither unlocked loop can do harm.  A backend raises or clears
bits only for what it owes, it owes nothing twice, and an eid it has released
is no longer owed, so clearing it a second time is impossible even when
another backend has claimed it in the meantime.

Everything is relative to the bitmap the run starts from, `bits₀`: a tuple that
is locked or migrated there is never claimed.
-/
import BullFrog.Protocol.System

namespace BullFrog

/-! ## Two views of a backend -/

namespace Session

/-- The claims the backend still has to settle, by raising the migrate bit or by
taking the lock bit back. -/
def owed (s : Session) : List Eid :=
  match s.pc with
  | .releaseClaimed e | .appendClaimed e => s.inProgLocalList0 ++ [e]
  | .setMigrate todo | .resetLock todo => todo
  | .sweep _ _ | .freeLists => []
  | _ => s.inProgLocalList0

/-- The tuple whose partition lock the backend holds. -/
def inside (s : Session) : Option Eid :=
  match s.pc with
  | .recheckMigrate e | .recheckLock e | .setLock e => some e
  | .releaseClaimed e | .releaseBusy e | .releaseDone e => some e
  | _ => none

variable {bits : Key → Status} {s s' : Session} {a : Action} {eff : Effect}
  {k : BitmapNum} {e : Eid}

theorem Move.held_eq (h : Move bits s a s' eff) :
    s'.held = match eff with
      | .setLock k e => s.held ++ [(k, e)]
      | .resetLock k e => s.held.erase (k, e)
      | _ => s.held := by
  cases h <;> rfl

/-- How a step changes what is owed: a claim is added when its lock bit is set
and leaves, from the front, when one of its bits is written again.  Every other
step keeps the claims, except a Bind, which drops whatever was left at idle. -/
def Owing (s s' : Session) : Effect → Prop
  | .setLock k e => k = s.bitmapNum ∧ s'.bitmapNum = k ∧ s'.owed = s.owed ++ [e]
  | .setMigrate k e | .resetLock k e =>
      k = s.bitmapNum ∧ s'.bitmapNum = k ∧ s.owed = e :: s'.owed
  | _ => (s'.bitmapNum = s.bitmapNum ∧ s'.owed = s.owed) ∨ (s.pc = .idle ∧ s'.owed = [])

theorem owed_of_canFail (h : canFail s.pc = true) : s.owed = s.inProgLocalList0 := by
  unfold canFail at h
  unfold owed
  split at h <;> simp_all

theorem Move.owing (h : Move bits s a s' eff) : Owing s s' eff := by
  cases h with
  | leaveLoop hpc _ => rcases hpc with hpc | ⟨_, hpc⟩ <;> simp [Owing, owed, hpc]
  | startSweep hpc _ => rcases hpc with hpc | ⟨_, hpc⟩ <;> simp [Owing, owed, hpc]
  | finishPending a x hpc _ | finishCommit a x hpc _ | finishDiscard a x hpc _ =>
      rcases hpc with ⟨rfl, hpc⟩ | ⟨rfl, hpc⟩ <;> simp [Owing, owed, hpc]
  | failUndo x hc _ | fail x hc _ => exact .inl ⟨rfl, (owed_of_canFail hc).symm⟩
  | _ => simp_all [Owing, owed, clear, abort]

/-- `InProgLocalList0` is kept, emptied, or becomes exactly what is owed. -/
theorem Move.list0 (h : Move bits s a s' eff) :
    s'.inProgLocalList0 = s.inProgLocalList0 ∨ s'.inProgLocalList0 = [] ∨
      s'.inProgLocalList0 = s.owed := by
  cases h with
  | appendClaimed e hpc => exact .inr (.inr (by simp [owed, hpc]))
  | bind _ _ | freeLists _ | undone _ => exact .inr (.inl rfl)
  | _ => exact .inl rfl

theorem Move.of_setLock (h : Move bits s a s' (.setLock k e)) :
    s.pc = .setLock e ∧ s.inside = some e := by
  cases h with
  | setLock e hpc => exact ⟨hpc, by simp [inside, hpc]⟩

theorem Move.next_of_setLock (h : Move bits s a s' (.setLock k e)) : a = .next := by
  cases h with
  | setLock _ _ => rfl

theorem Move.of_release (h : Move bits s a s' (.release k e)) :
    k = s.bitmapNum ∧ s.inside = some e := by
  cases h with
  | releaseClaimed _ hpc | releaseBusy _ hpc | releaseDone _ hpc =>
      exact ⟨rfl, by simp [inside, hpc]⟩

/-- A backend is inside after a step only if this step acquired the lock, or it
was inside before and left the locks alone. -/
theorem Move.inside_from (h : Move bits s a s' eff) (hin : s'.inside = some e) :
    s'.bitmapNum = s.bitmapNum ∧
      (eff = .acquire s.bitmapNum e ∨
        (s.inside = some e ∧ (eff = .skip ∨ ∃ k e', eff = .setLock k e'))) := by
  cases h <;> simp_all [inside, clear, abort]

theorem Move.to_recheckLock (h : Move bits s a s' eff) (hpc : s'.pc = .recheckLock e) :
    (bits (s'.bitmapNum, e)).migrate = false ∧ eff = .skip := by
  cases h <;> simp_all [clear, abort]

theorem Move.to_setLock (h : Move bits s a s' eff) (hpc : s'.pc = .setLock e) :
    s.pc = .recheckLock e ∧ s'.bitmapNum = s.bitmapNum ∧
      (bits (s.bitmapNum, e)).lock = false ∧ eff = .skip := by
  cases h <;> simp_all [clear, abort]

end Session

/-! ## The invariant -/

section

variable {B : Type}

/-- The bits, the claims, the lists, the program counters and the partition
locks fit together. -/
structure Ownership (bits₀ : Key → Status) (g : System B) : Prop where
  lock_iff : ∀ r, (g.bits r).lock = true ↔ (bits₀ r).lock = true ∨ ∃ b, r ∈ (g.sess b).held
  migrate_from : ∀ r, (g.bits r).migrate = true →
    (bits₀ r).migrate = true ∨ ∃ b, r ∈ (g.sess b).held
  migrate_keep : ∀ r, (bits₀ r).migrate = true → (g.bits r).migrate = true
  held_fresh : ∀ b, ∀ r ∈ (g.sess b).held, (bits₀ r).lock = false ∧ (bits₀ r).migrate = false
  held_unique : ∀ b b', ∀ r ∈ (g.sess b).held, r ∈ (g.sess b').held → b = b'
  held_nodup : ∀ b, (g.sess b).held.Nodup
  owed_nodup : ∀ b, (g.sess b).owed.Nodup
  owed_held : ∀ b, ∀ e ∈ (g.sess b).owed, ((g.sess b).bitmapNum, e) ∈ (g.sess b).held
  owed_unmigrated : ∀ b, ∀ e ∈ (g.sess b).owed,
    (g.bits ((g.sess b).bitmapNum, e)).migrate = false
  list0_nodup : ∀ b, (g.sess b).inProgLocalList0.Nodup
  inside_locks : ∀ b e, (g.sess b).inside = some e →
    g.lwlock (migrateBitmapPartitionLock e (g.sess b).bitmapNum) = some b
  rechecked : ∀ b e, (g.sess b).pc = .recheckLock e →
    (bits₀ ((g.sess b).bitmapNum, e)).migrate = false
  unclaimed : ∀ b e, (g.sess b).pc = .setLock e →
    g.bits ((g.sess b).bitmapNum, e) = ⟨false, false⟩

theorem ownership_initial (bits₀ : Key → Status) :
    Ownership bits₀ (System.initial bits₀ : System B) := by
  constructor <;> simp [System.initial, Session.owed, Session.inside]

variable {bits₀ : Key → Status} {g : System B} {b b' : B} {a : Action} {s' : Session}
  {eff : Effect} {k : BitmapNum} {e : Eid}

/-- Two backends holding the partition lock of the same tuple are one. -/
theorem Ownership.inside_unique (hI : Ownership bits₀ g) (h : (g.sess b).inside = some e)
    (h' : (g.sess b').inside = some e) (hk : (g.sess b).bitmapNum = (g.sess b').bitmapNum) :
    b = b' := by
  have hb := hI.inside_locks b e h
  rw [hk, hI.inside_locks b' e h'] at hb
  exact (Option.some.inj hb).symm

/-- What a backend finds where it writes: a claim is made on clear bits, and
settled while it is the writer's own and not yet migrated. -/
def Finds (bits : Key → Status) (held : List Key) : Effect → Prop
  | .setLock k e => bits (k, e) = ⟨false, false⟩
  | .setMigrate k e | .resetLock k e => bits (k, e) = ⟨true, false⟩ ∧ (k, e) ∈ held
  | _ => True

theorem Ownership.finds (hI : Ownership bits₀ g)
    (hm : Session.Move g.bits (g.sess b) a s' eff) : Finds g.bits (g.sess b).held eff := by
  -- for both kinds of settling, the eid is the first one owed
  have settle : ∀ {k : BitmapNum} {e : Eid} {todo : List Eid}, k = (g.sess b).bitmapNum →
      (g.sess b).owed = e :: todo → g.bits (k, e) = ⟨true, false⟩ ∧ (k, e) ∈ (g.sess b).held := by
    intro k e todo hk howed
    have hmem : e ∈ (g.sess b).owed := by rw [howed]; exact List.mem_cons_self
    have hheld := hI.owed_held b e hmem
    have hmig := hI.owed_unmigrated b e hmem
    have hlock := (hI.lock_iff _).mpr (.inr ⟨b, hheld⟩)
    subst hk
    exact ⟨Status.ext hlock hmig, hheld⟩
  have ho := hm.owing
  cases eff with
  | setLock k e =>
      obtain ⟨rfl, -, -⟩ := ho
      exact hI.unclaimed b e hm.of_setLock.1
  | setMigrate k e => exact settle ho.1 ho.2.2
  | resetLock k e => exact settle ho.1 ho.2.2
  | _ => trivial

/-- A tuple with a clear lock bit is nobody's claim. -/
theorem Ownership.not_held (hI : Ownership bits₀ g) {r : Key} (h : (g.bits r).lock = false)
    (b : B) : r ∉ (g.sess b).held := by
  intro hr
  rw [(hI.lock_iff r).mpr (.inr ⟨b, hr⟩)] at h
  cases h

/-- A claim is made on a tuple with both bits clear, which nobody holds. -/
theorem Ownership.claimed (hI : Ownership bits₀ g)
    (hm : Session.Move g.bits (g.sess b) a s' (.setLock k e)) :
    g.bits (k, e) = ⟨false, false⟩ ∧ ∀ b', (k, e) ∉ (g.sess b').held := by
  have hclear : g.bits (k, e) = ⟨false, false⟩ := hI.finds hm
  exact ⟨hclear, hI.not_held (by rw [hclear])⟩

/-- From cleared bits, a migrated tuple is locked. -/
theorem Ownership.lock_of_migrate (hO : Ownership allClear g) {key : Key}
    (h : (g.bits key).migrate = true) : (g.bits key).lock = true := by
  rcases hO.migrate_from key h with h₀ | hheld
  · cases h₀
  · exact (hO.lock_iff key).mpr (.inr hheld)

/-- Nobody but the holder clears a lock bit. -/
theorem Ownership.not_reset (hI : Ownership bits₀ g)
    (hm : Session.Move g.bits (g.sess b) a s' eff) {r : Key} (hb : b' ≠ b)
    (hr : r ∈ (g.sess b').held) : eff ≠ .resetLock r.1 r.2 := by
  have hf := hI.finds hm
  rintro rfl
  exact hb (hI.held_unique b' b r hr hf.2)

/-- What the backend that moved owes afterwards was owed before, or is the claim
it has just made; what it has just settled is not owed any more. -/
theorem Ownership.owed_from (hI : Ownership bits₀ g)
    (hm : Session.Move g.bits (g.sess b) a s' eff) {e : Eid} (h : e ∈ s'.owed) :
    s'.bitmapNum = (g.sess b).bitmapNum ∧
      (e ∈ (g.sess b).owed ∨ eff = .setLock (g.sess b).bitmapNum e) ∧
      eff ≠ .setMigrate (g.sess b).bitmapNum e ∧ eff ≠ .resetLock (g.sess b).bitmapNum e := by
  have ho := hm.owing
  have hnd := hI.owed_nodup b
  cases eff with
  | setLock k e' =>
      obtain ⟨rfl, hk, ho⟩ := ho
      rw [ho, List.mem_append, List.mem_singleton] at h
      exact ⟨hk, h.imp_right fun he => by rw [he], by simp, by simp⟩
  | setMigrate k e' | resetLock k e' =>
      obtain ⟨rfl, hk, ho⟩ := ho
      rw [ho, List.nodup_cons] at hnd
      have hne : e' ≠ e := fun he => hnd.1 (he ▸ h)
      exact ⟨hk, .inl (by rw [ho]; exact List.mem_cons_of_mem _ h), by simp [hne], by simp [hne]⟩
  | _ =>
      rcases ho with ⟨hk, ho⟩ | ⟨-, ho⟩
      · exact ⟨hk, .inl (ho ▸ h), by simp, by simp⟩
      · rw [ho] at h; cases h

theorem Ownership.owed_nodup_after (hI : Ownership bits₀ g)
    (hm : Session.Move g.bits (g.sess b) a s' eff) : s'.owed.Nodup := by
  have ho := hm.owing
  have hold := hI.owed_nodup b
  cases eff with
  | setLock k e =>
      obtain ⟨rfl, -, ho⟩ := ho
      rw [ho]
      refine hold.append (by simp) ?_
      intro e' he' hmem
      obtain rfl := List.mem_singleton.mp hmem
      exact (hI.claimed hm).2 b (hI.owed_held b _ he')
  | setMigrate k e | resetLock k e =>
      rw [ho.2.2] at hold
      exact hold.of_cons
  | _ =>
      rcases ho with ⟨-, ho⟩ | ⟨-, ho⟩
      · rw [ho]; exact hold
      · rw [ho]; exact List.nodup_nil

theorem Ownership.held_nodup_after (hI : Ownership bits₀ g)
    (hm : Session.Move g.bits (g.sess b) a s' eff) : s'.held.Nodup := by
  have hold := hI.held_nodup b
  rw [hm.held_eq]
  cases eff with
  | setLock k e =>
      refine hold.append (by simp) ?_
      intro r hr hmem
      obtain rfl := List.mem_singleton.mp hmem
      exact (hI.claimed hm).2 b hr
  | resetLock k e => exact hold.erase _
  | _ => exact hold

/-! ### Who holds what after a step -/

variable [DecidableEq B]

/-- The claims after a step, for all backends at once. -/
theorem Ownership.held_after (hI : Ownership bits₀ g)
    (hm : Session.Move g.bits (g.sess b) a s' eff) (b' : B) (r : Key) :
    r ∈ ((g.after b s' eff).sess b').held ↔
      (b' = b ∧ eff = .setLock r.1 r.2) ∨
        (r ∈ (g.sess b').held ∧ eff ≠ .resetLock r.1 r.2) := by
  by_cases hb : b' = b
  · subst hb
    rw [after_sess_self, hm.held_eq]
    cases eff with
    | setLock k e =>
        have : r = (k, e) ↔ k = r.1 ∧ e = r.2 := by rw [Prod.ext_iff, eq_comm, @eq_comm _ r.2]
        simp [this, or_comm]
    | resetLock k e =>
        have : r = (k, e) ↔ k = r.1 ∧ e = r.2 := by rw [Prod.ext_iff, eq_comm, @eq_comm _ r.2]
        simp [(hI.held_nodup b').mem_erase_iff, this, and_comm]
    | _ => simp
  · rw [after_sess_ne hb]
    refine ⟨fun hr => .inr ⟨hr, hI.not_reset hm hb hr⟩, ?_⟩
    rintro (⟨rfl, -⟩ | hr)
    · exact absurd rfl hb
    · exact hr.1

/-! ### The invariant is kept -/

theorem Ownership.inside_after (hI : Ownership bits₀ g)
    (hm : Session.Move g.bits (g.sess b) a s' eff) (hen : eff.enabled g.lwlock = true) :
    ∀ b' e, ((g.after b s' eff).sess b').inside = some e →
      (g.after b s' eff).lwlock
        (migrateBitmapPartitionLock e ((g.after b s' eff).sess b').bitmapNum) = some b' := by
  refine forall_after (P := fun b' s => ∀ e, s.inside = some e →
    (g.after b s' eff).lwlock (migrateBitmapPartitionLock e s.bitmapNum) = some b') ?_ ?_
  · intro e hin
    obtain ⟨hk, rfl | ⟨hold, rfl | ⟨k, e', rfl⟩⟩⟩ := hm.inside_from hin
    · simp [Effect.onLocks, hk]
    · rw [hk]; exact hI.inside_locks b e hold
    · rw [hk]; exact hI.inside_locks b e hold
  · intro b' hb e hin
    have hold := hI.inside_locks b' e hin
    -- a lock that is taken is not free, and one that is given back was the mover's
    cases eff with
    | acquire k e' =>
        have hne : migrateBitmapPartitionLock e (g.sess b').bitmapNum ≠
            migrateBitmapPartitionLock e' k := by
          intro heq
          rw [heq] at hold
          simp [Effect.enabled, hold] at hen
        simpa [Effect.onLocks, hne] using hold
    | release k e' =>
        obtain ⟨rfl, hin'⟩ := hm.of_release
        have hmine := hI.inside_locks b e' hin'
        have hne : migrateBitmapPartitionLock e (g.sess b').bitmapNum ≠
            migrateBitmapPartitionLock e' (g.sess b).bitmapNum := by
          intro heq
          rw [heq, hmine] at hold
          exact hb (Option.some.inj hold).symm
        simpa [Effect.onLocks, hne] using hold
    | _ => exact hold

/-- While a backend is about to set a lock bit, nobody else writes the two bits. -/
theorem Ownership.unclaimed_after (hI : Ownership bits₀ g)
    (hm : Session.Move g.bits (g.sess b) a s' eff) :
    ∀ b' e, ((g.after b s' eff).sess b').pc = .setLock e →
      (g.after b s' eff).bits (((g.after b s' eff).sess b').bitmapNum, e) = ⟨false, false⟩ := by
  refine forall_after (P := fun _ s => ∀ e, s.pc = .setLock e →
    (g.after b s' eff).bits (s.bitmapNum, e) = ⟨false, false⟩) ?_ ?_
  · intro e hpc
    obtain ⟨hre, hk, hl, rfl⟩ := hm.to_setLock hpc
    rw [hk, after_bits]
    have hmig : (g.bits ((g.sess b).bitmapNum, e)).migrate = false := by
      refine Bool.eq_false_iff.mpr ?_
      intro hmig
      rcases hI.migrate_from _ hmig with h₀ | ⟨b', hb'⟩
      · rw [hI.rechecked b e hre] at h₀; cases h₀
      · exact hI.not_held hl b' hb'
    exact Status.ext hl hmig
  · intro b' hb e hpc
    have hold := hI.unclaimed b' e hpc
    have hf := hI.finds hm
    cases eff with
    | setLock k e' =>
        -- a second claimant of the same tuple would hold the same partition lock
        have hne : ((g.sess b').bitmapNum, e) ≠ (k, e') := by
          intro heq
          obtain ⟨hk, -, -⟩ := hm.owing
          cases heq
          exact hb (hI.inside_unique (by simp [Session.inside, hpc]) hm.of_setLock.2 hk)
        simpa [Effect.onBits, hne] using hold
    | setMigrate k e' | resetLock k e' =>
        have hne : ((g.sess b').bitmapNum, e) ≠ (k, e') := by
          intro heq
          rw [heq, hf.1] at hold
          cases hold
        simpa [Effect.onBits, hne] using hold
    | _ => exact hold

theorem Ownership.lock_iff_after (hI : Ownership bits₀ g)
    (hm : Session.Move g.bits (g.sess b) a s' eff) (r : Key) :
    ((g.after b s' eff).bits r).lock = true ↔
      (bits₀ r).lock = true ∨ ∃ b', r ∈ ((g.after b s' eff).sess b').held := by
  simp only [after_bits, Effect.onBits_lock, hI.held_after hm, hI.lock_iff r]
  constructor
  · rintro (h | ⟨h | ⟨b', hb'⟩, hne⟩)
    · exact .inr ⟨b, .inl ⟨rfl, h⟩⟩
    · exact .inl h
    · exact .inr ⟨b', .inr ⟨hb', hne⟩⟩
  · rintro (h | ⟨b', ⟨-, h⟩ | ⟨hb', hne⟩⟩)
    · refine .inr ⟨.inl h, ?_⟩
      rintro rfl
      rw [(hI.held_fresh b r (hI.finds hm).2).1] at h
      cases h
    · exact .inl h
    · exact .inr ⟨.inr ⟨b', hb'⟩, hne⟩

theorem Ownership.migrate_from_after (hI : Ownership bits₀ g)
    (hm : Session.Move g.bits (g.sess b) a s' eff) {r : Key}
    (h : ((g.after b s' eff).bits r).migrate = true) :
    (bits₀ r).migrate = true ∨ ∃ b', r ∈ ((g.after b s' eff).sess b').held := by
  have hf := hI.finds hm
  simp only [hI.held_after hm]
  rcases Effect.onBits_migrate.mp h with hold | rfl
  · refine (hI.migrate_from r hold).imp_right ?_
    rintro ⟨b', hb'⟩
    refine ⟨b', .inr ⟨hb', ?_⟩⟩
    -- a lock bit is cleared only on an unmigrated tuple
    rintro rfl
    have hunset : g.bits r = ⟨true, false⟩ := hf.1
    rw [hunset] at hold
    cases hold
  · exact .inr ⟨b, .inr ⟨hf.2, by simp⟩⟩

theorem Ownership.held_fresh_after (hI : Ownership bits₀ g)
    (hm : Session.Move g.bits (g.sess b) a s' eff) {r : Key}
    (hr : r ∈ ((g.after b s' eff).sess b').held) :
    (bits₀ r).lock = false ∧ (bits₀ r).migrate = false := by
  rcases (hI.held_after hm b' r).mp hr with ⟨-, rfl⟩ | ⟨hr, -⟩
  · -- both bits are clear now, and no bit that was set at the start is lost
    have hclear : g.bits r = ⟨false, false⟩ := (hI.claimed hm).1
    refine ⟨Bool.eq_false_iff.mpr ?_, Bool.eq_false_iff.mpr ?_⟩
    · intro h
      have hlock := (hI.lock_iff r).mpr (.inl h)
      rw [hclear] at hlock
      cases hlock
    · intro h
      have hmig := hI.migrate_keep r h
      rw [hclear] at hmig
      cases hmig
  · exact hI.held_fresh b' r hr

theorem Ownership.held_unique_after (hI : Ownership bits₀ g)
    (hm : Session.Move g.bits (g.sess b) a s' eff) {b₁ b₂ : B} {r : Key}
    (h₁ : r ∈ ((g.after b s' eff).sess b₁).held) (h₂ : r ∈ ((g.after b s' eff).sess b₂).held) :
    b₁ = b₂ := by
  rcases (hI.held_after hm b₁ r).mp h₁ with ⟨rfl, rfl⟩ | ⟨hold₁, -⟩
  · rcases (hI.held_after hm b₂ r).mp h₂ with ⟨rfl, -⟩ | ⟨hold₂, -⟩
    · rfl
    · exact absurd hold₂ ((hI.claimed hm).2 b₂)
  · rcases (hI.held_after hm b₂ r).mp h₂ with ⟨-, rfl⟩ | ⟨hold₂, -⟩
    · exact absurd hold₁ ((hI.claimed hm).2 b₁)
    · exact hI.held_unique b₁ b₂ r hold₁ hold₂

theorem Ownership.owed_held_after (hI : Ownership bits₀ g)
    (hm : Session.Move g.bits (g.sess b) a s' eff) {e : Eid}
    (he : e ∈ ((g.after b s' eff).sess b').owed) :
    (((g.after b s' eff).sess b').bitmapNum, e) ∈ ((g.after b s' eff).sess b').held := by
  rw [hI.held_after hm]
  by_cases hb : b' = b
  · subst hb
    rw [after_sess_self] at he ⊢
    obtain ⟨hk, hfrom, -, hne⟩ := hI.owed_from hm he
    rw [hk]
    rcases hfrom with hfrom | hfrom
    · exact .inr ⟨hI.owed_held b' e hfrom, hne⟩
    · exact .inl ⟨rfl, hfrom⟩
  · rw [after_sess_ne hb] at he ⊢
    have hheld := hI.owed_held b' e he
    exact .inr ⟨hheld, hI.not_reset hm hb hheld⟩

theorem Ownership.owed_unmigrated_after (hI : Ownership bits₀ g)
    (hm : Session.Move g.bits (g.sess b) a s' eff) {e : Eid}
    (he : e ∈ ((g.after b s' eff).sess b').owed) :
    ((g.after b s' eff).bits (((g.after b s' eff).sess b').bitmapNum, e)).migrate = false := by
  refine Bool.eq_false_iff.mpr ?_
  intro h
  by_cases hb : b' = b
  · subst hb
    rw [after_sess_self] at he h
    obtain ⟨hk, hfrom, hne, -⟩ := hI.owed_from hm he
    rw [hk] at h
    have hold := (Effect.onBits_migrate.mp h).resolve_right hne
    rcases hfrom with hfrom | rfl
    · rw [hI.owed_unmigrated b' e hfrom] at hold
      cases hold
    · rw [(hI.claimed hm).1] at hold
      cases hold
  · rw [after_sess_ne hb] at he h
    rcases Effect.onBits_migrate.mp h with hold | rfl
    · rw [hI.owed_unmigrated b' e he] at hold
      cases hold
    · exact hb (hI.held_unique b' b _ (hI.owed_held b' e he) (hI.finds hm).2)

theorem Ownership.after (hI : Ownership bits₀ g)
    (hm : Session.Move g.bits (g.sess b) a s' eff) (hen : eff.enabled g.lwlock = true) :
    Ownership bits₀ (g.after b s' eff) where
  lock_iff := hI.lock_iff_after hm
  migrate_from _ := hI.migrate_from_after hm
  migrate_keep r h := Effect.onBits_migrate.mpr (.inl (hI.migrate_keep r h))
  held_fresh _ _ := hI.held_fresh_after hm
  held_unique _ _ _ := hI.held_unique_after hm
  held_nodup := forall_after (P := fun _ s => s.held.Nodup) (hI.held_nodup_after hm)
    fun b' _ => hI.held_nodup b'
  owed_nodup := forall_after (P := fun _ s => s.owed.Nodup) (hI.owed_nodup_after hm)
    fun b' _ => hI.owed_nodup b'
  owed_held _ _ := hI.owed_held_after hm
  owed_unmigrated _ _ := hI.owed_unmigrated_after hm
  list0_nodup := by
    refine forall_after (P := fun _ s => s.inProgLocalList0.Nodup) ?_ fun b' _ => hI.list0_nodup b'
    rcases hm.list0 with h | h | h
    · rw [h]; exact hI.list0_nodup b
    · rw [h]; exact List.nodup_nil
    · rw [h]; exact hI.owed_nodup b
  inside_locks := hI.inside_after hm hen
  rechecked := by
    refine forall_after (P := fun _ s => ∀ e, s.pc = .recheckLock e →
      (bits₀ (s.bitmapNum, e)).migrate = false) ?_ fun b' _ => hI.rechecked b'
    intro e hpc
    refine Bool.eq_false_iff.mpr ?_
    intro h
    have hmig := hI.migrate_keep _ h
    rw [(hm.to_recheckLock hpc).1] at hmig
    cases hmig
  unclaimed := hI.unclaimed_after hm

/-- The invariant holds along every run. -/
theorem ownership_run {ok : System B → B × Action → Prop} {tr : List (B × Action)}
    {g₀ : System B} (h₀ : Ownership bits₀ g₀) (r : Machine.Run (protocol B) ok g₀ tr g) :
    Ownership bits₀ g := by
  refine r.invariant (I := Ownership bits₀) ?_ h₀
  rintro g ⟨b, a⟩ g' - hstep hI
  obtain ⟨s', eff, hm, hen, rfl⟩ := step_cases hstep
  exact hI.after hm hen

/-! ## One owner, and the state machine of a tuple -/

/-- The ways a step of backend `b` from `g` to `g'` can treat the two bits of `r`. -/
inductive Transition (g g' : System B) (b : B) (r : Key) : Prop
  | same : g'.bits r = g.bits r → Transition g g' b r
  | claim : g.bits r = ⟨false, false⟩ → g'.bits r = ⟨true, false⟩ →
      (∀ b', r ∉ (g.sess b').held) → r ∈ (g'.sess b).held → Transition g g' b r
  | finish : g.bits r = ⟨true, false⟩ → g'.bits r = ⟨true, true⟩ → r ∈ (g.sess b).held →
      Transition g g' b r
  | release : g.bits r = ⟨true, false⟩ → g'.bits r = ⟨false, false⟩ → r ∈ (g.sess b).held →
      r ∉ (g'.sess b).held → Transition g g' b r

theorem Ownership.transition (hI : Ownership bits₀ g)
    (hm : Session.Move g.bits (g.sess b) a s' eff) (r : Key) :
    Transition g (g.after b s' eff) b r := by
  have hf := hI.finds hm
  have hheld := hI.held_after hm b r
  cases eff with
  | setLock k e =>
      by_cases hr : r = (k, e)
      · subst hr
        obtain ⟨hclear, hnone⟩ := hI.claimed hm
        exact .claim hclear (by simp [Effect.onBits, hclear]) hnone
          (hheld.mpr (.inl ⟨rfl, rfl⟩))
      · exact .same (by simp [Effect.onBits, hr])
  | setMigrate k e =>
      by_cases hr : r = (k, e)
      · subst hr; exact .finish hf.1 (by simp [Effect.onBits, hf.1]) hf.2
      · exact .same (by simp [Effect.onBits, hr])
  | resetLock k e =>
      by_cases hr : r = (k, e)
      · subst hr
        exact .release hf.1 (by simp [Effect.onBits, hf.1]) hf.2 (by rw [hheld]; simp)
      · exact .same (by simp [Effect.onBits, hr])
  | _ => exact .same rfl

/-- From cleared bitmaps, whatever the backends do in whatever order: a lock bit
is set exactly while some backend holds the claim, no two backends hold the same
claim, none has it twice in its list, and the two bits of a tuple move only
`00 → 10 → 11` and `10 → 00`, each time by the hand of the claimant. -/
theorem claims_have_one_owner {tr : List (B × Action)}
    (r : Machine.Run (protocol B) Machine.Any (System.initial allClear) tr g) :
    (∀ key, (g.bits key).lock = true ↔ ∃ b, key ∈ (g.sess b).held) ∧
    (∀ key b b', key ∈ (g.sess b).held → key ∈ (g.sess b').held → b = b') ∧
    (∀ b e, (g.sess b).inProgLocalList0.count e ≤ 1) ∧
    (∀ b a g', (protocol B).step g (b, a) = some g' → ∀ key, Transition g g' b key) := by
  have hI := ownership_run (ownership_initial allClear) r
  refine ⟨?_, fun key b b' h h' => hI.held_unique b b' key h h', ?_, ?_⟩
  · intro key
    rw [hI.lock_iff key]
    simp [allClear]
  · intro b e
    exact List.nodup_iff_count_le_one.mp (hI.list0_nodup b) e
  · intro b a g' hstep key
    obtain ⟨s', eff, hm, -, rfl⟩ := step_cases hstep
    exact hI.transition hm key

/-- Backend `false` claims tuple 5 while `true`, which has seen it unlocked, waits
for the partition lock and then finds it taken. -/
theorem claims_have_one_owner_contended :
    ∃ tr g, Machine.Run (protocol Bool) Machine.Any (System.initial allClear) tr g ∧
      (0, 5) ∈ (g.sess false).held ∧ (g.sess true).inProgLocalList1 = [5] ∧
      (∀ key b b', key ∈ (g.sess b).held → key ∈ (g.sess b').held → b = b') ∧
      (∀ b e, (g.sess b).inProgLocalList0.count e ≤ 1) ∧
      (∀ b a g', (protocol Bool).step g (b, a) = some g' → ∀ key, Transition g g' b key) := by
  let tr := startStatement false 0 ++ [(false, .pass 5)] ++ startStatement true 0 ++
    [(true, .pass 5)] ++ nexts true 2 ++ nexts false 7 ++ nexts true 5
  obtain ⟨g, run, h⟩ := (protocol Bool).exists_run (s := System.initial allClear) tr
    (p := fun g => decide ((0, 5) ∈ (g.sess false).held ∧ (g.sess true).inProgLocalList1 = [5]))
    (by decide +kernel)
  obtain ⟨hheld, hwait⟩ := of_decide_eq_true h
  exact ⟨tr, g, run, hheld, hwait, (claims_have_one_owner run).2⟩

end

end BullFrog
